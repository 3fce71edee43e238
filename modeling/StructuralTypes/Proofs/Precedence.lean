import StructuralTypes.Proofs.CompanionSteps
import StructuralTypes.Proofs.Validity

/-! Declarations before their dependents. Canonical declarations are made from the inside out:
what goes to the shared body goes to its end, and what goes elsewhere goes behind its element. A
declaration so comes to stand behind those that it is built from, and within reach of them. -/

namespace StructuralTypes

theorem eq_nil_of_getLast?_eq {α : Type} {front back : List α} (unique : (front ++ back).Nodup)
    (same : front.getLast? = (front ++ back).getLast?) : back = [] := by
  rcases List.eq_nil_or_concat back with rfl | ⟨rest, last, rfl⟩
  · rfl
  · rw [List.concat_eq_append] at unique same
    have isLast : (front ++ (rest ++ [last])).getLast? = some last := by simp
    have inFront : last ∈ front := List.mem_of_getLast? (same.trans isLast)
    exact absurd (by simp) (List.disjoint_of_nodup_append unique inFront)

namespace TypeForm

theorem eq_of_mem_constituents {form : TypeForm} {element part : TypeRef}
    (found : form.element? = some element) (member : part ∈ form.constituents) :
    part = element := by
  cases form with
  | array | sequence =>
      cases found
      exact List.mem_singleton.mp member
  | _ => cases found

theorem shape_of_mem_constituents {form : TypeForm} {part : TypeRef}
    (bare : form.element? = none) (member : part ∈ form.constituents) : form.shape = .tuple := by
  cases form with
  | tuple => rfl
  | array | sequence => cases bare
  | _ => cases member

end TypeForm

namespace Program

variable {source program before after : Program}

/-! ## Where constituents are declared -/

theorem Belongs.constituent_beside {form inner : TypeForm} {element ref : SymbolRef}
    {scope : ScopeRef} {part : TypeRef} (belongs : program.Belongs form (.beside element scope))
    (member : part ∈ form.constituents)
    (stored : program.types.get? part = some { form := inner, symbol := some ref }) :
    ref = element ∧ scope ≠ sharedScope ∧
      ∃ record, program.symbols.get? ref = some record ∧ record.scope = scope := by
  cases belongs with
  | element found innerStored beside =>
      cases TypeForm.eq_of_mem_constituents found member
      have same := (node_unique stored innerStored).2
      cases same
      obtain ⟨rfl, notShared, record, recordStored, isScope, -⟩ := homeBeside_beside beside
      exact ⟨rfl, notShared, record, recordStored, isScope⟩

/-- What belongs to the shared scope has a constituent that is declared there, or is a tuple. -/
theorem Belongs.constituent_shared (lexical : program.Lexical) {form inner : TypeForm}
    {ref : SymbolRef} {record : Symbol} {anchor : StatementRef} {part : TypeRef}
    (belongs : program.Belongs form .shared) (member : part ∈ form.constituents)
    (stored : program.types.get? part = some { form := inner, symbol := some ref })
    (recordStored : program.symbols.get? ref = some record)
    (defined : record.definition = .statement anchor)
    (shared : form.shape = .tuple → record.scope = sharedScope) : record.scope = sharedScope := by
  cases belongs with
  | leaf bare => exact shared (TypeForm.shape_of_mem_constituents bare member)
  | element found innerStored beside =>
      cases TypeForm.eq_of_mem_constituents found member
      have same := (node_unique stored innerStored).2
      cases same
      obtain ⟨again, content, againStored, scopeStored, isHome⟩ := homeBeside_eq_ok_iff.mp beside
      cases Option.mem_unique recordStored againStored
      split at isHome
      · rename_i one
        have opened := lexical.not_intrinsic recordStored defined scopeStored
        simpa [opened, defined] using one
      · cases isHome

/-! ## The end of the shared body -/

theorem Introduces.shared_order (lexical : before.Lexical) {fresh : TypeRef}
    {finish : TypeForm → TypeForm} {form : TypeForm} {text : String} {home : Home}
    {position : Position} (belongs : before.Belongs form home)
    (located : before.Located home.placement position)
    (introduces : before.Introduces home.scope text fresh finish position after) {content : Body}
    (stored : before.layout.bodies.get? sharedBody = some content)
    (last : content.lastSynthesized = content.order.getLast?) :
    (home = .shared ∧ ∃ later, after.layout.bodies.get? sharedBody = some later ∧
      later.order = content.order ++ [before.layout.statements.next] ∧
      later.lastSynthesized = some before.layout.statements.next) ∨
    (home ≠ .shared ∧ after.layout.bodies.get? sharedBody = some content) := by
  obtain ⟨-, body, holder, later, front, back, inserts, picks, isScope⟩ :=
    introduces.site lexical belongs located
  cases home with
  | shared =>
      left
      cases located
      obtain ⟨rfl, isLast, marked⟩ := picks
      cases Option.mem_unique stored inserts.stored
      have unique := lexical.placedOnce.nodup sharedBody content stored
      rw [inserts.split] at unique
      have ends : back = [] :=
        eq_nil_of_getLast?_eq unique (by rw [isLast, last, inserts.split])
      refine ⟨rfl, later, inserts.laterStored, ?_, marked⟩
      rw [inserts.order, inserts.split, ends, List.append_nil]
  | beside element scope =>
      right
      have notShared : scope ≠ sharedScope := by
        cases belongs with
        | element _ _ beside => exact (homeBeside_beside beside).2.1
      refine ⟨by simp, (inserts.others sharedBody ?_).trans stored⟩
      rintro rfl
      obtain ⟨shared, sharedStored, isShared⟩ := lexical.shared
      cases Option.mem_unique inserts.stored sharedStored
      exact notShared (isScope.symm.trans isShared)

/-! ## Precedence -/

/-- `part` is declared in a scope around that of `symbol`, and before it in one body. For the
component of a tuple this is said only if the component is declared in the shared scope. -/
def Precedes (program : Program) (form : TypeForm) (symbol : Symbol) (part : TypeRef) : Prop :=
  ∃ inner ref record, program.types.get? part = some { form := inner, symbol := some ref } ∧
    program.symbols.get? ref = some record ∧
    ∀ anchor declaration, record.definition = .statement anchor →
      symbol.definition = .statement declaration →
      (form.shape = .tuple → record.scope = sharedScope) →
      program.Encloses record.scope symbol.scope ∧
      ∃ body content, program.layout.bodies.get? body = some content ∧
        [anchor, declaration].Sublist content.order

theorem Precedes.of_continues (continues : Continues before after) {form later : TypeForm}
    (recompanions : form.Recompanions later) {symbol : Symbol} {part : TypeRef}
    (precedes : before.Precedes form symbol part) : after.Precedes later symbol part := by
  obtain ⟨inner, ref, record, stored, recordStored, ordered⟩ := precedes
  obtain ⟨innerLater, found, -⟩ := continues.types part inner ref stored
  obtain ⟨type, recordFound⟩ := continues.symbols ref record recordStored
  refine ⟨innerLater, ref, _, found, recordFound, ?_⟩
  intro anchor declaration anchored defined shared
  have sameShape : later.shape = form.shape := by cases recompanions <;> rfl
  obtain ⟨encloses, body, content, bodyStored, sublist⟩ := ordered anchor declaration anchored
    defined fun isTuple => shared (sameShape.trans isTuple)
  obtain ⟨grown, grownStored, -, supplements⟩ := continues.layout.orders body content bodyStored
  exact ⟨encloses.of_keepsScopes continues.scopes, body, grown, grownStored,
    sublist.trans supplements.sublist⟩

/-- What the run has declared is preceded by what it is built from. -/
structure Ordered (source current : Program) : Prop extends Sited source current where
  holders : ∀ type form ref, current.types.get? type = some { form, symbol := some ref } →
    ∃ symbol, current.symbols.get? ref = some symbol
  last : ∀ content, current.layout.bodies.get? sharedBody = some content →
    content.lastSynthesized = content.order.getLast?
  preceded : ∀ ref symbol form, source.symbols.get? ref = none →
    current.symbols.get? ref = some symbol →
    current.types.get? symbol.type = some { form, symbol := some ref } →
    ∀ part ∈ form.constituents, current.Precedes form symbol part

namespace Ordered

theorem preceded_of_continues (ordered : Ordered source before) (continues : Continues before after)
    {ref : SymbolRef} {symbol : Symbol} {form : TypeForm}
    (isNew : source.symbols.get? ref = none) (stored : before.symbols.get? ref = some symbol)
    (found : after.types.get? symbol.type = some { form, symbol := some ref }) {part : TypeRef}
    (member : part ∈ form.constituents) : after.Precedes form symbol part := by
  obtain ⟨old, -, -, oldStored, -⟩ := (ordered.situated ref symbol isNew stored).sited
  obtain ⟨later, laterStored, recompanions⟩ := continues.types _ _ _ oldStored
  obtain ⟨rfl, -⟩ := node_unique found laterStored
  rw [recompanions.constituents_eq] at member
  exact (ordered.preceded ref symbol old isNew stored oldStored part member).of_continues continues
    recompanions

theorem introduce (ordered : Ordered source before) (sited : Sited source after)
    (continues : Continues before after) {fresh : TypeRef} {form : TypeForm}
    {finish : TypeForm → TypeForm} {text : String} {home : Home} {position : Position}
    (stored : before.types.get? fresh = some { form, symbol := none })
    (named : ∀ part ∈ (finish form).constituents, before.Named part)
    (belongs : before.Belongs (finish form) home)
    (located : before.Located home.placement position)
    (introduces : before.Introduces home.scope text fresh finish position after) :
    Ordered source after := by
  obtain ⟨shared, sharedStored, -⟩ := ordered.lexical.shared
  have ending := introduces.shared_order ordered.lexical belongs located sharedStored
    (ordered.last shared sharedStored)
  refine ⟨sited, ?_, ?_, ?_⟩
  · intro type other ref found
    obtain ⟨⟨old, holder⟩, oldStored, same⟩ := Arena.get?_eq_some_of_modify introduces.types found
    split at same
    · cases same
      exact ⟨_, introduces.new_symbol⟩
    · cases same
      obtain ⟨symbol, symbolStored⟩ := ordered.holders type _ ref oldStored
      exact ⟨symbol, introduces.old_symbol symbolStored⟩
  · intro content found
    rcases ending with ⟨-, later, laterStored, order, marked⟩ | ⟨-, kept⟩
    · cases Option.mem_unique found laterStored
      rw [marked, order, List.getLast?_concat]
    · cases Option.mem_unique found kept
      exact ordered.last shared sharedStored
  · intro ref symbol other isNew found declares part member
    rw [introduces.symbols] at found
    rcases Arena.eq_next_or_get?_of_push found with ⟨rfl, rfl⟩ | old
    · obtain ⟨rfl, -⟩ := node_unique declares (introduces.type_same stored)
      obtain ⟨inner, partRef, partStored⟩ := named part member
      obtain ⟨record, recordStored⟩ := ordered.holders part inner partRef partStored
      obtain ⟨innerLater, partFound, -⟩ := continues.types part inner partRef partStored
      refine ⟨innerLater, partRef, record, partFound, introduces.old_symbol recordStored, ?_⟩
      intro anchor declaration anchored defined onlyShared
      cases Definition.statement.inj defined
      rcases ending with ⟨rfl, later, laterStored, order, -⟩ | ⟨notShared, -⟩
      · have isShared := belongs.constituent_shared ordered.lexical member partStored recordStored
          anchored onlyShared
        obtain ⟨content, contentStored, inOrder⟩ :=
          ordered.lexical.mem_shared recordStored anchored isShared
        cases Option.mem_unique contentStored sharedStored
        refine ⟨isShared ▸ .self, sharedBody, later, laterStored, ?_⟩
        rw [order]
        exact (List.singleton_sublist.mpr inOrder).append (List.Sublist.refl _)
      · obtain ⟨stands, -⟩ := introduces.site ordered.lexical belongs located
        cases stands with
        | shared => exact absurd rfl notShared
        | beside elementStored elementDefined holder isScope trails =>
            obtain ⟨rfl, -, again, againStored, sameScope⟩ :=
              belongs.constituent_beside member partStored
            cases Option.mem_unique recordStored againStored
            cases Option.mem_unique (introduces.old_symbol recordStored) elementStored
            cases Definition.statement.inj (anchored.symm.trans elementDefined)
            exact ⟨sameScope ▸ .self, _, _, holder, trails.sublist holder⟩
    · exact ordered.preceded_of_continues continues isNew old declares member

theorem step (intact : source.Intact) (ordered : Ordered source before)
    (step : Step before after) : Ordered source after := by
  have sited := ordered.toSited.step intact step
  have continues := step.continues
  cases step with
  | intern =>
      exact ⟨sited, ordered.holders, ordered.last, fun _ _ _ isNew stored found _ member =>
        ordered.preceded_of_continues continues isNew stored found member⟩
  | reform stored _ modified =>
      refine ⟨sited, ?_, ordered.last, fun _ _ _ isNew stored found _ member =>
        ordered.preceded_of_continues continues isNew stored found member⟩
      intro other form ref found
      obtain ⟨⟨old, holder⟩, oldStored, same⟩ := Arena.get?_eq_some_of_modify modified found
      split at same <;> cases same <;> exact ordered.holders other _ ref oldStored
  | introduce stored _ named belongs located _ _ introduces =>
      exact ordered.introduce sited continues stored named belongs located introduces
  | retype stored declares modified =>
      refine ⟨sited, ?_, ordered.last, ?_⟩
      · intro other form ref found
        obtain ⟨symbol, symbolStored⟩ := ordered.holders other form ref found
        obtain ⟨type, later⟩ := continues.symbols ref symbol symbolStored
        exact ⟨_, later⟩
      · intro ref symbol form isNew stored' found part member
        obtain ⟨_, isOld⟩ := ordered.continues.variable_source intact stored declares
        have old := (Arena.get?_of_modify_of_ne modified (ne_of_new isOld isNew)).symm.trans stored'
        exact ordered.preceded_of_continues continues isNew old found member

theorem steps (intact : source.Intact) (ordered : Ordered source before)
    (steps : Steps before after) : Ordered source after := by
  induction steps with
  | refl => exact ordered
  | tail _ next induction => exact induction.step intact next

end Ordered

theorem ordered_refl (laid : LaidOut source) (composed : source.Composed)
    (empty : ∀ content, source.layout.bodies.get? sharedBody = some content →
      content.order = []) : Ordered source source where
  toSited := sited_refl composed.toLexical
  holders type form ref stored := by
    obtain ⟨symbol, symbolStored, -⟩ := laid.declared type form ref stored
    exact ⟨symbol, symbolStored⟩
  last content stored := by
    rw [composed.untouched sharedBody content stored, empty content stored]
    rfl
  preceded ref symbol form isNew stored := by
    rw [isNew] at stored
    contradiction

end Program

theorem Layout.Extends.reachable {before after : Layout} (extension : before.Extends after)
    {roots : List BodyRef} (reached : ∀ body content, before.bodies.get? body = some content →
      before.Reachable roots body) {body : BodyRef} {content : Body}
    (stored : after.bodies.get? body = some content) : after.Reachable roots body := by
  have inside := Arena.lt_size_of_get? stored
  rw [extension.size] at inside
  obtain ⟨old, oldStored⟩ := Arena.exists_get?_of_lt_size inside
  exact extension.grows.reachable (fun _ => id) (reached body old oldStored)

/-- What a canonicalization declares comes after the declarations of the element or the
components that it is built from, and these belong to scopes around its own. A component of a
tuple has to be declared in the shared scope for that. -/
theorem canonicalize_declares_inside_out {calls : List Call} {source : Program}
    {own : Progress Unit} {options : Options} {final : Walker (Progress Unit)}
    (built : layOut calls = .ok source)
    (empty : ∀ content, source.layout.bodies.get? Program.sharedBody = some content →
      content.order = [])
    (ran : canonicalize .silent options ⟨source, own⟩ = .ok () final) :
    ∃ order, final.program.preorder = .ok order ∧
      ∀ ref symbol declaration, final.program.symbols.get? ref = some symbol →
        final.program.synthesizedDeclaration? symbol = .ok (some declaration) →
        ∃ form, final.program.types.get? symbol.type = some { form, symbol := some ref } ∧
          ∀ part ∈ form.constituents, ∀ inner partRef partSymbol anchor,
            final.program.types.get? part = some { form := inner, symbol := some partRef } →
            final.program.symbols.get? partRef = some partSymbol →
            partSymbol.definition = .statement anchor →
            (form.shape = .tuple → partSymbol.scope = Program.sharedScope) →
            [anchor, declaration].Sublist order ∧
              final.program.Encloses partSymbol.scope symbol.scope := by
  have laid := laidOut_of_layOut built
  have intact := Program.intact_of_laidOut laid
  have composed := Program.composed_of_layOut built
  obtain ⟨walker, ranTypes, sameProgram⟩ := canonicalizeTypes_of_canonicalize ran
  rw [sameProgram]
  have sound := sound_of_canonicalizeTypes intact ranTypes
  obtain ⟨middle, -, steps, settling⟩ := canonicalizeTypes_ends (.inl ⟨_, ranTypes⟩)
  have ordered := (Program.ordered_refl laid composed empty).steps intact steps
  obtain ⟨resolver, walked, -⟩ := canonicalizeTypes_eq_ok ranTypes
  obtain ⟨read, listed, -⟩ := resolvesAll_of_walkProgram walked
  obtain ⟨order, reading, -⟩ := sound.extension.supplements_preorder listed
  refine ⟨order, reading, ?_⟩
  intro ref symbol declaration stored asked
  have original : ∀ ref placed, source.layout.statements.get? ref = some placed →
      placed.statement.synthesized = false := fun ref placed found =>
    Bool.eq_false_iff.mpr fun generated => composed.written ref ⟨placed, found, generated⟩
  obtain ⟨answer, again, isNew⟩ := sound.synthesizedDeclaration?_eq intact original stored
  cases Except.ok.inj (asked.symm.trans again)
  have proper := sound.declared ref symbol (isNew (by simp)) stored
  obtain ⟨form, -, declares, -⟩ := proper.keyed
  refine ⟨form, declares, ?_⟩
  intro part member inner partRef partSymbol anchor partStored partSymbolStored anchored onlyShared
  -- What settling companions declares is an index type, which has no parts.
  have precedes : walker.program.Precedes form symbol part := by
    rcases settling.symbol_cases stored with old | ⟨subject, isIndex⟩
    · exact ordered.preceded_of_continues settling.continues (isNew (by simp)) old declares member
    · obtain ⟨rfl, -⟩ := Program.node_unique declares isIndex
      cases member
  obtain ⟨_, _, _, again, recordStored, precedes⟩ := precedes
  obtain ⟨rfl, same⟩ := Program.node_unique partStored again
  cases same
  cases Option.mem_unique partSymbolStored recordStored
  have defined := (Program.synthesizedDeclaration?_eq_ok asked).2.1
  obtain ⟨encloses, body, content, bodyStored, sublist⟩ :=
    precedes anchor declaration anchored defined onlyShared
  have reached : walker.program.layout.Reachable walker.program.roots body := by
    rw [Program.roots, sound.extension.modules]
    exact sound.extension.layout.reachable
      (fun body content found => (laid.bodies body content found).1) bodyStored
  exact ⟨sublist.trans (Layout.order_sublist_preorder reading reached bodyStored), encloses⟩

def tableCalls : List Call :=
  [.addModule, .addType .nominal, .declareType ⟨1⟩ "R" ⟨7⟩, .addType (.sequence ⟨7⟩),
    .addType (.sequence ⟨8⟩), .declareVar ⟨1⟩ "table" ⟨9⟩]

/-- The inner sequence, which the walk declares first, is read before the outer one. -/
theorem canonicalize_declares_rows_before_table :
    ∃ source final order, layOut tableCalls = .ok source ∧
      canonicalize .silent {} ⟨source, { journal := () }⟩ = .ok () final ∧
      final.program.preorder = .ok order ∧ [⟨2⟩, ⟨3⟩].Sublist order ∧
      final.program.Encloses ⟨2⟩ ⟨2⟩ := by
  obtain ⟨source, isBuilt, empty, final, isFinal, ⟨outer, outerStored, asked, sequence, isScope⟩,
      inner, innerStored, innerSequence, defined, innerScope⟩ :
    ∃ source ∈ (layOut tableCalls).toOption,
      (∀ content, source.layout.bodies.get? Program.sharedBody = some content →
        content.order = []) ∧
      ∃ final ∈ finished? (canonicalize .silent {} ⟨source, { journal := () }⟩),
        (∃ outer ∈ final.program.symbols.get? ⟨10⟩,
          final.program.synthesizedDeclaration? outer = .ok (some ⟨3⟩) ∧
          final.program.types.get? outer.type =
            some { form := .sequence ⟨8⟩, symbol := some ⟨10⟩ } ∧
          outer.scope = ⟨2⟩) ∧
        ∃ inner ∈ final.program.symbols.get? ⟨9⟩,
          final.program.types.get? ⟨8⟩ = some { form := .sequence ⟨7⟩, symbol := some ⟨9⟩ } ∧
          inner.definition = .statement ⟨2⟩ ∧ inner.scope = ⟨2⟩ := by
    decide +kernel
  have built := Except.toOption_eq_some_iff.mp isBuilt
  have ran := finished?_eq_some_iff.mp isFinal
  obtain ⟨order, listed, inOrder⟩ := canonicalize_declares_inside_out built empty ran
  obtain ⟨form, found, precedes⟩ := inOrder ⟨10⟩ outer ⟨3⟩ outerStored asked
  obtain ⟨rfl, -⟩ := Program.node_unique sequence found
  obtain ⟨sublist, encloses⟩ := precedes ⟨8⟩ (by decide) _ ⟨9⟩ inner ⟨2⟩ innerSequence innerStored
    defined (by simp [TypeForm.shape])
  rw [isScope, innerScope] at encloses
  exact ⟨source, final, order, built, ran, listed, sublist, encloses⟩

def recordPairCalls : List Call :=
  [.addModule, .addType .nominal, .declareType ⟨1⟩ "R" ⟨7⟩, .addType (.tuple [⟨7⟩, ⟨7⟩]),
    .declareVar ⟨1⟩ "pair" ⟨8⟩]

/-- Tuples go to the shared body, which is read first, and out of reach of records of modules. -/
theorem exists_tuple_before_component :
    ∃ source final order, layOut recordPairCalls = .ok source ∧
      (∀ content, source.layout.bodies.get? Program.sharedBody = some content →
        content.order = []) ∧
      (∀ text ∈ source.boundNames, ¬Underscored text) ∧
      canonicalize .silent {} ⟨source, { journal := () }⟩ = .ok () final ∧
      final.program.preorder = .ok order ∧
      ∃ ref symbol declaration components part partRef partSymbol anchor,
        final.program.symbols.get? ref = some symbol ∧
        final.program.synthesizedDeclaration? symbol = .ok (some declaration) ∧
        final.program.types.get? symbol.type =
          some { form := .tuple components, symbol := some ref } ∧
        part ∈ components ∧
        final.program.types.get? part = some { form := .nominal, symbol := some partRef } ∧
        final.program.symbols.get? partRef = some partSymbol ∧
        partSymbol.definition = .statement anchor ∧
        ¬[anchor, declaration].Sublist order ∧
        ¬final.program.Encloses partSymbol.scope symbol.scope := by
  obtain ⟨source, isBuilt, empty, plain, final, isFinal, ⟨order, isOrder, outside⟩,
      ⟨symbol, stored, asked, tuple, isScope⟩, ⟨part, partStored, nominal, defined, partScope⟩,
      ⟨shared, sharedStored, parent⟩, intrinsic, intrinsicStored, topmost⟩ :
    ∃ source ∈ (layOut recordPairCalls).toOption,
      (∀ content, source.layout.bodies.get? Program.sharedBody = some content →
        content.order = []) ∧
      (∀ text ∈ source.boundNames, ¬Underscored text) ∧
      ∃ final ∈ finished? (canonicalize .silent {} ⟨source, { journal := () }⟩),
        (∃ order ∈ final.program.preorder.toOption, ¬[⟨0⟩, ⟨2⟩].Sublist order) ∧
        (∃ symbol ∈ final.program.symbols.get? ⟨9⟩,
          final.program.synthesizedDeclaration? symbol = .ok (some ⟨2⟩) ∧
          final.program.types.get? symbol.type =
            some { form := .tuple [⟨7⟩, ⟨7⟩], symbol := some ⟨9⟩ } ∧ symbol.scope = ⟨1⟩) ∧
        (∃ part ∈ final.program.symbols.get? ⟨7⟩,
          final.program.types.get? ⟨7⟩ = some { form := .nominal, symbol := some ⟨7⟩ } ∧
          part.definition = .statement ⟨0⟩ ∧ part.scope = ⟨2⟩) ∧
        (∃ shared ∈ final.program.scopes.get? ⟨1⟩, shared.parent = some ⟨0⟩) ∧
        ∃ intrinsic ∈ final.program.scopes.get? ⟨0⟩, intrinsic.parent = none := by
    decide +kernel
  refine ⟨source, final, order, Except.toOption_eq_some_iff.mp isBuilt, empty, plain,
    finished?_eq_some_iff.mp isFinal, Except.toOption_eq_some_iff.mp isOrder, ⟨9⟩, symbol, ⟨2⟩, _,
    ⟨7⟩, ⟨7⟩, part, ⟨0⟩, stored, asked, tuple, List.mem_cons_self, nominal, partStored, defined,
    outside, ?_⟩
  rw [isScope, partScope]
  intro encloses
  rcases encloses with _ | ⟨stored, nested, encloses⟩
  cases Option.mem_unique stored sharedStored
  cases Option.mem_unique nested parent
  rcases encloses with _ | ⟨stored, nested, -⟩
  cases Option.mem_unique stored intrinsicStored
  rw [topmost] at nested
  contradiction

end StructuralTypes
