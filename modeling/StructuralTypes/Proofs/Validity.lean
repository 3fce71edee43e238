import StructuralTypes.Proofs.Soundness

/-! The check after canonicalization finds nothing: once the walks have gone through, every
variable that can be reached has a type with a declaration, and what was added is in order. -/

namespace StructuralTypes

theorem Arena.nodup_refs {entity : Entity} {α : Type} (arena : Arena entity α) :
    arena.refs.Nodup := by
  refine List.Pairwise.map Ref.mk ?_ List.nodup_range
  intro left right different same
  exact different (Ref.mk.inj same)

namespace Program

variable {program source before middle after current : Program}

/-! ## Declarations -/

theorem synthesizedDeclaration?_eq_ok {symbol : Symbol} {declaration : StatementRef}
    (asked : program.synthesizedDeclaration? symbol = .ok (some declaration)) :
    symbol.kind = .type ∧ symbol.definition = .statement declaration ∧
      ∃ placed, program.layout.statements.get? declaration = some placed ∧
        placed.statement.synthesized = true := by
  unfold synthesizedDeclaration? at asked
  split at asked
  · rename_i other kind defined
    simp only [Except.bind_eq_ok_iff, statement, Layout.statement_eq_ok_iff] at asked
    rcases asked with ⟨found, ⟨body, stored⟩, asked⟩
    split at asked
    · rename_i synthesized
      cases Option.some.inj (Except.pure_eq_ok_iff.mp asked)
      exact ⟨kind, defined, _, stored, synthesized⟩
    · simp [Except.pure_eq_ok_iff] at asked
  · simp [Except.pure_eq_ok_iff] at asked

theorem ProperlyDeclared.expectedName?_eq {ref : SymbolRef} {symbol : Symbol}
    (proper : program.ProperlyDeclared ref symbol) {name : String}
    (named : program.names.get? symbol.name = some name) :
    program.expectedName? symbol name = .ok none := by
  rcases proper.keyed with ⟨form, key, stored, isName, fits⟩
  cases Option.mem_unique named isName
  have shaped : program.shape symbol.type = .ok form.shape :=
    shape_eq_ok_iff.mpr ⟨_, stored, rfl⟩
  by_cases isIndex : form.shape = .index
  · simp [expectedName?, shaped, isIndex, bind, Except.bind, pure, Except.pure]
  · simp [expectedName?, shaped, isIndex, fits.canonicalName?_eq stored isIndex, bind, Except.bind,
      pure, Except.pure]

theorem ProperlyDeclared.declarationViolations_eq {ref : SymbolRef} {symbol : Symbol}
    (proper : program.ProperlyDeclared ref symbol) {declared : List (ScopeRef × NameRef)}
    (isFirst : (symbol.scope, symbol.name) ∉ declared) {declaration : StatementRef}
    (defined : symbol.definition = .statement declaration) :
    program.declarationViolations declared ref symbol declaration = .ok [] := by
  rcases proper.keyed with ⟨form, key, stored, named, -⟩
  rcases proper.placed with ⟨other, body, otherDefined, placed⟩
  rw [defined] at otherDefined
  cases Definition.statement.inj otherDefined
  have isText := NameTable.text_eq_ok_iff.mpr named
  have linked : program.layout.bodyOf declaration = .ok (some body) :=
    Layout.bodyOf_eq_ok_iff.mpr ⟨_, placed⟩
  have bound := lookup_eq_some_iff.mpr proper.bound
  have tied : program.typeSymbol? symbol.type = .ok (some ref) :=
    typeSymbol?_eq_ok_iff.mpr ⟨form, stored⟩
  simp [declarationViolations, isText, linked, bound, tied, isFirst,
    proper.expectedName?_eq named, bind, Except.bind, pure, Except.pure]

theorem symbolViolations_eq_nil {declared : List (ScopeRef × NameRef)} {refs : List SymbolRef}
    (answered : ∀ ref ∈ refs, ∃ symbol answer, program.symbols.get? ref = some symbol ∧
      program.synthesizedDeclaration? symbol = .ok answer ∧
      (answer ≠ none → program.ProperlyDeclared ref symbol))
    (nodup : refs.Nodup)
    (earlier : ∀ pair ∈ declared, ∃ other, program.Binds pair.1 pair.2 other ∧ other ∉ refs) :
    program.symbolViolations declared refs = .ok [] := by
  induction refs generalizing declared with
  | nil => rfl
  | cons ref rest induction =>
      rcases answered ref List.mem_cons_self with ⟨symbol, answer, stored, asked, proper⟩
      have restAnswered := fun other member => answered other (List.mem_cons_of_mem _ member)
      rcases List.nodup_cons.mp nodup with ⟨notInRest, restNodup⟩
      have remembered : ∀ pair ∈ declared, ∃ other, program.Binds pair.1 pair.2 other ∧
          other ∉ rest := by
        intro pair member
        rcases earlier pair member with ⟨other, binds, outside⟩
        exact ⟨other, binds, fun inRest => outside (List.mem_cons_of_mem _ inRest)⟩
      have isSymbol := symbol_eq_ok_iff.mpr stored
      cases answer with
      | none =>
          simp only [symbolViolations, isSymbol, asked, bind, Except.bind]
          exact induction restAnswered restNodup remembered
      | some declaration =>
          have proper := proper (by simp)
          have isFirst : (symbol.scope, symbol.name) ∉ declared := by
            intro member
            rcases earlier _ member with ⟨other, binds, outside⟩
            exact outside (binds_unique proper.bound binds ▸ List.mem_cons_self)
          have later : program.symbolViolations ((symbol.scope, symbol.name) :: declared) rest =
              .ok [] := by
            refine induction restAnswered restNodup (List.forall_mem_cons.mpr ⟨?_, remembered⟩)
            exact ⟨ref, proper.bound, notInRest⟩
          have here := proper.declarationViolations_eq isFirst
            (synthesizedDeclaration?_eq_ok asked).2.1
          simp only [symbolViolations, isSymbol, asked, here, later, bind, Except.bind, pure,
            Except.pure, List.append_nil]

/-! ## Variables -/

def VariableScalarsNamed (program : Program) : Prop :=
  ∀ var ∈ program.declaredVariables, ∀ symbol form, program.symbols.get? var = some symbol →
    program.types.get? symbol.type = some { form, symbol := none } → ¬form.Scalar

theorem ScalarsNamed.ofVariables (named : program.ScalarsNamed) : program.VariableScalarsNamed :=
  fun _ _ symbol form _ stored => named symbol.type form stored

def Typed (program : Program) (var : SymbolRef) : Prop :=
  ∃ type, program.typeOf? var = some type ∧ program.Named type

/-- A variable has the type that it was declared with, or one that has a declaration. -/
def Untouched (source current : Program) (var : SymbolRef) : Prop :=
  ∀ symbol, source.symbols.get? var = some symbol →
    current.typeOf? var = some symbol.type ∨ current.Typed var

theorem Adopts.named (intact : source.Intact) (unreserved : source.Unreserved)
    (sound : Sound source before) {scope : ScopeRef} {type canonical : TypeRef}
    (structural : ∀ form, before.types.get? type = some { form, symbol := none } → ¬form.Scalar)
    (adopts : before.Adopts scope type canonical after) : after.Named canonical := by
  cases adopts with
  | @scalar form symbol stored scalar =>
      cases symbol with
      | none => exact absurd scalar (structural form stored)
      | some ref => exact ⟨form, ref, stored⟩
  | settled _ canonicalizes =>
      rcases canonicalizes.named intact unreserved sound with
        named | ⟨-, -, form, stored, scalar⟩
      · exact named
      · exact absurd scalar (structural form stored)
  | twice _ canonicalizes anonymous _ =>
      rcases canonicalizes.named intact unreserved sound with
        ⟨_, _, named⟩ | ⟨-, -, form, stored, scalar⟩
      · rw [anonymous] at named
        simp at named
      · exact absurd scalar (structural form stored)

theorem Untouched.structural (scalars : source.VariableScalarsNamed)
    (sound : Sound source current) {var : SymbolRef} (member : var ∈ source.declaredVariables)
    {old symbol : Symbol} (oldStored : source.symbols.get? var = some old)
    (stored : current.symbols.get? var = some symbol) (untouched : source.Untouched current var)
    {form : TypeForm} (anonymous : current.types.get? symbol.type = some { form, symbol := none }) :
    ¬form.Scalar := by
  rcases untouched old oldStored with same | ⟨type, typed, _, _, named⟩
  · rw [typeOf?_eq_some stored] at same
    rw [Option.some.inj same] at anonymous
    rcases sound.anonymous_source anonymous with ⟨original, found, rewrites⟩
    have structural := scalars var member old original oldStored found
    rwa [TypeForm.Scalar, ← rewrites.shape_eq] at structural
  · rw [typeOf?_eq_some stored] at typed
    cases Option.some.inj typed
    rw [anonymous] at named
    simp at named

theorem Resolves.typed (intact : source.Intact) (unreserved : source.Unreserved)
    (scalars : source.VariableScalarsNamed) (sound : Sound source before)
    (untouched : ∀ var, source.Untouched before var) {ref : StatementRef}
    (resolves : before.Resolves ref after) :
    (∀ var, source.Untouched after var) ∧ (∀ var, before.Typed var → after.Typed var) ∧
      ∀ var, source.DeclaredBy ref var → after.Typed var := by
  have advance := resolves.advance intact sound
  cases resolves with
  | @declaration statement var symbol canonical middle symbols found declares stored adopts
      changed =>
      rcases sound.variable_source intact found declares with ⟨declared, old, oldStored⟩
      have member : var ∈ source.declaredVariables :=
        mem_declaredVariables_iff.mpr ⟨ref, declared⟩
      have named : middle.Named canonical := adopts.named intact unreserved sound fun _ =>
        (untouched var).structural scalars sound member oldStored stored
      have typedVar : Typed { middle with symbols } var := by
        refine ⟨canonical, ?_, named⟩
        rw [typeOf?, Arena.get?_of_modify_same changed, adopts.symbols stored]
        rfl
      have elsewhere : ∀ other type, var ≠ other → before.typeOf? other = some type →
          Program.typeOf? { middle with symbols } other = some type := by
        intro other type different typed
        rcases Option.map_eq_some_iff.mp typed with ⟨content, contentStored, rfl⟩
        exact typeOf?_eq_some
          ((Arena.get?_of_modify_of_ne changed different).trans (adopts.symbols contentStored))
      have kept : ∀ other, before.Typed other → Typed { middle with symbols } other := by
        intro other typed
        by_cases same : var = other
        · exact same ▸ typedVar
        · rcases typed with ⟨type, isType, isNamed⟩
          exact ⟨type, elsewhere other type same isType, advance.extension.named isNamed⟩
      refine ⟨?_, kept, ?_⟩
      · intro other content contentStored
        by_cases same : var = other
        · exact .inr (same ▸ typedVar)
        · rcases untouched other content contentStored with isOld | typed
          · exact .inl (elsewhere other _ same isOld)
          · exact .inr (kept other typed)
      · intro other isDeclared
        have again := sound.kind_of_declaredBy found isDeclared
        rw [declares] at again
        exact StatementKind.varDeclaration.inj again ▸ typedVar
  | @other statement found silent =>
      exact ⟨untouched, fun _ typed => typed,
        fun var declared => absurd (sound.kind_of_declaredBy found declared) (silent var)⟩

theorem ResolvesAll.typed (intact : source.Intact) (unreserved : source.Unreserved)
    (scalars : source.VariableScalarsNamed) (sound : Sound source before)
    (untouched : ∀ var, source.Untouched before var) {order : List StatementRef}
    (resolves : before.ResolvesAll order after) :
    (∀ var, before.Typed var → after.Typed var) ∧
      ∀ ref ∈ order, ∀ var, source.DeclaredBy ref var → after.Typed var := by
  induction resolves with
  | nil => exact ⟨fun _ typed => typed, by simp⟩
  | cons first _ induction =>
      rcases first.typed intact unreserved scalars sound untouched with
        ⟨untouchedMiddle, keptMiddle, typedMiddle⟩
      rcases induction (first.advance intact sound).sound untouchedMiddle with ⟨kept, typed⟩
      refine ⟨fun var isTyped => kept var (keptMiddle var isTyped), ?_⟩
      intro ref member var declared
      rcases List.mem_cons.mp member with rfl | inRest
      · exact kept var (typedMiddle var declared)
      · exact typed ref inRest var declared

/-! ## The check -/

theorem Sound.synthesizedDeclaration?_eq (intact : source.Intact)
    (original : ∀ ref placed, source.layout.statements.get? ref = some placed →
      placed.statement.synthesized = false)
    (sound : Sound source current) {ref : SymbolRef} {symbol : Symbol}
    (stored : current.symbols.get? ref = some symbol) :
    ∃ answer, current.synthesizedDeclaration? symbol = .ok answer ∧
      (answer ≠ none → source.symbols.get? ref = none) := by
  cases old : source.symbols.get? ref with
  | none =>
      have proper := sound.declared ref symbol old stored
      rcases proper.placed with ⟨declaration, body, defined, placed⟩
      have stated : current.statement declaration = .ok (.synthesizedType ref) :=
        Layout.statement_eq_ok_iff.mpr ⟨some body, placed⟩
      refine ⟨some declaration, ?_, fun _ => rfl⟩
      simp [synthesizedDeclaration?, proper.kind, defined, stated, Statement.synthesizedType, bind,
        Except.bind, pure, Except.pure]
  | some before =>
      refine ⟨none, ?_, by simp⟩
      rcases sound.extension.symbols ref before old with ⟨type, kept⟩
      cases Option.mem_unique stored kept
      unfold synthesizedDeclaration?
      split
      · rename_i declaration kind defined
        rcases intact.definitions ref before declaration old kind defined with ⟨placed, found⟩
        have stated : current.statement declaration = .ok placed.statement :=
          Layout.statement_eq_ok_iff.mpr
            ⟨placed.body, sound.extension.layout.statements _ _ found⟩
        simp [stated, original _ _ found, bind, Except.bind, pure, Except.pure]
      · rfl

theorem variableViolation_eq_nil {ref : StatementRef} {placed : Placed}
    (stored : program.layout.statements.get? ref = some placed)
    (typed : ∀ var, placed.statement.kind = .varDeclaration var → program.Typed var) :
    program.variableViolation ref = .ok [] := by
  have stated : program.statement ref = .ok placed.statement :=
    Layout.statement_eq_ok_iff.mpr ⟨placed.body, stored⟩
  cases kind : placed.statement.kind with
  | varDeclaration var =>
      rcases typed var kind with ⟨type, found, form, holder, named⟩
      rcases Option.map_eq_some_iff.mp found with ⟨symbol, symbolStored, rfl⟩
      have isSymbol := symbol_eq_ok_iff.mpr symbolStored
      have isNamed := typeSymbol?_eq_ok_iff.mpr ⟨form, named⟩
      simp [variableViolation, stated, kind, isSymbol, Program.isNamed, isNamed, bind,
        Except.bind, pure, Except.pure]
  | _ => simp [variableViolation, stated, kind, bind, Except.bind, pure, Except.pure]

/-- A program in order violates nothing if the variables of the original reading order have
types with declarations. -/
theorem Sound.violations_eq_nil (intact : source.Intact)
    (original : ∀ ref placed, source.layout.statements.get? ref = some placed →
      placed.statement.synthesized = false)
    (sound : Sound source current) {order : List StatementRef}
    (listed : source.preorder = .ok order)
    (typed : ∀ ref ∈ order, ∀ var, source.DeclaredBy ref var → current.Typed var) :
    current.violations = .ok [] := by
  obtain ⟨more, moreListed, supplements⟩ := sound.extension.supplements_preorder listed
  have each : ∀ ref ∈ more, ∃ found, current.variableViolation ref = .ok found ∧ found = [] := by
    intro ref member
    refine ⟨[], ?_, rfl⟩
    rcases supplements.mem_or_added member with old | ⟨missing, placed, stored⟩
    · rcases (Layout.reachable_of_mem_preorder listed old).1 with ⟨placed, stored⟩
      exact variableViolation_eq_nil (sound.extension.layout.statements ref placed stored)
        fun var declares => typed ref old var ⟨placed, stored, declares⟩
    · apply variableViolation_eq_nil stored
      intro var declares
      rcases sound.extension.layout.synthesized ref placed stored with before | ⟨symbol, body, rfl⟩
      · rw [missing] at before
        contradiction
      · simp [Statement.synthesizedType] at declares
  rcases exists_mapM_eq_ok each with ⟨atVariables, mapped, allEmpty⟩
  have atSymbols : current.symbolViolations [] current.symbols.refs = .ok [] := by
    refine symbolViolations_eq_nil ?_ current.symbols.nodup_refs (by simp)
    intro ref member
    rcases Arena.exists_get?_of_lt_size (Arena.mem_refs_iff.mp member) with ⟨symbol, stored⟩
    rcases sound.synthesizedDeclaration?_eq intact original stored with ⟨answer, asked, isNew⟩
    exact ⟨symbol, answer, stored, asked, fun answered =>
      sound.declared ref symbol (isNew answered) stored⟩
  simp only [violations, moreListed, mapped, atSymbols, bind, Except.bind, pure, Except.pure,
    List.append_nil, List.flatten_eq_nil_iff.mpr allEmpty]

end Program

theorem sound_of_canonicalizeTypes {source : Program} {own : Progress Unit} {options : Options}
    {final : Walker (Progress Unit)} (intact : source.Intact)
    (ran : canonicalizeTypes .silent options ⟨source, own⟩ = .ok () final) :
    Program.Sound source final.program := by
  rcases canonicalizeTypes_eq_ok ran with ⟨middle, walked, completing⟩
  rcases resolvesAll_of_walkProgram walked with ⟨order, -, resolves⟩
  have resolving := resolves.advance intact (Program.sound_refl source)
  split at completing
  · rcases completing with ⟨_, -, completes⟩
    exact (completes.advance resolving.sound).sound
  · rw [completing]
    exact resolving.sound

theorem typed_of_canonicalizeTypes {source : Program} {own : Progress Unit} {options : Options}
    {final : Walker (Progress Unit)} (intact : source.Intact)
    (scalars : source.VariableScalarsNamed) (unreserved : source.Unreserved)
    (ran : canonicalizeTypes .silent options ⟨source, own⟩ = .ok () final) :
    ∃ order, source.preorder = .ok order ∧
      ∀ ref ∈ order, ∀ var, source.DeclaredBy ref var → final.program.Typed var := by
  rcases canonicalizeTypes_eq_ok ran with ⟨middle, walked, completing⟩
  rcases resolvesAll_of_walkProgram walked with ⟨order, listed, resolves⟩
  have sound := Program.sound_refl source
  have resolving := resolves.advance intact sound
  rcases resolves.typed intact unreserved scalars sound
      (fun var symbol stored => .inl (Program.typeOf?_eq_some stored)) with ⟨-, typed⟩
  refine ⟨order, listed, fun ref member var declared => ?_⟩
  have typedVar := typed ref member var declared
  split at completing
  · rcases completing with ⟨_, -, completes⟩
    rcases typedVar with ⟨type, found, named⟩
    rcases Option.map_eq_some_iff.mp found with ⟨symbol, symbolStored, rfl⟩
    exact ⟨symbol.type, Program.typeOf?_eq_some (completes.symbols symbolStored),
      (completes.advance resolving.sound).extension.named named⟩
  · rw [completing]
    exact typedVar

theorem canonicalize_of_violations_eq_nil {options : Options}
    {before after : Walker (Progress Unit)}
    (ran : canonicalizeTypes .silent options before = .ok () after)
    (checked : after.program.violations = .ok []) :
    canonicalize .silent options before = .ok () after := by
  simp only [canonicalize, bind_eq_ok_iff]
  refine ⟨(), after, ran, ?_⟩
  split
  · simp only [checkCanonical, bind_eq_ok_iff, Walk.ask_eq_ok_iff]
    exact ⟨[], after, ⟨checked, rfl⟩, rfl⟩
  · rfl

/-- The check never fails: if both walks end well, the check finds no violation, and each
synthesized declaration is bound under the name that its type has by the end. -/
theorem canonicalize_passes_check {source : Program} {own : Progress Unit} {options : Options}
    {final : Walker (Progress Unit)} (intact : source.Intact)
    (original : ∀ ref placed, source.layout.statements.get? ref = some placed →
      placed.statement.synthesized = false)
    (scalars : source.VariableScalarsNamed) (unreserved : source.Unreserved)
    (ran : canonicalizeTypes .silent options ⟨source, own⟩ = .ok () final) :
    final.program.violations = .ok [] ∧
      canonicalize .silent options ⟨source, own⟩ = .ok () final ∧
      ∀ ref symbol declaration, final.program.symbols.get? ref = some symbol →
        final.program.synthesizedDeclaration? symbol = .ok (some declaration) →
        ∃ form, final.program.types.get? symbol.type = some { form, symbol := some ref } ∧
          ¬form.Scalar ∧ (form.shape ≠ .index → ∃ text,
            final.program.canonicalName? symbol.type = .ok (some text) ∧
            final.program.names.get? symbol.name = some text ∧
            final.program.Binds symbol.scope symbol.name ref) := by
  have sound := sound_of_canonicalizeTypes intact ran
  rcases typed_of_canonicalizeTypes intact scalars unreserved ran with ⟨order, listed, typed⟩
  have checked := sound.violations_eq_nil intact original listed typed
  refine ⟨checked, canonicalize_of_violations_eq_nil ran checked, ?_⟩
  intro ref symbol declaration stored asked
  rcases sound.synthesizedDeclaration?_eq intact original stored with ⟨answer, again, isNew⟩
  rw [asked] at again
  cases Except.ok.inj again
  have proper := sound.declared ref symbol (isNew (by simp)) stored
  rcases proper.keyed with ⟨form, key, typeStored, named, fits⟩
  exact ⟨form, typeStored, fits.not_scalar, fun notIndex =>
    ⟨key.name, fits.canonicalName?_eq typeStored notIndex, named, proper.bound⟩⟩

theorem canonicalize_passes_check_companion :
    ∃ source final, layOut companionCalls = .ok source ∧
      canonicalizeTypes .silent {} ⟨source, { journal := () }⟩ = .ok () final ∧
      final.program.violations = .ok [] ∧
      canonicalize .silent {} ⟨source, { journal := () }⟩ = .ok () final ∧
      ∀ ref symbol declaration, final.program.symbols.get? ref = some symbol →
        final.program.synthesizedDeclaration? symbol = .ok (some declaration) →
        ∃ form, final.program.types.get? symbol.type = some { form, symbol := some ref } ∧
          ¬form.Scalar ∧ (form.shape ≠ .index → ∃ text,
            final.program.canonicalName? symbol.type = .ok (some text) ∧
            final.program.names.get? symbol.name = some text ∧
            final.program.Binds symbol.scope symbol.name ref) := by
  obtain ⟨source, isBuilt, scalars, unreserved, original, finishes⟩ :
    ∃ source ∈ (layOut companionCalls).toOption, source.ScalarsNamed ∧ source.Unreserved ∧
      (∀ ref placed, source.layout.statements.get? ref = some placed →
        placed.statement.synthesized = false) ∧
      (finished? (canonicalizeTypes .silent {} ⟨source, { journal := () }⟩)).isSome := by
    decide +kernel
  have built := Except.toOption_eq_some_iff.mp isBuilt
  rcases Option.isSome_iff_exists.mp finishes with ⟨final, isFinal⟩
  have ran := finished?_eq_some_iff.mp isFinal
  have intact := Program.intact_of_laidOut (laidOut_of_layOut built)
  exact ⟨source, final, built, ran,
    canonicalize_passes_check intact original scalars.ofVariables unreserved ran⟩

end StructuralTypes
