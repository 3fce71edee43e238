import StructuralTypes.Proofs.Ranges
import StructuralTypes.Proofs.Totality

/-! Canonicalizations without a fault. Where all references lead somewhere, whatever is asked of a
program has an answer, a new declaration has no place yet, and what it is put next to has one. So
the canonicalization of a type ends well or with a failure of its own. -/

namespace StructuralTypes

/-! ## Computations without a fault -/

/-- Started in `before`, a computation does not come to a fault. -/
def Faultless {ε σ α : Type} (computation : EStateM (Halt ε) σ α) (before : σ) : Prop :=
  ∀ fault after, computation before ≠ .error (.fault fault) after

section

variable {ε σ α β : Type} {before middle : σ}

theorem faultless_pure (value : α) : Faultless (pure value : EStateM (Halt ε) σ α) before := nofun

theorem faultless_of_eq_ok {computation : EStateM (Halt ε) σ α} {value : α}
    (ran : computation before = .ok value middle) : Faultless computation before := by
  intro fault after failed
  cases ran.symm.trans failed

theorem Faultless.bind {first : EStateM (Halt ε) σ α} {rest : α → EStateM (Halt ε) σ β}
    (faultless : Faultless first before)
    (later : ∀ value middle, first before = .ok value middle → Faultless (rest value) middle) :
    Faultless (first >>= rest) before := by
  intro fault after ran
  rcases bind_eq_error_iff.mp ran with ran | ⟨value, middle, ran, failed⟩
  · exact faultless fault after ran
  · exact later value middle ran fault after failed

theorem faultless_of_ok {first : EStateM (Halt ε) σ α} {rest : α → EStateM (Halt ε) σ β}
    {value : α} (ran : first before = .ok value middle) (later : Faultless (rest value) middle) :
    Faultless (first >>= rest) before := by
  intro fault after
  rw [bind_of_ok ran]
  exact later fault after

end

/-! ## Placements -/

/-- A declaration can be put there, unless that fails by itself. -/
def Placement.HasAnchor (program : Program) : Placement → Prop
  | .shared => True
  | .afterElement element => program.Has element
  | .before statement => ∃ body, program.layout.Lists body statement

namespace Layout

theorem Outcome.exists_of_not {refused : Prop} {next : Arrangement} {result : Except Fault Layout}
    (outcome : Outcome refused next result) (accepted : ¬refused) :
    ∃ linked, result = .ok linked := by
  rcases outcome with ⟨isRefused, -⟩ | ⟨-, linked, succeeded, -⟩
  · exact absurd isRefused accepted
  · exact ⟨linked, succeeded⟩

theorem Orderly.exists_link {layout : Layout} (orderly : layout.Orderly) {position : Position}
    (inside : Program.sharedBody.index < layout.bodies.size)
    (anchored : ∀ anchor, position = .after anchor ∨ position = .before anchor →
      ∃ body, layout.Lists body anchor) (statement : Statement) :
    ∃ linked, position.link layout.statements.next (layout.addStatement statement).2 =
      .ok linked := by
  have added := orderly.addStatement statement
  have unplaced := Arena.get?_push_next layout.statements { statement }
  have known := Arena.lt_size_of_get? unplaced
  have free : ¬(layout.addStatement statement).2.arrangement.Listed layout.statements.next :=
    (added.not_listed_iff known).mpr (bodyOf_eq_ok_iff.mpr ⟨statement, unplaced⟩)
  have accepted : ∀ anchor, position = .after anchor ∨ position = .before anchor →
      anchor.index < (layout.addStatement statement).2.statements.size ∧
        ¬((layout.addStatement statement).2.arrangement.Listed layout.statements.next ∨
          ¬(layout.addStatement statement).2.arrangement.Listed anchor) := by
    intro anchor isAnchor
    obtain ⟨body, lists⟩ := anchored anchor isAnchor
    have lists : (layout.addStatement statement).2.Lists body anchor := lists
    exact ⟨added.lt_size_of_lists lists, not_or.mpr ⟨free, not_not.mpr (listed_iff.mpr ⟨_, lists⟩)⟩⟩
  cases position with
  | shared => exact (added.placeSynthesized inside known).exists_of_not free
  | after anchor =>
      obtain ⟨anchorKnown, notRefused⟩ := accepted anchor (.inl rfl)
      exact (added.insertAfter anchorKnown known).exists_of_not notRefused
  | before anchor =>
      obtain ⟨anchorKnown, notRefused⟩ := accepted anchor (.inr rfl)
      exact (added.insertBefore anchorKnown known).exists_of_not notRefused

end Layout

namespace Program

variable {program : Program}

theorem lists_of_linkedDeclaration? (orderly : program.layout.Orderly) {element : SymbolRef}
    {declaration : StatementRef}
    (linked : program.linkedDeclaration? element = .ok (some declaration)) :
    ∃ body, program.layout.Lists body declaration := by
  simp only [linkedDeclaration?, Except.bind_eq_ok_iff] at linked
  obtain ⟨symbol, -, linked⟩ := linked
  split at linked
  · cases linked
  · obtain ⟨holder, held, answered⟩ := Except.bind_eq_ok_iff.mp linked
    cases holder with
    | none => cases answered
    | some body =>
        cases answered
        exact ⟨body, (orderly.held _ _).mp held⟩

namespace Ranged

variable (ranged : program.Ranged)
include ranged

theorem anchored {placement : Placement} {position : Position}
    (hasAnchor : placement.HasAnchor program) (located : program.Located placement position)
    {anchor : StatementRef} (isAnchor : position = .after anchor ∨ position = .before anchor) :
    ∃ body, program.layout.Lists body anchor := by
  cases located with
  | shared => simp at isAnchor
  | before =>
      rcases isAnchor with same | same
      · cases same
      · cases same
        exact hasAnchor
  | afterElement linked =>
      rcases isAnchor with same | same
      · cases same
        exact lists_of_linkedDeclaration? ranged.orderly linked
      · cases same

theorem exists_introduce {scope : ScopeRef} {name : NameRef} {fresh : TypeRef}
    {placement : Placement} {position : Position} (has : program.Has fresh)
    (hasScope : program.Has scope) (hasAnchor : placement.HasAnchor program)
    (located : program.Located placement position) :
    ∃ after, Edit.introduce scope name fresh position program = .ok () after := by
  obtain ⟨node, stored⟩ := Arena.exists_get?_of_lt_size has
  obtain ⟨content, scopeStored⟩ := Arena.exists_get?_of_lt_size hasScope
  exact Edit.exists_introduce stored scopeStored
    (ranged.orderly.exists_link (ranged.roots sharedBody List.mem_cons_self)
      (fun _ isAnchor => ranged.anchored hasAnchor located isAnchor) _)

omit ranged in
theorem hasAnchor_home {ref : SymbolRef} {home : Home}
    (beside : program.homeBeside ref = .ok home) :
    home.placement.HasAnchor program := by
  cases home with
  | shared => trivial
  | beside element scope =>
      obtain ⟨rfl, -, symbol, stored, -⟩ := homeBeside_beside beside
      exact Arena.lt_size_of_get? stored

end Ranged

end Program

theorem Edit.exists_changeForm {program : Program} {type : TypeRef} (has : program.Has type)
    (change : TypeForm → TypeForm) :
    ∃ types, program.types.modify type (fun node => { node with form := change node.form }) =
        .ok types ∧
      Edit.changeForm type change program = .ok () { program with types } := by
  obtain ⟨types, modified⟩ := Arena.modify_isOk_iff.mpr has
  exact ⟨types, modified, Edit.changeForm_eq_ok_iff.mpr ⟨types, modified, rfl⟩⟩

/-! ## Canonicalizing one type -/

namespace Canon

section

variable {τ α β : Type} {before : Session τ}

theorem faultless_ask {question : Program → Except Fault α} {rest : α → Canon τ β} {answer : α}
    (answered : question before.program = .ok answer) (later : Faultless (rest answer) before) :
    Faultless (ask question >>= rest) before :=
  faultless_of_ok (ask_of_ok answered) later

theorem faultless_perform {edit : Edit α} {rest : α → Canon τ β} {answer : α} {program : Program}
    (ran : edit before.program = .ok answer program)
    (later : Faultless (rest answer) { before with program }) :
    Faultless (perform edit >>= rest) before :=
  faultless_of_ok (perform_eq_ok_iff.mpr ⟨program, ran, rfl⟩) later

theorem faultless_fail (cause : Cause) : Faultless (fail cause : Canon τ α) before := by
  intro fault after ran
  cases ran

theorem faultless_inScope {scope : ScopeRef} {action : Canon τ α}
    (faultless : Faultless action { before with scope }) :
    Faultless (inScope scope action) before := by
  intro fault after ran
  obtain ⟨inner, ran, -⟩ := inScope_eq_error_iff.mp ran
  exact faultless fault inner ran

variable (ranged : before.program.Ranged)
include ranged

theorem faultless_locate {fresh : TypeRef} (has : before.program.Has fresh) {placement : Placement}
    (hasAnchor : placement.HasAnchor before.program) :
    Faultless (locate fresh placement : Canon τ Position) before := by
  cases placement with
  | shared | before => exact faultless_pure _
  | afterElement element =>
      obtain ⟨declaration, linked⟩ := ranged.exists_linkedDeclaration? hasAnchor
      refine faultless_ask linked ?_
      cases declaration with
      | some declaration => exact faultless_pure _
      | none =>
          obtain ⟨shape, shaped⟩ := Program.exists_shape has
          obtain ⟨text, named⟩ := ranged.exists_symbolName hasAnchor
          exact faultless_ask shaped (faultless_ask named (faultless_fail _))

theorem faultless_settle {fresh : TypeRef} (has : before.program.Has fresh)
    (hasScope : before.program.Has before.scope) {placement : Placement}
    (hasAnchor : placement.HasAnchor before.program) (text : String) :
    Faultless (settle text fresh placement : Canon τ Settled) before := by
  refine faultless_of_ok rfl (faultless_of_ok rfl ?_)
  have interned : Program.Ranged
      { before.program with names := (before.program.names.intern text).2 } :=
    ⟨ranged.toInRange.intern text, ranged.orderly⟩
  obtain ⟨found, looked, inside⟩ :=
    interned.exists_lookup (hasScope.mono (Program.outsizes_intern before.program text)) _
  refine faultless_ask looked ?_
  cases found with
  | some existing =>
      obtain ⟨symbol, stored, -⟩ := interned.exists_symbol (inside existing rfl)
      exact faultless_of_ok rfl (faultless_ask stored (faultless_pure _))
  | none =>
      refine Faultless.bind ?_ fun position middle ran => ?_
      · exact faultless_locate interned (by exact has) (by exact hasAnchor)
      obtain ⟨rfl, located⟩ := located_of_locate ran
      obtain ⟨after, introduced⟩ := interned.exists_introduce has hasScope hasAnchor located
      refine faultless_perform introduced ?_
      obtain ⟨node, stored⟩ := Arena.exists_get?_of_lt_size has
      have declared := (Program.introduces_of_introduce introduced).type_same stored
      exact faultless_ask (Program.shape_eq_ok_iff.mpr ⟨_, declared, rfl⟩)
        (faultless_of_ok rfl (faultless_pure _))

theorem faultless_settleShared {fresh : TypeRef} (has : before.program.Has fresh)
    (key : CanonicalKey) : Faultless (settleShared key fresh : Canon τ TypeRef) before := by
  refine faultless_inScope (Faultless.bind ?_ fun _ _ _ => faultless_pure _)
  exact faultless_settle (by exact ranged) (by exact has) (by exact ranged.shared)
    (by exact trivial) _

theorem faultless_expectAnonymous {type : TypeRef} (has : before.program.Has type) :
    Faultless (expectAnonymous type : Canon τ Unit) before := by
  obtain ⟨name, named⟩ := ranged.exists_typeName? has
  refine faultless_ask named ?_
  cases name with
  | none => exact faultless_pure _
  | some text =>
      obtain ⟨shape, shaped⟩ := Program.exists_shape has
      exact faultless_ask shaped (faultless_fail _)

theorem faultless_domain {type : TypeRef} (has : before.program.Has type) :
    Faultless (domain type : Canon τ TypeRef) before := by
  obtain ⟨form, found⟩ := Program.exists_form has
  refine faultless_ask found ?_
  cases form with
  | domain rank parent companion =>
      refine (faultless_expectAnonymous ranged has).bind fun _ middle ran => ?_
      obtain ⟨rfl, -⟩ := expectAnonymous_eq_ok ran
      cases parent with
      | some parent => exact faultless_fail _
      | none =>
          obtain ⟨symbol, stored⟩ := Program.form_eq_ok_iff.mp found
          obtain ⟨types, ranked, changed⟩ :=
            Edit.exists_changeForm has (·.withRank (effectiveRank rank))
          have explicit := ranged.toInRange.changeForm stored ranked (ranged.of_form found).1 rfl
          refine faultless_perform changed ?_
          exact faultless_settleShared (by exact ⟨explicit, ranged.orderly⟩)
            (by exact has.mono (Program.outsizes_of_types ranked)) _
  | _ => exact faultless_fail _

theorem faultless_componentNames {components : List TypeRef}
    (inside : ∀ component ∈ components, before.program.Has component) (position : Nat) :
    Faultless (componentNames position components : Canon τ (List String)) before := by
  induction components generalizing position with
  | nil => exact faultless_pure _
  | cons component rest induction =>
      rw [List.forall_mem_cons] at inside
      obtain ⟨name, named⟩ := ranged.exists_typeName? inside.1
      refine faultless_ask named ?_
      cases name with
      | none => exact faultless_fail _
      | some text => exact (induction inside.2 _).bind fun _ _ _ => faultless_pure _

theorem faultless_tuple {type : TypeRef} (has : before.program.Has type) :
    Faultless (tuple type : Canon τ TypeRef) before := by
  obtain ⟨form, found⟩ := Program.exists_form has
  refine faultless_ask found ?_
  cases form with
  | tuple components =>
      refine (faultless_expectAnonymous ranged has).bind fun _ middle ran => ?_
      obtain ⟨rfl, -⟩ := expectAnonymous_eq_ok ran
      have names := faultless_componentNames ranged (ranged.of_form found).1 0
      refine names.bind fun _ middle ran => ?_
      obtain ⟨rfl, -⟩ := componentNames_eq_ok ran
      exact faultless_settleShared ranged has _
  | _ => exact faultless_fail _

theorem faultless_indexKeyOfVariable {ref : SymbolRef} (has : before.program.Has ref)
    {scope : ScopeRef} (hasScope : before.program.Has scope) :
    Faultless (indexKeyOfVariable ref scope : Canon τ CanonicalKey) before := by
  obtain ⟨symbol, stored, hasName, -⟩ := ranged.exists_symbol has
  obtain ⟨text, named⟩ := Arena.exists_get?_of_lt_size hasName
  have read := NameTable.text_eq_ok_iff.mpr named
  obtain ⟨found, looked, inside⟩ := ranged.exists_lookup hasScope symbol.name
  refine faultless_ask stored (faultless_ask looked ?_)
  cases found with
  | none => exact faultless_ask read (faultless_fail _)
  | some found =>
      obtain ⟨denoted, denotedStored, -, hasType, -⟩ := ranged.exists_symbol (inside found rfl)
      obtain ⟨shape, shaped⟩ := Program.exists_shape hasType
      refine faultless_ask denotedStored (faultless_ask shaped ?_)
      cases shape with
      | domain =>
          obtain ⟨name, isName⟩ := ranged.exists_typeName? hasType
          refine faultless_ask isName ?_
          cases name with
          | none => exact faultless_fail _
          | some text => exact faultless_pure _
      | _ => exact faultless_ask read (faultless_fail _)

theorem faultless_indexKey {subject : ExpressionRef} (has : before.program.Has subject)
    {scope : ScopeRef} (hasScope : before.program.Has scope) :
    Faultless (indexKey subject scope : Canon τ CanonicalKey) before := by
  obtain ⟨expression, denotes, inside⟩ := ranged.exists_expression has
  refine faultless_ask denotes ?_
  cases expression with
  | literal => exact faultless_pure _
  | reference => exact faultless_indexKeyOfVariable ranged inside hasScope
  | iteration => exact faultless_fail _

theorem faultless_index {type : TypeRef} (has : before.program.Has type) {scope : ScopeRef}
    (hasScope : before.program.Has scope) :
    Faultless (index type scope : Canon τ TypeRef) before := by
  obtain ⟨form, found⟩ := Program.exists_form has
  refine faultless_ask found ?_
  cases form with
  | index subject =>
      refine (faultless_expectAnonymous ranged has).bind fun _ middle ran => ?_
      obtain ⟨rfl, -⟩ := expectAnonymous_eq_ok ran
      have hasSubject := (ranged.of_form found).2 subject (List.mem_singleton_self subject)
      refine (faultless_indexKey ranged hasSubject hasScope).bind fun key middle ran => ?_
      obtain ⟨rfl, -⟩ := indexKey_eq_ok ran
      exact faultless_settleShared ranged has key
  | _ => exact faultless_fail _

theorem faultless_indexOrSelf {type : TypeRef} (has : before.program.Has type) {scope : ScopeRef}
    (hasScope : before.program.Has scope) :
    Faultless (indexOrSelf type scope : Canon τ TypeRef) before := by
  obtain ⟨shape, shaped⟩ := Program.exists_shape has
  refine faultless_ask shaped ?_
  cases shape with
  | index => exact faultless_index ranged has hasScope
  | _ => exact faultless_pure _

theorem faultless_rangeDomain {range : ExpressionRef} (has : before.program.Has range) :
    Faultless (rangeDomain range : Canon τ (TypeRef × Nat)) before := by
  obtain ⟨expression, denotes, inside⟩ := ranged.exists_expression has
  refine faultless_ask denotes ?_
  split
  · rename_i single
    obtain ⟨inner, innerDenotes, inside⟩ :=
      ranged.exists_expression (inside single (List.mem_singleton_self single))
    refine faultless_ask innerDenotes ?_
    cases inner with
    | reference ref =>
        obtain ⟨symbol, stored, -, hasType, -⟩ := ranged.exists_symbol inside
        obtain ⟨form, found⟩ := Program.exists_form hasType
        refine faultless_ask stored (faultless_ask found ?_)
        cases form with
        | domain => exact faultless_pure _
        | _ =>
            obtain ⟨text, named⟩ := ranged.exists_symbolName inside
            exact faultless_ask named (faultless_fail _)
    | _ => exact faultless_fail _
  · exact faultless_fail _
  · exact faultless_fail _

end

/-! ## Canonicalizing composites -/

variable {before : Session Unit} {type : TypeRef}

theorem faultless_elementSymbol {τ : Type} {before : Session τ} (ranged : before.program.Ranged)
    {element : TypeRef} (has : before.program.Has element) (shape : Shape) :
    Faultless (elementSymbol shape element : Canon τ SymbolRef) before := by
  obtain ⟨symbol, found, -⟩ := ranged.exists_typeSymbol? has
  refine faultless_ask found ?_
  cases symbol with
  | some symbol => exact faultless_pure _
  | none =>
      obtain ⟨shape, shaped⟩ := Program.exists_shape has
      exact faultless_ask shaped (faultless_fail _)

theorem faultless_settleElement (ranged : before.program.Ranged)
    {action : TypeRef → Canon Unit TypeRef} (ruled : Ruled action) {element : TypeRef}
    {form : TypeForm} (stored : before.program.types.get? type = some { form, symbol := none })
    (found : form.element? = some element) (faultless : Faultless (action element) before)
    (shape : Shape) : Faultless (settleElement shape action type element) before := by
  have has : before.program.Has type := Arena.lt_size_of_get? stored
  have hasElement :=
    (ranged.types type _ stored).1 element (TypeForm.mem_children_of_element? found)
  refine faultless.bind fun canonical middle ran => ?_
  obtain ⟨-, canonicalizes⟩ := ruled _ _ _ _ ran
  have steps := canonicalizes.steps
  have reached := ranged.steps steps
  have hasCanonical : middle.program.Has canonical := by
    rcases canonicalizes.self_or_bindsKey with rfl | ⟨key, binds⟩
    · exact hasElement.mono steps.retains.outsizes
    · exact reached.toInRange.has_of_bindsKey binds
  obtain ⟨types, rewritten, changed⟩ :=
    Edit.exists_changeForm (has.mono steps.retains.outsizes) (·.withElement canonical)
  have taken := reached.step (canonicalizes.takes_in stored found rewritten).1
  refine faultless_perform changed (Faultless.bind ?_ fun ref last ran => ?_)
  · exact faultless_elementSymbol (by exact taken)
      (by exact hasCanonical.mono (Program.outsizes_of_types rewritten)) shape
  · obtain ⟨rfl, declared⟩ := elementSymbol_eq_ok ran
    obtain ⟨symbol, declaredAgain, inside⟩ := taken.exists_typeSymbol?
      (hasCanonical.mono (Program.outsizes_of_types rewritten))
    cases Except.ok.inj (declared.symm.trans declaredAgain)
    obtain ⟨home, beside⟩ := taken.exists_homeBeside (inside ref rfl)
    exact faultless_ask beside (faultless_pure _)

theorem faultless_materialize (type : TypeRef) : Faultless (materialize .silent type) before := by
  intro fault after ran
  cases ran

theorem ranged_of_settleElement (ranged : before.program.Ranged)
    {action : TypeRef → Canon Unit TypeRef} (ruled : Ruled action) {element : TypeRef}
    {form : TypeForm} (stored : before.program.types.get? type = some { form, symbol := none })
    (found : form.element? = some element) {shape : Shape} {ref : SymbolRef} {home : Home}
    {after : Session Unit}
    (ran : settleElement shape action type element before = .ok (ref, home) after) :
    after.program.Ranged ∧ after.program.Outsizes before.program ∧ after.program.Has ref ∧
      after.program.Has home.scope ∧ home.placement.HasAnchor after.program := by
  have steps := settleElement_steps ruled stored found ran
  have reached := ranged.steps steps
  obtain ⟨-, inner, middle, types, -, -, same, named, beside⟩ := settleElement_eq_ok ruled ran
  rw [same] at reached ⊢
  obtain ⟨form, declared⟩ := Program.typeSymbol?_eq_ok_iff.mp named
  exact ⟨reached, same ▸ steps.retains.outsizes, (reached.types inner _ declared).2.2 ref rfl,
    reached.has_scope_of_homeBeside beside, Program.Ranged.hasAnchor_home beside⟩

theorem has_of_settle {τ : Type} {before after : Session τ} {text : String} {fresh other : TypeRef}
    {placement : Placement} {settled : Settled} (has : before.program.Has other)
    (ran : settle text fresh placement before = .ok settled after) : after.program.Has other := by
  rcases (settle_eq_ok ran).2 with ⟨_, _, _, _, _, same⟩ | ⟨_, _, _, _, _, introduces, _⟩
  · rw [same]
    exact has
  · have size := Arena.size_of_modify introduces.types
    exact Nat.lt_of_lt_of_eq has size.symm

theorem faultless_arrayWith (ranged : before.program.Ranged)
    {action : TypeRef → Canon Unit TypeRef} (ruled : Ruled action)
    (has : before.program.Has type)
    (faultless : ∀ form element,
      before.program.types.get? type = some { form, symbol := none } →
      form.element? = some element → Faultless (action element) before) :
    Faultless (arrayWith action type) before := by
  obtain ⟨form, found⟩ := Program.exists_form has
  refine faultless_ask found ?_
  cases form with
  | array element range recorded =>
      refine (faultless_expectAnonymous ranged has).bind fun _ middle ran => ?_
      obtain ⟨rfl, anonymous⟩ := expectAnonymous_eq_ok ran
      obtain ⟨symbol, stored⟩ := Program.form_eq_ok_iff.mp found
      cases anonymous _ symbol stored
      refine (faultless_settleElement ranged ruled stored rfl (faultless _ element stored rfl)
        .array).bind fun answer after ran => ?_
      obtain ⟨ref, home⟩ := answer
      obtain ⟨reached, outsizes, hasRef, hasScope, hasAnchor⟩ :=
        ranged_of_settleElement ranged ruled stored rfl ran
      have hasRange := (ranged.of_form found).2 range (List.mem_singleton_self range)
      refine faultless_inScope (Faultless.bind ?_ fun answer inner ran => ?_)
      · exact faultless_rangeDomain (by exact reached) (by exact hasRange.mono outsizes)
      obtain ⟨domain, rank⟩ := answer
      obtain ⟨rfl, -⟩ := rangeDomain_eq_ok ran
      obtain ⟨text, named⟩ := reached.exists_symbolName hasRef
      refine faultless_ask named (Faultless.bind ?_ fun settled inner ran => ?_)
      · exact faultless_settle (by exact reached) (by exact has.mono outsizes)
          (by exact hasScope) (by exact hasAnchor) _
      cases settled with
      | reused existing => exact faultless_pure _
      | created created =>
          cases (settle_eq_created ran).1
          have hasStill := has_of_settle (by exact has.mono outsizes) ran
          obtain ⟨types, -, changed⟩ := Edit.exists_changeForm hasStill (·.withDomain domain)
          exact faultless_perform changed (faultless_pure _)
  | _ => exact faultless_fail _

theorem faultless_sequenceWith (ranged : before.program.Ranged)
    {action : TypeRef → Canon Unit TypeRef} (ruled : Ruled action)
    (has : before.program.Has type)
    (faultless : ∀ form element,
      before.program.types.get? type = some { form, symbol := none } →
      form.element? = some element → Faultless (action element) before) :
    Faultless (sequenceWith .silent action type) before := by
  obtain ⟨form, found⟩ := Program.exists_form has
  refine faultless_ask found ?_
  cases form with
  | sequence element =>
      refine (faultless_expectAnonymous ranged has).bind fun _ middle ran => ?_
      obtain ⟨rfl, anonymous⟩ := expectAnonymous_eq_ok ran
      obtain ⟨symbol, stored⟩ := Program.form_eq_ok_iff.mp found
      cases anonymous _ symbol stored
      refine (faultless_settleElement ranged ruled stored rfl (faultless _ element stored rfl)
        .sequence).bind fun answer after ran => ?_
      obtain ⟨ref, home⟩ := answer
      obtain ⟨reached, outsizes, hasRef, hasScope, hasAnchor⟩ :=
        ranged_of_settleElement ranged ruled stored rfl ran
      refine (faultless_inScope ?_).bind fun settled inner _ => ?_
      · obtain ⟨text, named⟩ := reached.exists_symbolName hasRef
        refine faultless_ask named ?_
        exact faultless_settle (by exact reached) (by exact has.mono outsizes)
          (by exact hasScope) (by exact hasAnchor) _
      cases settled with
      | reused existing => exact faultless_pure _
      | created created => exact (faultless_materialize created).bind fun _ _ _ => faultless_pure _
  | _ => exact faultless_fail _

theorem faultless_elementWith (ranged : before.program.Ranged)
    (hasScope : before.program.Has before.scope) {composite : TypeRef → Canon Unit TypeRef}
    (has : before.program.Has type)
    (faultless : ¬before.program.Named type → Faultless (composite type) before) :
    Faultless (elementWith composite type) before := by
  obtain ⟨symbol, found, -⟩ := ranged.exists_typeSymbol? has
  refine faultless_ask found ?_
  cases symbol with
  | some ref => exact faultless_pure _
  | none =>
      obtain ⟨shape, shaped⟩ := Program.exists_shape has
      refine faultless_ask shaped ?_
      obtain ⟨form, anonymous⟩ := Program.typeSymbol?_eq_ok_iff.mp found
      have composes := faultless fun ⟨_, _, declared⟩ =>
        nomatch (Program.node_unique anonymous declared).2
      cases shape with
      | index => exact faultless_of_ok rfl (faultless_index ranged has hasScope)
      | _ => exact composes

section

variable {source : Program} (ranged : before.program.Ranged)
  (hasScope : before.program.Has before.scope) (extension : source.Extends before.program)
include ranged hasScope extension

/-- An anonymous element of an anonymous type is what the type was written over, so there is less
below it. -/
theorem faultless_compositeWithin (acyclic : source.Acyclic) {depth : Nat}
    (has : before.program.Has type) (deep : source.extent type < depth) :
    Faultless (compositeWithin .silent depth type) before := by
  induction depth generalizing type with
  | zero => exact absurd deep (Nat.not_lt_zero _)
  | succ depth induction =>
      have ruled : Ruled (elementWith (compositeWithin .silent depth)) :=
        ruled_elementWith fun _ _ _ _ ran => compositeWithin_eq_ok ran
      have elements : ∀ form element,
          before.program.types.get? type = some { form, symbol := none } →
          form.element? = some element →
          Faultless (elementWith (compositeWithin .silent depth) element) before := by
        intro form element stored found
        have hasElement :=
          (ranged.types type _ stored).1 element (TypeForm.mem_children_of_element? found)
        refine faultless_elementWith ranged hasScope hasElement fun anonymous => ?_
        obtain ⟨old, oldStored, isElement⟩ :=
          (extension.elements type form element stored found).resolve_left anonymous
        obtain ⟨node, elementStored⟩ := Arena.exists_get?_of_lt_size hasElement
        obtain ⟨before, inSource⟩ := extension.stored_before elementStored
        have less := acyclic.extent_lt inSource
          ⟨_, oldStored, TypeForm.mem_children_of_element? isElement⟩
        exact induction hasElement (by omega)
      obtain ⟨shape, shaped⟩ := Program.exists_shape has
      refine faultless_ask shaped ?_
      cases shape with
      | array => exact faultless_arrayWith ranged ruled has elements
      | sequence => exact faultless_sequenceWith ranged ruled has elements
      | domain => exact faultless_domain ranged has
      | tuple => exact faultless_tuple ranged has
      | _ => exact faultless_pure _

theorem faultless_declaredType (acyclic : source.Acyclic) (has : before.program.Has type)
    {scope : ScopeRef} (here : before.scope = scope) :
    Faultless (declaredType .silent type scope) before := by
  subst here
  have deep := source.extent_le type
  rw [← extension.size] at deep
  refine Faultless.bind ?_ fun canonical middle ran => ?_
  · exact faultless_of_ok rfl
      (faultless_compositeWithin ranged hasScope extension acyclic has (Nat.lt_succ_of_le deep))
  · simp only [composite, nesting, bind_eq_ok_iff, get_eq_ok_iff, pure_eq_ok_iff] at ran
    obtain ⟨_, _, ⟨_, _, ⟨rfl, rfl⟩, rfl, rfl⟩, composing⟩ := ran
    rcases (compositeWithin_eq_ok composing).2 with
      ⟨_, _, -, -, rfl, same⟩ | ⟨-, canonicalizes⟩
    · rw [← same] at ranged has hasScope
      exact faultless_indexOrSelf ranged has hasScope
    · have steps := canonicalizes.steps
      have reached := ranged.steps steps
      have hasCanonical : middle.program.Has canonical := by
        rcases canonicalizes.self_or_bindsKey with rfl | ⟨key, binds⟩
        · exact has.mono steps.retains.outsizes
        · exact reached.toInRange.has_of_bindsKey binds
      exact faultless_indexOrSelf reached hasCanonical (hasScope.mono steps.retains.outsizes)

end

/-! ## Settling companions -/

theorem faultless_settleCompanion {τ : Type} {before : Session τ} (ranged : before.program.Ranged)
    {type companion : TypeRef} (has : before.program.Has type)
    (hasCompanion : before.program.Has companion)
    (listed : ∃ body, before.program.layout.Lists body before.statement) :
    Faultless (settleCompanion type companion : Canon τ Unit) before := by
  obtain ⟨shape, shaped⟩ := Program.exists_shape hasCompanion
  obtain ⟨symbol, found, -⟩ := ranged.exists_typeSymbol? hasCompanion
  refine faultless_ask shaped (faultless_ask found ?_)
  split
  · exact faultless_pure _
  · obtain ⟨name, named⟩ := ranged.exists_typeName? has
    refine faultless_ask named ?_
    cases name with
    | none => exact faultless_fail _
    | some text =>
        refine Faultless.bind ?_ fun settled after ran => ?_
        · refine faultless_inScope (faultless_of_ok (get_eq_ok_iff.mpr ⟨rfl, rfl⟩) ?_)
          exact faultless_settle (by exact ranged) (by exact hasCompanion) (by exact ranged.shared)
            (by exact listed) _
        · obtain ⟨inner, sharing, rfl⟩ := inScope_eq_ok_iff.mp ran
          obtain ⟨_, _, here, settling⟩ := bind_eq_ok_iff.mp sharing
          obtain ⟨rfl, rfl⟩ := get_eq_ok_iff.mp here
          have hasStill : inner.program.Has type := has_of_settle (by exact has) settling
          obtain ⟨types, -, changed⟩ :=
            Edit.exists_changeForm hasStill (·.withCompanion settled.type)
          exact faultless_of_eq_ok (perform_eq_ok_iff.mpr ⟨_, changed, rfl⟩)
  · exact faultless_fail _

end Canon

/-! ## Reactions of the two walks -/

section

variable {ε σ α β : Type} {before : Walker σ}

theorem Walk.faultless_ask {question : Program → Except Fault α} {rest : α → Walk ε σ β}
    {answer : α} (answered : question before.program = .ok answer)
    (later : Faultless (rest answer) before) : Faultless (Walk.ask question >>= rest) before :=
  faultless_of_ok (Walk.ask_of_ok answered) later

theorem Walk.faultless_focus {π : Type} {part : σ → π} {replace : σ → π → σ} {walk : Walk ε π α}
    (faultless : Faultless walk ⟨before.program, part before.own⟩) :
    Faultless (Walk.focus part replace walk) before := by
  intro fault after ran
  obtain ⟨inner, ran, -⟩ := Walk.focus_eq_error_iff.mp ran
  exact faultless fault inner ran

end

theorem Canon.faultless_within {τ α : Type} {statement : StatementRef} {scope : ScopeRef}
    {action : Canon τ α} {before : Walker (Progress τ)}
    (faultless : Faultless action { before with scope, statement }) :
    Faultless (Canon.within statement scope action) before := by
  intro fault after ran
  obtain ⟨inner, ran, -⟩ := Canon.within_eq_error_iff.mp ran
  exact faultless fault inner ran

theorem faultless_enterStatement {source : Program} (acyclic : source.Acyclic)
    {before : Walker (Progress Unit)} (ranged : before.program.Ranged)
    (extension : source.Extends before.program) {ref : StatementRef}
    (has : before.program.Has ref) :
    Faultless ((variableTypes .silent).enterStatement ref) before := by
  obtain ⟨statement, found⟩ := Program.exists_statement has
  refine Walk.faultless_ask found ?_
  cases declares : statement.kind with
  | varDeclaration var =>
      have declared : statement.declared? = some var := by simp [Statement.declared?, declares]
      obtain ⟨symbol, stored, -, hasType, hasScope, -⟩ :=
        ranged.exists_symbol (ranged.has_declared found declared)
      refine Walk.faultless_ask stored (Faultless.bind ?_ fun canonical after ran => ?_)
      · exact Canon.faultless_within (Canon.faultless_declaredType (by exact ranged)
          (by exact hasScope) (by exact extension) acyclic (by exact hasType) (by exact rfl))
      · obtain ⟨inner, adopting, rfl⟩ := Canon.within_eq_ok_iff.mp ran
        have steps := (adopts_of_declaredType (by rfl) adopting).steps
        obtain ⟨_, kept⟩ := steps.continues.symbols var symbol (Program.symbol_eq_ok_iff.mp stored)
        obtain ⟨symbols, changed⟩ := Arena.modify_isOk_iff.mpr (Arena.lt_size_of_get? kept)
        have retyped : Edit.setSymbolType var canonical inner.program =
            .ok () { inner.program with symbols } :=
          Edit.changeSymbol_eq_ok_iff.mpr ⟨symbols, changed, rfl⟩
        exact faultless_of_eq_ok (Walk.perform_eq_ok_iff.mpr ⟨_, retyped, rfl⟩)
  | _ => exact faultless_pure _

theorem faultless_visitType {before : Walker CompanionWalk} (ranged : before.program.Ranged)
    {type : TypeRef} (has : before.program.Has type)
    (listed : ∀ statement scope, before.own.current = some (statement, scope) →
      ∃ body, before.program.layout.Lists body statement) :
    Faultless (indexCompanions.visitType type) before := by
  refine faultless_of_ok rfl ?_
  split
  · exact faultless_pure _
  · rename_i statement scope current
    obtain ⟨form, found⟩ := Program.exists_form has
    refine Walk.faultless_ask found ?_
    split
    · rename_i rank parent companion
      exact Walk.faultless_focus (Canon.faultless_within (Canon.faultless_settleCompanion
        (by exact ranged) (by exact has)
        (by exact (ranged.of_form found).1 companion (by simp [TypeForm.children]))
        (by exact listed statement scope current)))
    · exact faultless_pure _

end StructuralTypes
