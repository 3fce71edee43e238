import StructuralTypes.Proofs.Atomicity
import StructuralTypes.Proofs.Descent

/-! The checks of one level. An array or a sequence is checked after its element has settled and
stands in it, so a level that is refused leaves what its element came to, and the element in its
slot. How far a canonicalization may go down has no say in how it ends, unless it is cut off. -/

namespace StructuralTypes

/-! ## More depth -/

/-- The second computation does what the first one does, unless that comes to the limit. -/
def Deepens {ε σ α : Type} (first second : EStateM (Halt ε) σ α) : Prop :=
  ∀ before, Shallow first before → second before = first before

section

variable {ε σ α β : Type}

theorem Deepens.refl (computation : EStateM (Halt ε) σ α) : Deepens computation computation :=
  fun _ _ => rfl

theorem Deepens.bind {first second : EStateM (Halt ε) σ α} {rest later : α → EStateM (Halt ε) σ β}
    (deepens : Deepens first second) (deepensLater : ∀ value, Deepens (rest value) (later value)) :
    Deepens (first >>= rest) (second >>= later) := by
  intro before shallow
  rcases shallow_bind_iff.mp shallow with ⟨firstShallow, restShallow⟩
  have same := deepens before firstShallow
  cases ran : first before with
  | ok value middle =>
      rw [bind_of_ok ran, bind_of_ok (same.trans ran)]
      exact deepensLater value middle (restShallow value middle ran)
  | error halt middle => rw [bind_of_error ran, bind_of_error (same.trans ran)]

theorem Deepens.of_bind {first : EStateM (Halt ε) σ α} {rest later : α → EStateM (Halt ε) σ β}
    (deepens : ∀ value, Deepens (rest value) (later value)) :
    Deepens (first >>= rest) (first >>= later) :=
  (Deepens.refl first).bind deepens

end

namespace Canon

variable {τ : Type} {hook : SequenceHook τ} {first second : TypeRef → Canon τ TypeRef}
  (deepens : ∀ type, Deepens (first type) (second type))
include deepens

theorem deepens_settleElement (shape : Shape) (type element : TypeRef) :
    Deepens (settleElement shape first type element) (settleElement shape second type element) :=
  (deepens element).bind fun _ => .refl _

theorem deepens_arrayWith (type : TypeRef) :
    Deepens (arrayWith first type) (arrayWith second type) := by
  refine .of_bind fun form => ?_
  cases form with
  | array element range recorded =>
      exact .of_bind fun _ =>
        (deepens_settleElement deepens .array type element).bind fun _ => .refl _
  | _ => exact .refl _

theorem deepens_sequenceWith (type : TypeRef) :
    Deepens (sequenceWith hook first type) (sequenceWith hook second type) := by
  refine .of_bind fun form => ?_
  cases form with
  | sequence element =>
      exact .of_bind fun _ =>
        (deepens_settleElement deepens .sequence type element).bind fun _ => .refl _
  | _ => exact .refl _

theorem deepens_elementWith (element : TypeRef) :
    Deepens (elementWith first element) (elementWith second element) := by
  refine .of_bind fun symbol => ?_
  cases symbol with
  | some symbol => exact .refl _
  | none =>
      refine .of_bind fun shape => ?_
      cases shape with
      | index => exact .refl _
      | _ => exact deepens element

omit deepens

theorem deepens_compositeWithin {depth more : Nat} (deeper : depth ≤ more) (type : TypeRef) :
    Deepens (compositeWithin hook depth type) (compositeWithin hook more type) := by
  induction depth generalizing more type with
  | zero =>
      intro before shallow
      exact absurd rfl (shallow before)
  | succ depth induction =>
      cases more with
      | zero => omega
      | succ more =>
          have elements := deepens_elementWith fun type =>
            induction (Nat.le_of_succ_le_succ deeper) type
          refine .of_bind fun shape => ?_
          cases shape with
          | array => exact deepens_arrayWith elements type
          | sequence => exact deepens_sequenceWith elements type
          | _ => exact .refl _

variable {before after : Session τ} {type canonical : TypeRef} {failure : Failure}

theorem elementWith_composite {depth : Nat} (inside : depth ≤ before.program.types.size + 1)
    (shallow : Shallow (elementWith (compositeWithin hook depth) type) before) :
    elementWith (composite hook) type before =
      elementWith (compositeWithin hook depth) type before := by
  rw [← deepens_elementWith (fun type => deepens_compositeWithin inside type) type before shallow]
  simp only [elementWith]
  cases found : (ask (·.typeSymbol? type) : Canon τ (Option SymbolRef)) before with
  | error halt middle => rw [bind_of_error found, bind_of_error found]
  | ok symbol middle =>
      rw [bind_of_ok found, bind_of_ok found, (ask_eq_ok_iff.mp found).2]
      cases symbol with
      | some symbol => rfl
      | none =>
          cases shaped : (ask (·.shape type) : Canon τ Shape) before with
          | error halt middle => exact (bind_of_error shaped).trans (bind_of_error shaped).symm
          | ok shape middle =>
              refine (bind_of_ok shaped).trans (Eq.trans ?_ (bind_of_ok shaped).symm)
              rw [(ask_eq_ok_iff.mp shaped).2]
              cases shape <;> rfl

end Canon

/-! ## Checks of one level -/

namespace Program

inductive RangeRefused (program : Program) (range : ExpressionRef) : Cause → Prop
  | notIteration {expression : Expression}
      (denotes : program.expressions.get? range = some expression)
      (other : ∀ domains, expression ≠ .iteration domains) :
      RangeRefused program range (.unsupported .rangeNotIteration)
  | manyDomains {domains : List ExpressionRef}
      (denotes : program.expressions.get? range = some (.iteration domains))
      (several : domains.length ≠ 1) :
      RangeRefused program range (.unsupported (.manyDomains domains.length))
  | notVariable {single : ExpressionRef} {expression : Expression}
      (denotes : program.expressions.get? range = some (.iteration [single]))
      (iterates : program.expressions.get? single = some expression)
      (other : ∀ symbol, expression ≠ .reference symbol) :
      RangeRefused program range (.unsupported .rangeNotVariable)
  | notDomain {single : ExpressionRef} {ref : SymbolRef} {symbol : Symbol} {form : TypeForm}
      {holder : Option SymbolRef} {name : String}
      (denotes : program.expressions.get? range = some (.iteration [single]))
      (iterates : program.expressions.get? single = some (.reference ref))
      (stored : program.symbols.get? ref = some symbol)
      (typed : program.types.get? symbol.type = some { form, symbol := holder })
      (other : form.shape ≠ .domain) (named : program.symbolName ref = .ok name) :
      RangeRefused program range (.unsupported (.notDomain name))

inductive LevelKeyed (program : Program) (text : String) : TypeForm → CanonicalKey → Prop
  | array {element domain : TypeRef} {range : ExpressionRef} {recorded : Option TypeRef}
      {rank : Nat}
      (ranges : program.rangeDomain? range = some domain)
      (ranked : program.rank? domain = some rank) :
      LevelKeyed program text (.array element range recorded) (.array text rank)
  | sequence {element : TypeRef} : LevelKeyed program text (.sequence element) (.sequence text)

/-- Why an array or a sequence over `canonical` is refused: that has no name, or the range is no
good, or there is nothing to put a declaration after. Only in that case is there a key. -/
inductive LevelRefused (program : Program) (form : TypeForm) (canonical : TypeRef) :
    Cause → Option CanonicalKey → Prop
  | unnamed {element : TypeForm}
      (anonymous : program.types.get? canonical = some { form := element, symbol := none }) :
      LevelRefused program form canonical
        (.unsupported (.anonymousElement form.shape element.shape)) none
  | range {range : ExpressionRef} {recorded : Option TypeRef} {element : TypeForm}
      {symbol : SymbolRef} {cause : Cause} (isArray : form = .array canonical range recorded)
      (named : program.types.get? canonical = some { form := element, symbol := some symbol })
      (refused : program.RangeRefused range cause) :
      LevelRefused program form canonical cause none
  | unanchored {element : TypeForm} {symbol : SymbolRef} {home : ScopeRef} {text : String}
      {key : CanonicalKey}
      (named : program.types.get? canonical = some { form := element, symbol := some symbol })
      (beside : program.homeBeside symbol = .ok (.beside symbol home))
      (name : program.symbolName symbol = .ok text) (keyed : program.LevelKeyed text form key)
      (free : program.Free home (program.names.intern key.name).1)
      (unlinked : program.linkedDeclaration? symbol = .ok none) :
      LevelRefused program form canonical (.unanchored form.shape text) (some key)

end Program

/-- `type` is refused by its own checks in `middle`, where its element has settled on `canonical`.
What is left is `middle` with that element in the slot of `type`, and at most one name more. -/
inductive Session.Refuses {τ : Type} (middle : Session τ) (type canonical : TypeRef) :
    Failure → Session τ → Prop
  | intro {form : TypeForm} {types : Arena .type TypeNode} {cause : Cause}
      {key : Option CanonicalKey}
      (stored : middle.program.types.get? type = some { form, symbol := none })
      (rewritten : middle.program.types.modify type
        (fun node => { node with form := node.form.withElement canonical }) = .ok types)
      (refused : { middle.program with types }.LevelRefused (form.withElement canonical) canonical
        cause key) :
      Refuses middle type canonical ⟨middle.statement, cause⟩
        { middle with
          program := { middle.program with
            types
            names := key.elim middle.program.names fun key =>
              (middle.program.names.intern key.name).2 } }

section

variable {τ : Type} {before after : Session τ} {type : TypeRef} {failure : Failure}

theorem rangeDomain_refused {range : ExpressionRef}
    (ran : Canon.rangeDomain range before = .error (.failed failure) after) :
    after = before ∧ ∃ cause, failure = ⟨before.statement, cause⟩ ∧
      before.program.RangeRefused range cause := by
  simp only [Canon.rangeDomain, bind_eq_error_iff, Canon.ask_eq_failed_iff, false_or,
    Canon.ask_eq_ok_iff, Program.expression_eq_ok_iff] at ran
  rcases ran with ⟨expression, _, ⟨denotes, rfl⟩, ran⟩
  split at ran
  · rename_i single
    simp only [bind_eq_error_iff, Canon.ask_eq_failed_iff, false_or, Canon.ask_eq_ok_iff,
      Program.expression_eq_ok_iff] at ran
    rcases ran with ⟨inner, _, ⟨iterates, rfl⟩, ran⟩
    split at ran
    · rename_i ref
      simp only [bind_eq_error_iff, Canon.ask_eq_failed_iff, false_or, Canon.ask_eq_ok_iff,
        Program.symbol_eq_ok_iff, Program.form_eq_ok_iff] at ran
      rcases ran with ⟨symbol, _, ⟨stored, rfl⟩, form, _, ⟨⟨holder, typed⟩, rfl⟩, ran⟩
      split at ran
      · simp [pure_eq_error_iff] at ran
      · rename_i other
        simp only [bind_eq_error_iff, Canon.ask_eq_failed_iff, false_or, Canon.ask_eq_ok_iff,
          Canon.unsupported, Canon.fail_eq_failed_iff] at ran
        rcases ran with ⟨name, _, ⟨named, rfl⟩, rfl, rfl⟩
        refine ⟨rfl, _, rfl, .notDomain denotes iterates stored typed ?_ named⟩
        intro isDomain
        cases form with
        | domain rank parent companion => exact other rank parent companion rfl
        | _ => cases isDomain
    · rename_i other
      rcases Canon.fail_eq_failed_iff.mp ran with ⟨rfl, rfl⟩
      exact ⟨rfl, _, rfl, .notVariable denotes iterates other⟩
  · rename_i domains several
    rcases Canon.fail_eq_failed_iff.mp ran with ⟨rfl, rfl⟩
    refine ⟨rfl, _, rfl, .manyDomains denotes fun single => ?_⟩
    rcases List.length_eq_one_iff.mp single with ⟨domain, rfl⟩
    exact several domain rfl
  · rename_i notSingle other
    rcases Canon.fail_eq_failed_iff.mp ran with ⟨rfl, rfl⟩
    exact ⟨rfl, _, rfl, .notIteration denotes other⟩

theorem settleElement_refused {action : TypeRef → Canon τ TypeRef} {shape : Shape}
    {element : TypeRef}
    (ran : Canon.settleElement shape action type element before =
      .error (.failed failure) after) :
    action element before = .error (.failed failure) after ∨
      ∃ canonical middle types form, action element before = .ok canonical middle ∧
        middle.program.types.modify type
          (fun node => { node with form := node.form.withElement canonical }) = .ok types ∧
        types.get? canonical = some { form, symbol := none } ∧
        failure = ⟨middle.statement, .unsupported (.anonymousElement shape form.shape)⟩ ∧
        after = { middle with program := { middle.program with types } } := by
  simp only [Canon.settleElement, bind_eq_error_iff, Canon.perform_eq_failed_iff, false_or,
    Canon.perform_eq_ok_iff, Edit.changeForm_eq_ok_iff, Canon.ask_eq_failed_iff,
    pure_eq_error_iff, and_false, exists_false, or_false] at ran
  rcases ran with nested |
    ⟨canonical, middle, nested, _, _, ⟨_, ⟨types, rewritten, rfl⟩, rfl⟩, naming⟩
  · exact .inl nested
  · simp only [Canon.elementSymbol, bind_eq_error_iff, Canon.ask_eq_failed_iff, false_or,
      Canon.ask_eq_ok_iff] at naming
    rcases naming with ⟨symbol, _, ⟨asked, rfl⟩, naming⟩
    cases symbol with
    | some symbol => simp [pure_eq_error_iff] at naming
    | none =>
        simp only [bind_eq_error_iff, Canon.ask_eq_failed_iff, false_or, Canon.ask_eq_ok_iff,
          Canon.unsupported, Canon.fail_eq_failed_iff] at naming
        rcases naming with ⟨shape, _, ⟨shaped, rfl⟩, rfl, rfl⟩
        rcases Program.typeSymbol?_eq_ok_iff.mp asked with ⟨form, anonymous⟩
        rcases Program.shape_eq_ok_iff.mp shaped with ⟨node, stored, rfl⟩
        cases Option.mem_unique anonymous stored
        exact .inr ⟨canonical, middle, types, form, nested, rewritten, anonymous, rfl, rfl⟩

theorem settleElement_settled {action : TypeRef → Canon τ TypeRef} {shape : Shape}
    {element : TypeRef} {symbol : SymbolRef} {home : Home}
    (ran : Canon.settleElement shape action type element before = .ok (symbol, home) after) :
    ∃ canonical middle types form, action element before = .ok canonical middle ∧
      middle.program.types.modify type
        (fun node => { node with form := node.form.withElement canonical }) = .ok types ∧
      types.get? canonical = some { form, symbol := some symbol } ∧
      { middle.program with types }.homeBeside symbol = .ok home ∧
      after = { middle with program := { middle.program with types } } := by
  simp only [Canon.settleElement, bind_eq_ok_iff, Canon.perform_eq_ok_iff,
    Edit.changeForm_eq_ok_iff, Canon.ask_eq_ok_iff, pure_eq_ok_iff, Prod.mk.injEq] at ran
  rcases ran with
    ⟨canonical, middle, nested, _, _, ⟨_, ⟨types, rewritten, rfl⟩, rfl⟩, symbol, _, naming,
      home, _, ⟨beside, rfl⟩, ⟨rfl, rfl⟩, rfl⟩
  rcases elementSymbol_eq_ok naming with ⟨rfl, named⟩
  rcases Program.typeSymbol?_eq_ok_iff.mp named with ⟨form, stored⟩
  exact ⟨canonical, middle, types, form, nested, rewritten, stored, beside, rfl⟩

theorem settle_beside_refused {text name : String} {symbol : SymbolRef} {home : Home}
    (beside : before.program.homeBeside symbol = .ok home)
    (named : before.program.symbolName symbol = .ok name)
    (ran : Canon.settle text type home.placement { before with scope := home.scope } =
      .error (.failed failure) after) :
    ∃ scope shape, home = .beside symbol scope ∧
      before.program.Free scope (before.program.names.intern text).1 ∧
      before.program.linkedDeclaration? symbol = .ok none ∧
      before.program.shape type = .ok shape ∧
      failure = ⟨before.statement, .unanchored shape name⟩ ∧
      { after with scope := before.scope } = before.interning text := by
  rcases Canon.settle_eq_unanchored ran with
    ⟨element, shape, found, isAfter, free, unlinked, shaped, isFound, rfl, rfl⟩
  cases home with
  | shared => cases isAfter
  | beside other scope =>
      cases isAfter
      rcases Program.homeBeside_beside beside with ⟨rfl, -⟩
      cases (Program.symbolName_intern text named).symm.trans isFound
      exact ⟨scope, shape, rfl, free, unlinked, shaped, rfl, rfl⟩

end

theorem expectAnonymous_of_anonymous {τ : Type} {before : Session τ} {type : TypeRef}
    {form : TypeForm} (stored : before.program.types.get? type = some { form, symbol := none }) :
    Canon.expectAnonymous type before = .ok () before := by
  have asked : (Canon.ask (·.typeName? type) : Canon τ (Option String)) before =
      .ok none before := Canon.ask_of_ok (Program.typeName?_eq_none_iff.mpr ⟨form, stored⟩)
  exact bind_of_ok asked

section

variable {before after : Session Unit} {type element : TypeRef} {failure : Failure}
  {action : TypeRef → Canon Unit TypeRef} (ruled : Ruled action)
include ruled

theorem refuses_of_settled {middle : Session Unit} {form : TypeForm} {canonical : TypeRef}
    (stored : before.program.types.get? type = some { form, symbol := none })
    (found : form.element? = some element) (settled : action element before = .ok canonical middle)
    {types : Arena .type TypeNode}
    (rewritten : middle.program.types.modify type
      (fun node => { node with form := node.form.withElement canonical }) = .ok types)
    {cause : Cause} {key : Option CanonicalKey}
    (refused : { middle.program with types }.LevelRefused (form.withElement canonical) canonical
      cause key) :
    middle.Refuses type canonical ⟨middle.statement, cause⟩
      { middle with
        program := { middle.program with
          types
          names := key.elim middle.program.names fun key =>
            (middle.program.names.intern key.name).2 } } :=
  .intro ((ruled _ _ _ _ settled).2.outer_kept stored found) rewritten refused

theorem refuses_of_settleElement {form : TypeForm}
    (stored : before.program.types.get? type = some { form, symbol := none })
    (found : form.element? = some element)
    (ran : Canon.settleElement form.shape action type element before =
      .error (.failed failure) after) :
    action element before = .error (.failed failure) after ∨
      ∃ canonical middle, action element before = .ok canonical middle ∧
        middle.Refuses type canonical failure after := by
  rcases settleElement_refused ran with
    nested | ⟨canonical, middle, types, inner, settled, rewritten, anonymous, rfl, rfl⟩
  · exact .inl nested
  · have refuses := refuses_of_settled ruled stored found settled rewritten (.unnamed anonymous)
    rw [TypeForm.shape_withElement] at refuses
    exact .inr ⟨canonical, middle, settled, refuses⟩

theorem refuses_of_settle {middle : Session Unit} {form : TypeForm} {canonical : TypeRef}
    (stored : before.program.types.get? type = some { form, symbol := none })
    (found : form.element? = some element) (settled : action element before = .ok canonical middle)
    {types : Arena .type TypeNode}
    (rewritten : middle.program.types.modify type
      (fun node => { node with form := node.form.withElement canonical }) = .ok types)
    {inner : TypeForm} {symbol : SymbolRef} {home : Home} {text : String} {key : CanonicalKey}
    (named : types.get? canonical = some { form := inner, symbol := some symbol })
    (beside : { middle.program with types }.homeBeside symbol = .ok home)
    (name : { middle.program with types }.symbolName symbol = .ok text)
    (keyed : { middle.program with types }.LevelKeyed text (form.withElement canonical) key)
    (ran : Canon.settle key.name type home.placement
      { middle with program := { middle.program with types }, scope := home.scope } =
        .error (.failed failure) after) :
    middle.Refuses type canonical failure { after with scope := middle.scope } := by
  rcases @settle_beside_refused Unit { middle with program := { middle.program with types } } after
      type failure key.name text symbol home beside name ran with
    ⟨scope, shape, rfl, free, unlinked, shaped, rfl, same⟩
  have kept := (ruled _ _ _ _ settled).2.outer_kept stored found
  have declared := Arena.get?_of_modify_same rewritten
  rw [kept] at declared
  rcases Program.shape_eq_ok_iff.mp shaped with ⟨node, nodeStored, rfl⟩
  cases Option.mem_unique declared nodeStored
  rw [same]
  exact refuses_of_settled ruled stored found settled rewritten
    (.unanchored named beside name keyed free unlinked)

theorem arrayWith_refused {range : ExpressionRef} {recorded : Option TypeRef}
    (stored : before.program.types.get? type =
      some { form := .array element range recorded, symbol := none })
    (ran : Canon.arrayWith action type before = .error (.failed failure) after) :
    action element before = .error (.failed failure) after ∨
      ∃ canonical middle, action element before = .ok canonical middle ∧
        middle.Refuses type canonical failure after := by
  have formed : (Canon.ask (·.form type) : Canon Unit TypeForm) before =
      .ok (.array element range recorded) before :=
    Canon.ask_of_ok (Program.form_eq_ok_iff.mpr ⟨none, stored⟩)
  rw [Canon.arrayWith, bind_of_ok formed] at ran
  dsimp only at ran
  rw [bind_of_ok (expectAnonymous_of_anonymous stored), bind_eq_error_iff] at ran
  rcases ran with nesting | ⟨⟨symbol, home⟩, outer, nesting, ran⟩
  · exact refuses_of_settleElement ruled stored rfl nesting
  · rcases settleElement_settled nesting with
      ⟨canonical, middle, types, form, settled, rewritten, named, beside, rfl⟩
    refine .inr ⟨canonical, middle, settled, ?_⟩
    simp only [Canon.inScope_eq_error_iff, bind_eq_error_iff] at ran
    rcases ran with ⟨inner, ranging | ⟨⟨domain, rank⟩, _, ranging, ran⟩, rfl⟩
    · rcases rangeDomain_refused ranging with ⟨rfl, cause, rfl, refused⟩
      exact refuses_of_settled ruled stored rfl settled rewritten (.range rfl named refused)
    · rcases rangeDomain_eq_ok ranging with ⟨rfl, ranges, ranked⟩
      simp only [Canon.ask_eq_failed_iff, false_or, Canon.ask_eq_ok_iff] at ran
      rcases ran with ⟨name, _, ⟨isName, rfl⟩, settling | ⟨answer, _, -, ran⟩⟩
      · exact refuses_of_settle ruled stored rfl settled rewritten named beside isName
          (.array ranges ranked) settling
      · cases answer with
        | reused existing => simp [pure_eq_error_iff] at ran
        | created created =>
            simp only [bind_eq_error_iff, Canon.perform_eq_failed_iff, pure_eq_error_iff,
              and_false, exists_false, or_self] at ran

theorem sequenceWith_refused
    (stored : before.program.types.get? type = some { form := .sequence element, symbol := none })
    (ran : Canon.sequenceWith .silent action type before = .error (.failed failure) after) :
    action element before = .error (.failed failure) after ∨
      ∃ canonical middle, action element before = .ok canonical middle ∧
        middle.Refuses type canonical failure after := by
  have formed : (Canon.ask (·.form type) : Canon Unit TypeForm) before =
      .ok (.sequence element) before :=
    Canon.ask_of_ok (Program.form_eq_ok_iff.mpr ⟨none, stored⟩)
  rw [Canon.sequenceWith, bind_of_ok formed] at ran
  dsimp only at ran
  rw [bind_of_ok (expectAnonymous_of_anonymous stored), bind_eq_error_iff] at ran
  rcases ran with nesting | ⟨⟨symbol, home⟩, outer, nesting, ran⟩
  · exact refuses_of_settleElement ruled stored rfl nesting
  · rcases settleElement_settled nesting with
      ⟨canonical, middle, types, form, settled, rewritten, named, beside, rfl⟩
    refine .inr ⟨canonical, middle, settled, ?_⟩
    simp only [bind_eq_error_iff, Canon.inScope_eq_error_iff, Canon.ask_eq_failed_iff, false_or,
      Canon.ask_eq_ok_iff] at ran
    rcases ran with ⟨inner, ⟨name, _, ⟨isName, rfl⟩, settling⟩, rfl⟩ | ⟨answer, _, -, ran⟩
    · exact refuses_of_settle ruled stored rfl settled rewritten named beside isName .sequence
        settling
    · cases answer with
      | reused existing => simp [pure_eq_error_iff] at ran
      | created created =>
          simp only [bind_eq_error_iff, Canon.materialize_eq_failed_iff, pure_eq_error_iff,
            and_false, exists_false, or_self] at ran

end

/-- All that is built over an element fails with it, or by its own checks once that has settled. -/
theorem compositeWithin_refused {before after : Session Unit} {type element : TypeRef}
    {failure : Failure} {form : TypeForm} {depth : Nat}
    (stored : before.program.types.get? type = some { form, symbol := none })
    (found : form.element? = some element)
    (ran : Canon.compositeWithin .silent (depth + 1) type before =
      .error (.failed failure) after) :
    Canon.elementWith (Canon.compositeWithin .silent depth) element before =
        .error (.failed failure) after ∨
      ∃ canonical middle,
        Canon.elementWith (Canon.compositeWithin .silent depth) element before =
          .ok canonical middle ∧
        middle.Refuses type canonical failure after := by
  have ruled : Ruled (Canon.elementWith (Canon.compositeWithin .silent depth)) :=
    ruled_elementWith fun _ _ _ _ => compositeWithin_eq_ok
  have shaped : (Canon.ask (·.shape type) : Canon Unit Shape) before = .ok form.shape before :=
    Canon.ask_of_ok (Program.shape_eq_ok_iff.mpr ⟨_, stored, rfl⟩)
  rw [Canon.compositeWithin, bind_of_ok shaped] at ran
  cases form with
  | array part range recorded =>
      cases found
      exact arrayWith_refused ruled stored ran
  | sequence part =>
      cases found
      exact sequenceWith_refused ruled stored ran
  | _ => cases found

end StructuralTypes
