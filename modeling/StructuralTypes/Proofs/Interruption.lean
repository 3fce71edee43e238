import StructuralTypes.Proofs.Siting

/-! Runs that fail. A canonicalization that fails has made a part of the changes of one that
succeeds: it stops between two steps, and never inside one. -/

namespace StructuralTypes

/-- A computation ends well or with a failure of its own, and not with a fault. -/
def Ends {ε σ α : Type} (result : EStateM.Result (Halt ε) σ α) (state : σ) : Prop :=
  (∃ answer, result = .ok answer state) ∨ ∃ failure, result = .error (.failed failure) state

/-! ## Failures of computations -/

section

variable {ε σ α β : Type} {before after : σ}

theorem bind_eq_error_iff {first : EStateM ε σ α} {rest : α → EStateM ε σ β} {failure : ε} :
    (first >>= rest) before = .error failure after ↔
      first before = .error failure after ∨
        ∃ value middle, first before = .ok value middle ∧
          rest value middle = .error failure after := by
  simp only [bind, EStateM.bind]
  cases ran : first before with
  | ok value middle => simp
  | error other middle => simp

theorem endState_bind {first : EStateM ε σ α} {rest : α → EStateM ε σ β} (property : σ → Prop)
    (ended : property (endState (first before)))
    (kept : ∀ value middle, first before = .ok value middle → property middle →
      property (endState (rest value middle))) :
    property (endState ((first >>= rest) before)) := by
  cases ran : first before with
  | ok value middle =>
      rw [ran] at ended
      rw [bind_of_ok ran]
      exact kept value middle ran ended
  | error failure middle =>
      rw [ran] at ended
      rwa [bind_of_error ran]

theorem pure_eq_error_iff {value : α} {failure : ε} :
    (pure value : EStateM ε σ α) before = .error failure after ↔ False := by
  simp [pure, EStateM.pure]

theorem get_eq_error_iff {failure : ε} :
    (get : EStateM ε σ σ) before = .error failure after ↔ False := by
  change EStateM.Result.ok before before = .error failure after ↔ False
  simp

theorem modify_eq_error_iff {change : σ → σ} {failure : ε} :
    (modify change : EStateM ε σ PUnit) before = .error failure after ↔ False := by
  change EStateM.Result.ok PUnit.unit (change before) = .error failure after ↔ False
  simp

theorem throw_eq_error_iff {thrown failure : ε} :
    (throw thrown : EStateM ε σ α) before = .error failure after ↔
      thrown = failure ∧ before = after := by
  change EStateM.Result.error thrown before = .error failure after ↔ _
  simp

end

namespace Canon

variable {τ α : Type} {before after : Session τ} {failure : Failure}

theorem ask_eq_failed_iff {question : Program → Except Fault α} :
    ask question before = .error (.failed failure) after ↔ False := by
  unfold ask
  split <;> simp

theorem perform_eq_failed_iff {edit : Edit α} :
    perform edit before = .error (.failed failure) after ↔ False := by
  unfold perform
  split <;> simp

theorem fault_eq_failed_iff {fault : Fault} :
    (Canon.fault fault : Canon τ α) before = .error (.failed failure) after ↔ False := by
  simp [Canon.fault, throw_eq_error_iff]

theorem count_eq_failed_iff {change : Tally → Tally} :
    (count change : Canon τ Unit) before = .error (.failed failure) after ↔ False :=
  modify_eq_error_iff

theorem materialize_eq_failed_iff {hook : SequenceHook τ} {type : TypeRef} :
    materialize hook type before = .error (.failed failure) after ↔ False := by
  simp only [materialize, bind_eq_error_iff, get_eq_error_iff, perform_eq_failed_iff,
    modify_eq_error_iff, and_false, exists_false, or_self]

theorem fail_eq_failed_iff {cause : Cause} :
    (fail cause : Canon τ α) before = .error (.failed failure) after ↔
      failure = ⟨before.statement, cause⟩ ∧ after = before := by
  simp only [fail, bind_eq_error_iff, get_eq_error_iff, get_eq_ok_iff, throw_eq_error_iff,
    Halt.failed.injEq, false_or]
  constructor
  · rintro ⟨_, _, ⟨rfl, rfl⟩, rfl, rfl⟩
    exact ⟨rfl, rfl⟩
  · rintro ⟨rfl, rfl⟩
    exact ⟨_, _, ⟨rfl, rfl⟩, rfl, rfl⟩

theorem inScope_eq_error_iff {scope : ScopeRef} {action : Canon τ α} {halt : Halt Failure} :
    inScope scope action before = .error halt after ↔
      ∃ inner, action { before with scope } = .error halt inner ∧
        after = { inner with scope := before.scope } := by
  unfold inScope
  cases action { before with scope } with
  | ok value inner => simp
  | error other inner => simp [@eq_comm _ after, and_assoc]

theorem within_eq_error_iff {statement : StatementRef} {scope : ScopeRef} {action : Canon τ α}
    {before after : Walker (Progress τ)} {halt : Halt Failure} :
    within statement scope action before = .error halt after ↔
      ∃ inner, action { before with scope, statement } = .error halt inner ∧
        after = inner.toWalker := by
  unfold within
  cases action { before with scope, statement } with
  | ok value inner => simp
  | error other inner => simp [@eq_comm _ after, and_assoc]

end Canon

namespace Walk

variable {ε σ α : Type} {before after : Walker σ} {failure : ε}

theorem ask_eq_failed_iff {question : Program → Except Fault α} :
    (ask question : Walk ε σ α) before = .error (.failed failure) after ↔ False := by
  unfold ask
  split <;> simp

theorem perform_eq_failed_iff {edit : Edit α} :
    (perform edit : Walk ε σ α) before = .error (.failed failure) after ↔ False := by
  unfold perform
  split <;> simp

theorem fault_eq_failed_iff {fault : Fault} :
    (Walk.fault fault : Walk ε σ α) before = .error (.failed failure) after ↔ False := by
  simp [Walk.fault, throw_eq_error_iff]

theorem update_eq_error_iff {change : σ → σ} {halt : Halt ε} :
    (update change : Walk ε σ Unit) before = .error halt after ↔ False :=
  modify_eq_error_iff

theorem focus_eq_error_iff {π : Type} {part : σ → π} {replace : σ → π → σ} {walk : Walk ε π α}
    {halt : Halt ε} :
    focus part replace walk before = .error halt after ↔
      ∃ inner, walk ⟨before.program, part before.own⟩ = .error halt inner ∧
        after = ⟨inner.program, replace before.own inner.own⟩ := by
  unfold focus
  cases walk ⟨before.program, part before.own⟩ with
  | ok value inner => simp
  | error other inner => simp [@eq_comm _ after, and_assoc]

end Walk

/-! ## How settling a type fails -/

theorem Canon.settle_eq_unanchored {τ : Type} {text : String} {fresh : TypeRef}
    {placement : Placement} {before after : Session τ} {failure : Failure}
    (ran : settle text fresh placement before = .error (.failed failure) after) :
    ∃ element shape name, placement = .afterElement element ∧
      before.program.Free before.scope (before.program.names.intern text).1 ∧
      before.program.linkedDeclaration? element = .ok none ∧
      before.program.shape fresh = .ok shape ∧
      (before.interning text).program.symbolName element = .ok name ∧
      failure = ⟨before.statement, .unanchored shape name⟩ ∧ after = before.interning text := by
  simp only [settle, bind_eq_error_iff, get_eq_error_iff, get_eq_ok_iff, perform_eq_failed_iff,
    perform_eq_ok_iff, Edit.intern_eq_ok_iff, ask_eq_failed_iff, ask_eq_ok_iff, false_or] at ran
  rcases ran with ⟨_, before, ⟨rfl, rfl⟩, _, _, ⟨_, ⟨rfl, rfl⟩, rfl⟩, existing, _,
    ⟨looked, rfl⟩, ran⟩
  cases existing with
  | some existing =>
      simp only [bind_eq_error_iff, count_eq_failed_iff, ask_eq_failed_iff, pure_eq_error_iff,
        and_false, exists_false, or_self] at ran
  | none =>
      simp only [bind_eq_error_iff, perform_eq_failed_iff, ask_eq_failed_iff, count_eq_failed_iff,
        pure_eq_error_iff, and_false, exists_false, or_false] at ran
      cases placement with
      | shared | before => simp [locate, pure_eq_error_iff] at ran
      | afterElement element =>
          simp only [locate, bind_eq_error_iff, ask_eq_failed_iff, false_or, ask_eq_ok_iff] at ran
          rcases ran with ⟨declaration, _, ⟨linked, rfl⟩, ran⟩
          cases declaration with
          | some declaration => simp [pure_eq_error_iff] at ran
          | none =>
              simp only [bind_eq_error_iff, ask_eq_failed_iff, false_or, ask_eq_ok_iff,
                fail_eq_failed_iff] at ran
              rcases ran with ⟨shape, _, ⟨shaped, rfl⟩, name, _, ⟨named, rfl⟩, rfl, rfl⟩
              exact ⟨element, shape, name, rfl, Program.lookup_eq_none_iff.mp looked, linked,
                shaped, named, rfl, rfl⟩

/-! ## Canonicalizations that fail -/

section

variable {before after : Session Unit} {type : TypeRef} {failure : Failure}

theorem expectAnonymous_eq_failed
    (ran : Canon.expectAnonymous type before = .error (.failed failure) after) :
    after = before := by
  simp only [Canon.expectAnonymous, bind_eq_error_iff, Canon.ask_eq_failed_iff, false_or,
    Canon.ask_eq_ok_iff] at ran
  rcases ran with ⟨name, _, ⟨-, rfl⟩, ran⟩
  cases name with
  | none => simp [pure_eq_error_iff] at ran
  | some name =>
      simp only [bind_eq_error_iff, Canon.ask_eq_failed_iff, false_or, Canon.ask_eq_ok_iff,
        Canon.fail_eq_failed_iff] at ran
      rcases ran with ⟨_, _, ⟨-, rfl⟩, -, rfl⟩
      rfl

/-- Settling a type fails only for want of an anchor, and then nothing is declared. -/
theorem settle_eq_failed {text : String} {placement : Placement}
    (ran : Canon.settle text type placement before = .error (.failed failure) after) :
    (∃ element, placement = .afterElement element) ∧
      after.program = { before.program with names := (before.program.names.intern text).2 } := by
  rcases Canon.settle_eq_unanchored ran with ⟨element, _, _, isAfter, -, -, -, -, -, rfl⟩
  exact ⟨⟨element, isAfter⟩, rfl⟩

theorem settleShared_ne_failed {key : CanonicalKey} :
    Canon.settleShared key type before ≠ .error (.failed failure) after := by
  intro ran
  simp only [Canon.settleShared, Canon.inScope_eq_error_iff, bind_eq_error_iff,
    pure_eq_error_iff, and_false, exists_false, or_false] at ran
  rcases ran with ⟨inner, ran, -⟩
  rcases settle_eq_failed ran with ⟨⟨element, isAfter⟩, -⟩
  cases isAfter

theorem indexKey_eq_failed {subject : ExpressionRef} {scope : ScopeRef}
    (ran : Canon.indexKey subject scope before = .error (.failed failure) after) :
    after = before := by
  simp only [Canon.indexKey, bind_eq_error_iff, Canon.ask_eq_failed_iff, false_or,
    Canon.ask_eq_ok_iff] at ran
  rcases ran with ⟨expression, _, ⟨-, rfl⟩, ran⟩
  cases expression with
  | literal value => simp [pure_eq_error_iff] at ran
  | iteration domains => exact (Canon.fail_eq_failed_iff.mp ran).2
  | reference symbol =>
      simp only [Canon.indexKeyOfVariable, bind_eq_error_iff, Canon.ask_eq_failed_iff, false_or,
        Canon.ask_eq_ok_iff] at ran
      rcases ran with ⟨_, _, ⟨-, rfl⟩, found, _, ⟨-, rfl⟩, ran⟩
      cases found with
      | none =>
          simp only [bind_eq_error_iff, Canon.ask_eq_failed_iff, false_or,
            Canon.ask_eq_ok_iff] at ran
          rcases ran with ⟨_, _, ⟨-, rfl⟩, ran⟩
          exact (Canon.fail_eq_failed_iff.mp ran).2
      | some found =>
          simp only [bind_eq_error_iff, Canon.ask_eq_failed_iff, false_or,
            Canon.ask_eq_ok_iff] at ran
          rcases ran with ⟨_, _, ⟨-, rfl⟩, shape, _, ⟨-, rfl⟩, ran⟩
          split at ran
          · simp only [bind_eq_error_iff, Canon.ask_eq_failed_iff, false_or,
              Canon.ask_eq_ok_iff] at ran
            rcases ran with ⟨name, _, ⟨-, rfl⟩, ran⟩
            cases name with
            | some text => simp [pure_eq_error_iff] at ran
            | none => exact (Canon.fail_eq_failed_iff.mp ran).2
          · simp only [bind_eq_error_iff, Canon.ask_eq_failed_iff, false_or,
              Canon.ask_eq_ok_iff] at ran
            rcases ran with ⟨_, _, ⟨-, rfl⟩, ran⟩
            exact (Canon.fail_eq_failed_iff.mp ran).2

theorem index_eq_failed {scope : ScopeRef}
    (ran : Canon.index type scope before = .error (.failed failure) after) : after = before := by
  simp only [Canon.index, bind_eq_error_iff, Canon.ask_eq_failed_iff, false_or,
    Canon.ask_eq_ok_iff, Program.form_eq_ok_iff] at ran
  rcases ran with ⟨form, before, ⟨⟨symbol, stored⟩, rfl⟩, ran⟩
  split at ran
  · rename_i subject
    simp only [bind_eq_error_iff, settleShared_ne_failed, and_false, exists_false, or_false] at ran
    rcases ran with anonymous | ⟨_, _, anonymous, keying⟩
    · exact expectAnonymous_eq_failed anonymous
    · rcases expectAnonymous_eq_ok anonymous with ⟨rfl, -⟩
      exact indexKey_eq_failed keying
  · exact (Canon.fail_eq_failed_iff.mp ran).2

theorem domain_eq_failed
    (ran : Canon.domain type before = .error (.failed failure) after) : after = before := by
  simp only [Canon.domain, bind_eq_error_iff, Canon.ask_eq_failed_iff, false_or,
    Canon.ask_eq_ok_iff, Program.form_eq_ok_iff] at ran
  rcases ran with ⟨form, before, ⟨⟨symbol, stored⟩, rfl⟩, ran⟩
  split at ran
  · rename_i rank parent companion
    rw [bind_eq_error_iff] at ran
    rcases ran with anonymous | ⟨_, _, anonymous, ran⟩
    · exact expectAnonymous_eq_failed anonymous
    · rcases expectAnonymous_eq_ok anonymous with ⟨rfl, -⟩
      cases parent with
      | some parent => exact (Canon.fail_eq_failed_iff.mp ran).2
      | none =>
          simp only [bind_eq_error_iff, Canon.perform_eq_failed_iff, settleShared_ne_failed,
            and_false, exists_false, or_self] at ran
  · exact (Canon.fail_eq_failed_iff.mp ran).2

theorem componentNames_eq_failed {position : Nat} {components : List TypeRef}
    (ran : Canon.componentNames position components before = .error (.failed failure) after) :
    after = before := by
  induction components generalizing position with
  | nil => simp [Canon.componentNames, pure_eq_error_iff] at ran
  | cons head tail induction =>
      simp only [Canon.componentNames, bind_eq_error_iff, Canon.ask_eq_failed_iff, false_or,
        Canon.ask_eq_ok_iff] at ran
      rcases ran with ⟨name, _, ⟨-, rfl⟩, ran⟩
      cases name with
      | none => exact (Canon.fail_eq_failed_iff.mp ran).2
      | some text =>
          simp only [bind_eq_error_iff, pure_eq_error_iff, and_false, exists_false,
            or_false] at ran
          exact induction ran

theorem tuple_eq_failed
    (ran : Canon.tuple type before = .error (.failed failure) after) : after = before := by
  simp only [Canon.tuple, bind_eq_error_iff, Canon.ask_eq_failed_iff, false_or,
    Canon.ask_eq_ok_iff, Program.form_eq_ok_iff] at ran
  rcases ran with ⟨form, before, ⟨⟨symbol, stored⟩, rfl⟩, ran⟩
  split at ran
  · rename_i components
    simp only [bind_eq_error_iff, settleShared_ne_failed, and_false, exists_false, or_false] at ran
    rcases ran with anonymous | ⟨_, _, anonymous, naming⟩
    · exact expectAnonymous_eq_failed anonymous
    · rcases expectAnonymous_eq_ok anonymous with ⟨rfl, -⟩
      exact componentNames_eq_failed naming
  · exact (Canon.fail_eq_failed_iff.mp ran).2

theorem rangeDomain_eq_failed {range : ExpressionRef}
    (ran : Canon.rangeDomain range before = .error (.failed failure) after) : after = before := by
  simp only [Canon.rangeDomain, bind_eq_error_iff, Canon.ask_eq_failed_iff, false_or,
    Canon.ask_eq_ok_iff] at ran
  rcases ran with ⟨expression, _, ⟨-, rfl⟩, ran⟩
  split at ran
  · simp only [bind_eq_error_iff, Canon.ask_eq_failed_iff, false_or, Canon.ask_eq_ok_iff] at ran
    rcases ran with ⟨inner, _, ⟨-, rfl⟩, ran⟩
    split at ran
    · simp only [bind_eq_error_iff, Canon.ask_eq_failed_iff, false_or, Canon.ask_eq_ok_iff] at ran
      rcases ran with ⟨symbol, _, ⟨-, rfl⟩, form, _, ⟨-, rfl⟩, ran⟩
      split at ran
      · simp [pure_eq_error_iff] at ran
      · simp only [bind_eq_error_iff, Canon.ask_eq_failed_iff, false_or,
          Canon.ask_eq_ok_iff] at ran
        rcases ran with ⟨_, _, ⟨-, rfl⟩, ran⟩
        exact (Canon.fail_eq_failed_iff.mp ran).2
    · exact (Canon.fail_eq_failed_iff.mp ran).2
  · exact (Canon.fail_eq_failed_iff.mp ran).2
  · exact (Canon.fail_eq_failed_iff.mp ran).2

/-- A failure of `action` on an element comes after a part of its steps. -/
def Interruptible (action : TypeRef → Canon Unit TypeRef) : Prop :=
  ∀ before after type failure, action type before = .error (.failed failure) after →
    before.program.Steps after.program

theorem settleElement_eq_failed {action : TypeRef → Canon Unit TypeRef} (ruled : Ruled action)
    (interruptible : Interruptible action) {shape : Shape} {element : TypeRef} {form : TypeForm}
    (stored : before.program.types.get? type = some { form, symbol := none })
    (found : form.element? = some element)
    (ran : Canon.settleElement shape action type element before =
      .error (.failed failure) after) : before.program.Steps after.program := by
  simp only [Canon.settleElement, bind_eq_error_iff, Canon.perform_eq_failed_iff, false_or,
    Canon.perform_eq_ok_iff, Edit.changeForm_eq_ok_iff, Canon.ask_eq_failed_iff,
    pure_eq_error_iff, and_false, exists_false, or_false] at ran
  rcases ran with nested | ⟨inner, middle, nested, _, _, ⟨_, ⟨types, rewritten, rfl⟩, rfl⟩, naming⟩
  · exact interruptible _ _ _ _ nested
  · rcases ruled _ _ _ _ nested with ⟨-, canonicalizes⟩
    rcases canonicalizes.takes_in stored found rewritten with ⟨replacing, -⟩
    simp only [Canon.elementSymbol, bind_eq_error_iff, Canon.ask_eq_failed_iff, false_or,
      Canon.ask_eq_ok_iff] at naming
    rcases naming with ⟨symbol, _, ⟨-, rfl⟩, naming⟩
    cases symbol with
    | some symbol => simp [pure_eq_error_iff] at naming
    | none =>
        simp only [bind_eq_error_iff, Canon.ask_eq_failed_iff, false_or,
          Canon.ask_eq_ok_iff] at naming
        rcases naming with ⟨_, _, ⟨-, rfl⟩, naming⟩
        rw [(Canon.fail_eq_failed_iff.mp naming).2]
        exact canonicalizes.steps.tail replacing

theorem settleElement_steps {action : TypeRef → Canon Unit TypeRef} (ruled : Ruled action)
    {shape : Shape} {element : TypeRef} {form : TypeForm} {answer : SymbolRef × Home}
    (stored : before.program.types.get? type = some { form, symbol := none })
    (found : form.element? = some element)
    (ran : Canon.settleElement shape action type element before = .ok answer after) :
    before.program.Steps after.program := by
  rcases settleElement_eq_ok ruled ran with
    ⟨-, inner, middle, types, canonicalizes, rewritten, same, -⟩
  rw [same]
  exact canonicalizes.steps.tail (canonicalizes.takes_in stored found rewritten).1

theorem sequenceWith_eq_failed {action : TypeRef → Canon Unit TypeRef} (ruled : Ruled action)
    (interruptible : Interruptible action)
    (ran : Canon.sequenceWith .silent action type before = .error (.failed failure) after) :
    before.program.Steps after.program := by
  simp only [Canon.sequenceWith, bind_eq_error_iff, Canon.ask_eq_failed_iff, false_or,
    Canon.ask_eq_ok_iff, Program.form_eq_ok_iff] at ran
  rcases ran with ⟨form, before, ⟨⟨symbol, stored⟩, rfl⟩, ran⟩
  split at ran
  · rename_i element
    rw [bind_eq_error_iff] at ran
    rcases ran with anonymous | ⟨_, _, anonymous, ran⟩
    · rw [expectAnonymous_eq_failed anonymous]
    · rcases expectAnonymous_eq_ok anonymous with ⟨rfl, isNone⟩
      cases isNone _ _ stored
      rw [bind_eq_error_iff] at ran
      rcases ran with nesting | ⟨⟨ref, home⟩, outer, nesting, ran⟩
      · exact settleElement_eq_failed ruled interruptible stored rfl nesting
      · refine (settleElement_steps ruled stored rfl nesting).trans ?_
        rw [bind_eq_error_iff] at ran
        rcases ran with settling | ⟨settled, _, -, ran⟩
        · simp only [Canon.inScope_eq_error_iff, bind_eq_error_iff, Canon.ask_eq_failed_iff,
            false_or, Canon.ask_eq_ok_iff] at settling
          rcases settling with ⟨inner, ⟨_, _, ⟨-, rfl⟩, settling⟩, rfl⟩
          dsimp only
          rw [(settle_eq_failed settling).2]
          exact .single (.intern _)
        · cases settled with
          | reused existing => simp [pure_eq_error_iff] at ran
          | created created =>
              simp only [bind_eq_error_iff, Canon.materialize_eq_failed_iff, pure_eq_error_iff,
                and_false, exists_false, or_self] at ran
  · rw [(Canon.fail_eq_failed_iff.mp ran).2]

theorem arrayWith_eq_failed {action : TypeRef → Canon Unit TypeRef} (ruled : Ruled action)
    (interruptible : Interruptible action)
    (ran : Canon.arrayWith action type before = .error (.failed failure) after) :
    before.program.Steps after.program := by
  simp only [Canon.arrayWith, bind_eq_error_iff, Canon.ask_eq_failed_iff, false_or,
    Canon.ask_eq_ok_iff, Program.form_eq_ok_iff] at ran
  rcases ran with ⟨form, before, ⟨⟨symbol, stored⟩, rfl⟩, ran⟩
  split at ran
  · rename_i element range recorded
    rw [bind_eq_error_iff] at ran
    rcases ran with anonymous | ⟨_, _, anonymous, ran⟩
    · rw [expectAnonymous_eq_failed anonymous]
    · rcases expectAnonymous_eq_ok anonymous with ⟨rfl, isNone⟩
      cases isNone _ _ stored
      rw [bind_eq_error_iff] at ran
      rcases ran with nesting | ⟨⟨ref, home⟩, outer, nesting, ran⟩
      · exact settleElement_eq_failed ruled interruptible stored rfl nesting
      · refine (settleElement_steps ruled stored rfl nesting).trans ?_
        rw [Canon.inScope_eq_error_iff] at ran
        rcases ran with ⟨inner, ran, rfl⟩
        rw [bind_eq_error_iff] at ran
        rcases ran with ranging | ⟨⟨domain, rank⟩, _, ranging, ran⟩
        · rw [rangeDomain_eq_failed ranging]
        · rcases rangeDomain_eq_ok ranging with ⟨rfl, -⟩
          simp only [bind_eq_error_iff, Canon.ask_eq_failed_iff, false_or,
            Canon.ask_eq_ok_iff] at ran
          rcases ran with ⟨_, _, ⟨-, rfl⟩, settling | ⟨settled, _, -, ran⟩⟩
          · rw [(settle_eq_failed settling).2]
            exact .single (.intern _)
          · cases settled with
            | reused existing => simp [pure_eq_error_iff] at ran
            | created created =>
                simp only [bind_eq_error_iff, Canon.perform_eq_failed_iff, pure_eq_error_iff,
                  and_false, exists_false, or_self] at ran
  · rw [(Canon.fail_eq_failed_iff.mp ran).2]

theorem interruptible_elementWith {composite : TypeRef → Canon Unit TypeRef}
    (interruptible : Interruptible composite) : Interruptible (Canon.elementWith composite) := by
  intro before after type failure ran
  simp only [Canon.elementWith, bind_eq_error_iff, Canon.ask_eq_failed_iff, false_or,
    Canon.ask_eq_ok_iff] at ran
  rcases ran with ⟨symbol, _, ⟨-, rfl⟩, ran⟩
  cases symbol with
  | some symbol => simp [pure_eq_error_iff] at ran
  | none =>
      simp only [bind_eq_error_iff, Canon.ask_eq_failed_iff, false_or, Canon.ask_eq_ok_iff] at ran
      rcases ran with ⟨shape, _, ⟨-, rfl⟩, ran⟩
      split at ran
      · simp only [bind_eq_error_iff, get_eq_error_iff, get_eq_ok_iff, false_or] at ran
        rcases ran with ⟨_, _, ⟨rfl, rfl⟩, ran⟩
        rw [index_eq_failed ran]
      · exact interruptible _ _ _ _ ran

theorem compositeWithin_eq_failed {depth : Nat}
    (ran : Canon.compositeWithin .silent depth type before = .error (.failed failure) after) :
    before.program.Steps after.program := by
  induction depth generalizing before after type failure with
  | zero => simp [Canon.compositeWithin, Canon.fault_eq_failed_iff] at ran
  | succ depth induction =>
      have ruled : Ruled (Canon.elementWith (Canon.compositeWithin .silent depth)) :=
        ruled_elementWith fun _ _ _ _ => compositeWithin_eq_ok
      have interruptible :
          Interruptible (Canon.elementWith (Canon.compositeWithin .silent depth)) :=
        interruptible_elementWith fun _ _ _ _ => induction
      simp only [Canon.compositeWithin, bind_eq_error_iff, Canon.ask_eq_failed_iff, false_or,
        Canon.ask_eq_ok_iff] at ran
      rcases ran with ⟨shape, _, ⟨-, rfl⟩, ran⟩
      cases shape with
      | primitive | nominal | index => simp [pure_eq_error_iff] at ran
      | array => exact arrayWith_eq_failed ruled interruptible ran
      | domain => rw [domain_eq_failed ran]
      | tuple => rw [tuple_eq_failed ran]
      | sequence => exact sequenceWith_eq_failed ruled interruptible ran

theorem declaredType_eq_failed {scope : ScopeRef}
    (ran : Canon.declaredType .silent type scope before = .error (.failed failure) after) :
    before.program.Steps after.program := by
  simp only [Canon.declaredType, Canon.composite, Canon.nesting, bind_eq_error_iff,
    get_eq_error_iff, pure_eq_error_iff, bind_eq_ok_iff, get_eq_ok_iff, pure_eq_ok_iff, and_false,
    exists_false, or_self, false_or] at ran
  rcases ran with ⟨_, _, ⟨_, _, ⟨rfl, rfl⟩, rfl, rfl⟩, composing⟩ |
    ⟨first, middle, ⟨_, _, ⟨_, _, ⟨rfl, rfl⟩, rfl, rfl⟩, composing⟩, ran⟩
  · exact compositeWithin_eq_failed composing
  · simp only [Canon.indexOrSelf, bind_eq_error_iff, Canon.ask_eq_failed_iff, false_or,
      Canon.ask_eq_ok_iff] at ran
    rcases ran with ⟨shape, _, ⟨-, rfl⟩, ran⟩
    split at ran
    · rw [index_eq_failed ran]
      rcases compositeWithin_eq_ok composing with ⟨-, ⟨_, _, -, -, -, same⟩ | ⟨-, canonicalizes⟩⟩
      · rw [same]
      · exact canonicalizes.steps
    · simp [pure_eq_error_iff] at ran

end

/-! ## Computations that end without a fault -/

theorem ends_bind_iff {ε σ α β : Type} {first : EStateM (Halt ε) σ α}
    {rest : α → EStateM (Halt ε) σ β} {before after : σ} :
    Ends ((first >>= rest) before) after ↔
      (∃ failure, first before = .error (.failed failure) after) ∨
        ∃ value middle, first before = .ok value middle ∧ Ends (rest value middle) after := by
  simp only [bind, EStateM.bind]
  cases ran : first before with
  | ok value middle => simp
  | error halt middle => simp [Ends]

theorem eq_of_ends_pure {ε σ α : Type} {value : α} {before after : σ}
    (ends : Ends ((pure value : EStateM (Halt ε) σ α) before) after) : before = after := by
  rcases ends with ⟨answer, ran⟩ | ⟨failure, ran⟩
  · exact (pure_eq_ok_iff.mp ran).2
  · exact (pure_eq_error_iff.mp ran).elim

theorem Walk.ends_focus {ε σ π α : Type} {part : σ → π} {replace : σ → π → σ} {walk : Walk ε π α}
    {before after : Walker σ} (ends : Ends (Walk.focus part replace walk before) after) :
    ∃ inner, Ends (walk ⟨before.program, part before.own⟩) inner ∧
      after = ⟨inner.program, replace before.own inner.own⟩ := by
  rcases ends with ⟨answer, ran⟩ | ⟨failure, ran⟩
  · obtain ⟨inner, walked, rfl⟩ := Walk.focus_eq_ok_iff.mp ran
    exact ⟨inner, .inl ⟨answer, walked⟩, rfl⟩
  · obtain ⟨inner, walked, rfl⟩ := Walk.focus_eq_error_iff.mp ran
    exact ⟨inner, .inr ⟨failure, walked⟩, rfl⟩

theorem Canon.ends_within {τ α : Type} {statement : StatementRef} {scope : ScopeRef}
    {action : Canon τ α} {before after : Walker (Progress τ)}
    (ends : Ends (Canon.within statement scope action before) after) :
    ∃ inner, Ends (action { before with scope, statement }) inner ∧ after = inner.toWalker := by
  rcases ends with ⟨answer, ran⟩ | ⟨failure, ran⟩
  · obtain ⟨inner, done, rfl⟩ := Canon.within_eq_ok_iff.mp ran
    exact ⟨inner, .inl ⟨answer, done⟩, rfl⟩
  · obtain ⟨inner, done, rfl⟩ := Canon.within_eq_error_iff.mp ran
    exact ⟨inner, .inr ⟨failure, done⟩, rfl⟩

/-! ## Where computations lead -/

/-- However a computation that starts in `before` ends, if not with a fault, it ends where `reach`
leads from there. -/
def Leads {ε σ α : Type} (reach : σ → σ → Prop) (computation : EStateM (Halt ε) σ α)
    (before : σ) : Prop :=
  ∀ after, Ends (computation before) after → reach before after

section

variable {ε σ α β : Type} {reach : σ → σ → Prop} {before : σ}

theorem leads_of_unchanged [Std.Refl reach] {computation : EStateM (Halt ε) σ α}
    (unchanged : ∀ after, Ends (computation before) after → after = before) :
    Leads reach computation before := by
  intro after ends
  rw [unchanged after ends]
  exact refl before

theorem leads_pure [Std.Refl reach] (value : α) :
    Leads reach (pure value : EStateM (Halt ε) σ α) before :=
  leads_of_unchanged fun _ ends => (eq_of_ends_pure ends).symm

theorem leads_get [Std.Refl reach] : Leads reach (get : EStateM (Halt ε) σ σ) before := by
  refine leads_of_unchanged ?_
  rintro after (⟨answer, ran⟩ | ⟨failure, ran⟩)
  · exact (get_eq_ok_iff.mp ran).2
  · exact (get_eq_error_iff.mp ran).elim

theorem Leads.bind [IsTrans σ reach] {first : EStateM (Halt ε) σ α}
    {rest : α → EStateM (Halt ε) σ β} (leads : Leads reach first before)
    (leadsRest : ∀ value middle, first before = .ok value middle →
      Leads reach (rest value) middle) :
    Leads reach (first >>= rest) before := by
  intro after ends
  rcases ends_bind_iff.mp ends with ⟨failure, ran⟩ | ⟨value, middle, ran, endsRest⟩
  · exact leads after (.inr ⟨failure, ran⟩)
  · exact IsTrans.trans _ middle _ (leads middle (.inl ⟨value, ran⟩))
      (leadsRest value middle ran after endsRest)

theorem leads_forM [Std.Refl reach] [IsTrans σ reach] {action : α → EStateM (Halt ε) σ PUnit}
    (leads : ∀ element before, Leads reach (action element) before) (elements : List α)
    (before : σ) : Leads reach (elements.forM action) before := by
  induction elements generalizing before with
  | nil => exact leads_pure _
  | cons head rest induction => exact (leads head before).bind fun _ middle _ => induction middle

end

namespace Walk

variable {ε σ α : Type} {reach : Walker σ → Walker σ → Prop} {before : Walker σ}

theorem leads_ask [Std.Refl reach] (question : Program → Except Fault α) :
    Leads reach (ask question : Walk ε σ α) before := by
  refine leads_of_unchanged ?_
  rintro after (⟨answer, ran⟩ | ⟨failure, ran⟩)
  · exact (ask_eq_ok_iff.mp ran).2
  · exact (ask_eq_failed_iff.mp ran).elim

theorem leads_fault (fault : Fault) : Leads reach (Walk.fault fault : Walk ε σ α) before := by
  rintro after (⟨answer, ran⟩ | ⟨failure, ran⟩)
  · exact (fault_eq_ok_iff.mp ran).elim
  · exact (fault_eq_failed_iff.mp ran).elim

theorem leads_update {revise : σ → σ} (leads : reach before ⟨before.program, revise before.own⟩) :
    Leads reach (update revise : Walk ε σ Unit) before := by
  rintro after (⟨answer, ran⟩ | ⟨failure, ran⟩)
  · rw [modify_eq_ok_iff.mp ran]
    exact leads
  · exact (update_eq_error_iff.mp ran).elim

end Walk

namespace Traversal

variable {ε σ : Type} {reach : Walker σ → Walker σ → Prop} {traversal : Traversal ε σ}

structure Leads (reach : Walker σ → Walker σ → Prop) (traversal : Traversal ε σ) : Prop where
  enter : ∀ ref before, StructuralTypes.Leads reach (traversal.enterStatement ref) before
  visit : ∀ type before, StructuralTypes.Leads reach (traversal.visitType type) before
  leave : ∀ ref before, StructuralTypes.Leads reach (traversal.leaveStatement ref) before

theorem leads_walkTypeWithin [Std.Refl reach] [IsTrans (Walker σ) reach]
    (visit : ∀ type before, StructuralTypes.Leads reach (traversal.visitType type) before)
    (depth : Nat) (type : TypeRef) (before : Walker σ) :
    StructuralTypes.Leads reach (traversal.walkTypeWithin depth type) before := by
  induction depth generalizing type before with
  | zero => exact Walk.leads_fault _
  | succ depth induction =>
      exact (visit type before).bind fun _ _ _ => (Walk.leads_ask _).bind fun form middle _ =>
        leads_forM induction form.children middle

namespace Leads

variable [Std.Refl reach] [IsTrans (Walker σ) reach] (leads : traversal.Leads reach)
include leads

theorem walkTypeWithin (depth : Nat) (type : TypeRef) (before : Walker σ) :
    StructuralTypes.Leads reach (traversal.walkTypeWithin depth type) before :=
  leads_walkTypeWithin leads.visit depth type before

theorem walkType (type : TypeRef) (before : Walker σ) :
    StructuralTypes.Leads reach (traversal.walkType type) before :=
  leads_get.bind fun _ middle _ => leads.walkTypeWithin _ type middle

theorem walkStatement (ref : StatementRef) (before : Walker σ) :
    StructuralTypes.Leads reach (traversal.walkStatement ref) before := by
  refine (leads.enter ref before).bind fun _ _ _ =>
    (Walk.leads_ask _).bind fun statement middle _ => ?_
  cases statement.declared? with
  | none => exact leads.leave ref middle
  | some symbol =>
      exact (Walk.leads_ask _).bind fun declared _ _ =>
        (leads.walkType declared.type _).bind fun _ later _ => leads.leave ref later

theorem walkProgram (before : Walker σ) :
    StructuralTypes.Leads reach traversal.walkProgram before :=
  (Walk.leads_ask _).bind fun order middle _ => leads_forM leads.walkStatement order middle

end Leads

end Traversal

/-! ## Walks that only change a program by steps -/

def Walk.Takes {ε σ α : Type} (change : Program → Program → Prop) (walk : Walk ε σ α) : Prop :=
  ∀ before after, Ends (walk before) after →
    Relation.ReflTransGen change before.program after.program

namespace Walk

variable {ε σ α β : Type} {change : Program → Program → Prop}

abbrev Stepped (change : Program → Program → Prop) : Walker σ → Walker σ → Prop :=
  Function.onFun (Relation.ReflTransGen change) Walker.program

theorem takes_iff_leads {walk : Walk ε σ α} :
    walk.Takes change ↔ ∀ before, Leads (Stepped change) walk before :=
  .rfl

theorem takes_pure (value : α) : (pure value : Walk ε σ α).Takes change :=
  takes_iff_leads.mpr fun _ => leads_pure value

theorem takes_ask (question : Program → Except Fault α) :
    (ask question : Walk ε σ α).Takes change :=
  takes_iff_leads.mpr fun _ => leads_ask question

theorem takes_update (revise : σ → σ) : (update revise : Walk ε σ Unit).Takes change :=
  takes_iff_leads.mpr fun _ => leads_update .refl

theorem Takes.bind {first : Walk ε σ α} {rest : α → Walk ε σ β} (takesFirst : first.Takes change)
    (takesRest : ∀ value, (rest value).Takes change) : (first >>= rest).Takes change :=
  takes_iff_leads.mpr fun before =>
    (takes_iff_leads.mp takesFirst before).bind fun value middle _ =>
      takes_iff_leads.mp (takesRest value) middle

theorem takes_forM {action : α → Walk ε σ PUnit} (takes : ∀ element, (action element).Takes change)
    (elements : List α) : (elements.forM action).Takes change :=
  takes_iff_leads.mpr (leads_forM (fun element => takes_iff_leads.mp (takes element)) elements)

end Walk

namespace Traversal

variable {ε σ : Type} {change : Program → Program → Prop} {traversal : Traversal ε σ}

structure Takes (change : Program → Program → Prop) (traversal : Traversal ε σ) : Prop where
  enter : ∀ ref, (traversal.enterStatement ref).Takes change
  visit : ∀ type, (traversal.visitType type).Takes change
  leave : ∀ ref, (traversal.leaveStatement ref).Takes change

namespace Takes

variable (takes : traversal.Takes change)
include takes

theorem leads : traversal.Leads (Walk.Stepped change) :=
  ⟨takes.enter, takes.visit, takes.leave⟩

theorem walkTypeWithin (depth : Nat) (type : TypeRef) :
    (traversal.walkTypeWithin depth type).Takes change :=
  takes.leads.walkTypeWithin depth type

theorem walkType (type : TypeRef) : (traversal.walkType type).Takes change :=
  takes.leads.walkType type

theorem walkStatement (ref : StatementRef) : (traversal.walkStatement ref).Takes change :=
  takes.leads.walkStatement ref

theorem walkProgram : traversal.walkProgram.Takes change :=
  takes.leads.walkProgram

end Takes

end Traversal

/-! ## The walk over the variables -/

theorem enterStatement_eq_failed {before after : Walker (Progress Unit)} {failure : Failure}
    {ref : StatementRef}
    (ran : (variableTypes .silent).enterStatement ref before = .error (.failed failure) after) :
    before.program.Steps after.program := by
  simp only [variableTypes, bind_eq_error_iff, Walk.ask_eq_failed_iff, false_or,
    Walk.ask_eq_ok_iff] at ran
  rcases ran with ⟨statement, _, ⟨-, rfl⟩, ran⟩
  cases declares : statement.kind with
  | varDeclaration var =>
      simp only [declares, bind_eq_error_iff, Walk.ask_eq_failed_iff, false_or,
        Walk.ask_eq_ok_iff, Walk.perform_eq_failed_iff, and_false, exists_false, or_false,
        Canon.within_eq_error_iff] at ran
      rcases ran with ⟨symbol, _, ⟨-, rfl⟩, inner, declared, rfl⟩
      exact declaredType_eq_failed declared
  | _ => simp [declares, pure_eq_error_iff] at ran

theorem takes_variableTypes : (variableTypes .silent).Takes Program.Step where
  enter ref before after ends := by
    rcases ends with ⟨_, ran⟩ | ⟨_, ran⟩
    · exact (resolves_of_enterStatement ran).steps
    · exact enterStatement_eq_failed ran
  visit _ := Walk.takes_pure ()
  leave _ := Walk.takes_pure ()

end StructuralTypes
