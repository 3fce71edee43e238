import StructuralTypes.Canonical.Pipeline
import StructuralTypes.Program.Declaration

/-! What the success of a computation says about its parts. A computation that ends
well consists of parts that did, so each statement here takes one construct of a
successful run apart. -/

namespace StructuralTypes

/-! ## How a computation ends -/

def finished? {ε σ α : Type} : EStateM.Result ε σ α → Option σ
  | .ok _ state => some state
  | .error _ _ => none

theorem finished?_eq_some_iff {ε σ : Type} {result : EStateM.Result ε σ Unit} {state : σ} :
    finished? result = some state ↔ result = .ok () state := by
  cases result <;> simp [finished?]

def answer? {ε σ α : Type} : EStateM.Result ε σ α → Option (α × σ)
  | .ok answer state => some (answer, state)
  | .error _ _ => none

theorem answer?_eq_some_iff {ε σ α : Type} {result : EStateM.Result ε σ α} {answer : α}
    {state : σ} :
    answer? result = some (answer, state) ↔ result = .ok answer state := by
  cases result <;> simp [answer?]

def failed? {ε σ α : Type} : EStateM.Result (Halt ε) σ α → Option (ε × σ)
  | .error (.failed failure) state => some (failure, state)
  | _ => none

theorem failed?_eq_some_iff {ε σ α : Type} {result : EStateM.Result (Halt ε) σ α} {failure : ε}
    {state : σ} :
    failed? result = some (failure, state) ↔ result = .error (.failed failure) state := by
  unfold failed?
  split <;> simp_all

/-! ## Sequences of steps -/

section

variable {ε σ α β : Type}

theorem bind_eq_ok_iff {first : EStateM ε σ α} {rest : α → EStateM ε σ β}
    {before after : σ} {answer : β} :
    (first >>= rest) before = .ok answer after ↔
      ∃ value middle, first before = .ok value middle ∧
        rest value middle = .ok answer after := by
  simp only [bind, EStateM.bind]
  constructor
  · intro ran
    split at ran
    · exact ⟨_, _, by assumption, ran⟩
    · contradiction
  · intro holds
    rcases holds with ⟨value, middle, firstRan, restRan⟩
    rw [firstRan]
    exact restRan

theorem bind_of_ok {first : EStateM ε σ α} {rest : α → EStateM ε σ β} {before middle : σ}
    {value : α} (ran : first before = .ok value middle) :
    (first >>= rest) before = rest value middle := by
  simp only [bind, EStateM.bind, ran]

theorem bind_of_error {first : EStateM ε σ α} {rest : α → EStateM ε σ β} {before middle : σ}
    {failure : ε} (ran : first before = .error failure middle) :
    (first >>= rest) before = .error failure middle := by
  simp only [bind, EStateM.bind, ran]

theorem pure_eq_ok_iff {value answer : α} {before after : σ} :
    (pure value : EStateM ε σ α) before = .ok answer after ↔
      value = answer ∧ before = after := by
  simp [pure, EStateM.pure]

theorem get_eq_ok_iff {before answer after : σ} :
    (get : EStateM ε σ σ) before = .ok answer after ↔
      answer = before ∧ after = before := by
  change EStateM.Result.ok before before = .ok answer after ↔ _
  rw [EStateM.Result.ok.injEq, eq_comm, @eq_comm _ before after]

theorem modify_eq_ok_iff {change : σ → σ} {before after : σ} {answer : PUnit} :
    (modify change : EStateM ε σ PUnit) before = .ok answer after ↔
      after = change before := by
  change EStateM.Result.ok PUnit.unit (change before) = .ok answer after ↔ _
  simp [eq_comm]

theorem throw_eq_ok_iff {failure : ε} {before after : σ} {answer : α} :
    (throw failure : EStateM ε σ α) before = .ok answer after ↔ False := by
  change EStateM.Result.error failure before = .ok answer after ↔ False
  simp

theorem Except.bind_eq_ok_iff {first : Except ε α} {rest : α → Except ε β}
    {answer : β} :
    (first >>= rest) = .ok answer ↔
      ∃ value, first = .ok value ∧ rest value = .ok answer := by
  cases first <;> simp [bind, Except.bind]

theorem Except.exists_bind {first : Except ε α} {rest : α → Except ε β} {value : α}
    (answered : first = .ok value) (later : ∃ answer, rest value = .ok answer) :
    ∃ answer, (first >>= rest) = .ok answer := by
  rw [answered]
  exact later

theorem Except.pure_eq_ok_iff {value answer : α} :
    (pure value : Except ε α) = .ok answer ↔ value = answer := by
  simp [pure, Except.pure]

theorem Except.toOption_eq_some_iff {result : Except ε α} {answer : α} :
    result.toOption = some answer ↔ result = .ok answer := by
  cases result <;> simp [Except.toOption]

theorem Except.throw_eq_ok_iff {failure : ε} {answer : α} :
    (throw failure : Except ε α) = .ok answer ↔ False := by
  simp [throw, throwThe, MonadExceptOf.throw]

end

/-! ## Changes to a program -/

namespace Edit

variable {before after : Program}

theorem ask_eq_ok_iff {α : Type} {question : Program → Except Fault α} {answer : α} :
    ask question before = .ok answer after ↔
      question before = .ok answer ∧ after = before := by
  unfold ask
  split <;> simp_all [eq_comm]

theorem intern_eq_ok_iff {text : String} {name : NameRef} :
    intern text before = .ok name after ↔
      (before.names.intern text).1 = name ∧
        { before with names := (before.names.intern text).2 } = after := by
  simp only [intern, EStateM.Result.ok.injEq]

theorem addSymbol_eq_ok_iff {symbol : Symbol} {ref : SymbolRef} :
    addSymbol symbol before = .ok ref after ↔
      before.symbols.next = ref ∧
        { before with symbols := before.symbols.push symbol } = after := by
  simp only [addSymbol, EStateM.Result.ok.injEq]

variable {answer : Unit}

theorem update_eq_ok_iff {change : Program → Except Fault Program} :
    update change before = .ok answer after ↔ change before = .ok after := by
  unfold update
  split <;> simp_all

theorem changeForm_eq_ok_iff {type : TypeRef} {change : TypeForm → TypeForm} :
    changeForm type change before = .ok answer after ↔
      ∃ types, before.types.modify type
          (fun node => { node with form := change node.form }) = .ok types ∧
        { before with types } = after := by
  simp only [changeForm, update_eq_ok_iff, Except.bind_eq_ok_iff,
    Except.pure_eq_ok_iff]

theorem setTypeSymbol_eq_ok_iff {type : TypeRef} {symbol : Option SymbolRef} :
    setTypeSymbol type symbol before = .ok answer after ↔
      ∃ types, before.types.modify type (fun node => { node with symbol }) =
          .ok types ∧
        { before with types } = after := by
  simp only [setTypeSymbol, update_eq_ok_iff, Except.bind_eq_ok_iff,
    Except.pure_eq_ok_iff]

theorem changeSymbol_eq_ok_iff {ref : SymbolRef} {change : Symbol → Symbol} :
    changeSymbol ref change before = .ok answer after ↔
      ∃ symbols, before.symbols.modify ref change = .ok symbols ∧
        { before with symbols } = after := by
  simp only [changeSymbol, update_eq_ok_iff, Except.bind_eq_ok_iff,
    Except.pure_eq_ok_iff]

theorem bind_eq_ok_iff {scope : ScopeRef} {name : NameRef} {symbol : SymbolRef} :
    bind scope name symbol before = .ok answer after ↔
      ∃ scopes, before.scopes.modify scope (·.bind name symbol) = .ok scopes ∧
        { before with scopes } = after := by
  simp only [bind, Scopes.bind, update_eq_ok_iff, Except.bind_eq_ok_iff,
    Except.pure_eq_ok_iff]

theorem changeLayout_eq_ok_iff {change : Layout → Except Fault Layout} :
    changeLayout change before = .ok answer after ↔
      ∃ layout, change before.layout = .ok layout ∧
        { before with layout } = after := by
  simp only [changeLayout, update_eq_ok_iff, Except.bind_eq_ok_iff,
    Except.pure_eq_ok_iff]

end Edit

/-! ## Sessions -/

namespace Canon

variable {τ α : Type} {before after : Session τ} {answer : α}

theorem ask_eq_ok_iff {question : Program → Except Fault α} :
    ask question before = .ok answer after ↔
      question before.program = .ok answer ∧ after = before := by
  unfold ask
  split <;> simp_all [eq_comm]

theorem ask_of_ok {question : Program → Except Fault α} {session : Session τ}
    (answered : question session.program = .ok answer) :
    (ask question : Canon τ α) session = .ok answer session :=
  ask_eq_ok_iff.mpr ⟨answered, rfl⟩

theorem perform_eq_ok_iff {edit : Edit α} :
    perform edit before = .ok answer after ↔
      ∃ program, edit before.program = .ok answer program ∧
        after = { before with program } := by
  unfold perform
  cases edit before.program with
  | ok value program => simp [@eq_comm _ after, and_assoc]
  | error fault program => simp

theorem fail_eq_ok_iff {cause : Cause} :
    (fail cause : Canon τ α) before = .ok answer after ↔ False := by
  simp [fail, StructuralTypes.bind_eq_ok_iff, throw_eq_ok_iff]

theorem unsupported_eq_ok_iff {form : Unsupported} :
    (unsupported form : Canon τ α) before = .ok answer after ↔ False :=
  fail_eq_ok_iff

theorem fault_eq_ok_iff {fault : Fault} :
    (Canon.fault fault : Canon τ α) before = .ok answer after ↔ False :=
  throw_eq_ok_iff

theorem count_eq_ok_iff {change : Tally → Tally} {answer : Unit} :
    (count change : Canon τ Unit) before = .ok answer after ↔
      after =
        { before with own := { before.own with tally := change before.own.tally } } :=
  modify_eq_ok_iff

theorem inScope_eq_ok_iff {scope : ScopeRef} {action : Canon τ α} :
    inScope scope action before = .ok answer after ↔
      ∃ inner, action { before with scope } = .ok answer inner ∧
        after = { inner with scope := before.scope } := by
  unfold inScope
  cases action { before with scope } with
  | ok value inner => simp [@eq_comm _ after, and_assoc]
  | error halt inner => simp

end Canon

/-! ## Walks -/

namespace Walk

variable {ε σ α : Type} {before after : Walker σ} {answer : α}

theorem ask_eq_ok_iff {question : Program → Except Fault α} :
    (ask question : Walk ε σ α) before = .ok answer after ↔
      question before.program = .ok answer ∧ after = before := by
  unfold ask
  split <;> simp_all [eq_comm]

theorem ask_of_ok {question : Program → Except Fault α} {walker : Walker σ}
    (answered : question walker.program = .ok answer) :
    (ask question : Walk ε σ α) walker = .ok answer walker :=
  ask_eq_ok_iff.mpr ⟨answered, rfl⟩

theorem perform_eq_ok_iff {edit : Edit α} :
    (perform edit : Walk ε σ α) before = .ok answer after ↔
      ∃ program, edit before.program = .ok answer program ∧
        after = { before with program } := by
  unfold perform
  cases edit before.program with
  | ok value program => simp [@eq_comm _ after, and_assoc]
  | error fault program => simp

theorem fault_eq_ok_iff {fault : Fault} :
    (Walk.fault fault : Walk ε σ α) before = .ok answer after ↔ False :=
  throw_eq_ok_iff

theorem focus_eq_ok_iff {π : Type} {part : σ → π} {replace : σ → π → σ}
    {walk : Walk ε π α} :
    focus part replace walk before = .ok answer after ↔
      ∃ inner, walk ⟨before.program, part before.own⟩ = .ok answer inner ∧
        after = ⟨inner.program, replace before.own inner.own⟩ := by
  unfold focus
  cases walk ⟨before.program, part before.own⟩ with
  | ok value inner => simp [@eq_comm _ after, and_assoc]
  | error halt inner => simp

end Walk

theorem Canon.within_eq_ok_iff {τ α : Type} {statement : StatementRef}
    {scope : ScopeRef} {action : Canon τ α} {before after : Walker (Progress τ)}
    {answer : α} :
    Canon.within statement scope action before = .ok answer after ↔
      ∃ inner, action { before with scope, statement } = .ok answer inner ∧
        after = inner.toWalker := by
  unfold Canon.within
  cases action { before with scope, statement } with
  | ok value inner => simp [@eq_comm _ after, and_assoc]
  | error halt inner => simp

end StructuralTypes
