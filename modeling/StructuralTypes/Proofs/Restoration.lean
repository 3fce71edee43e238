import StructuralTypes.Proofs.Interruption

/-! What a canonicalization leaves of its session. Scopes are switched on the way, and each switch
is undone where it ends, whatever comes of it. So the scope and the statement are those from before
in the end, and what fails names that statement. -/

namespace StructuralTypes

/-- The cause is not that a variable is missing from the scope it is looked up in. -/
def Cause.Bound (cause : Cause) : Prop :=
  ∀ name, cause ≠ .unboundVariable name

structure Session.Situated {τ : Type} (before after : Session τ) : Prop where
  scope : after.scope = before.scope
  statement : after.statement = before.statement

theorem Session.Situated.trans {τ : Type} {before middle after : Session τ}
    (first : before.Situated middle) (second : middle.Situated after) : before.Situated after where
  scope := second.scope.trans first.scope
  statement := second.statement.trans first.statement

namespace Canon

/-- However the action ends, the session has the scope and the statement that it had. A failure
names that statement, and its cause is one that the action `may` have. -/
structure Restores {τ α : Type} (may : Cause → Prop) (action : Canon τ α) : Prop where
  stays : ∀ before : Session τ, before.Situated (endState (action before))
  failed : ∀ before failure after, action before = .error (.failed failure) after →
    failure.statement = before.statement ∧ may failure.cause

variable {τ α β : Type} {may : Cause → Prop}

/-! ## Parts of an action -/

theorem Restores.weaken {more : Cause → Prop} {action : Canon τ α} (restores : Restores may action)
    (wider : ∀ cause, may cause → more cause) : Restores more action where
  stays := restores.stays
  failed before failure after ran :=
    (restores.failed before failure after ran).imp_right (wider _)

theorem Restores.bind {first : Canon τ α} {rest : α → Canon τ β} (restores : Restores may first)
    (later : ∀ value, Restores may (rest value)) : Restores may (first >>= rest) where
  stays before :=
    endState_bind (fun after => before.Situated after) (restores.stays before)
      fun value middle _ stays => stays.trans ((later value).stays middle)
  failed before failure after ran := by
    rcases bind_eq_error_iff.mp ran with ran | ⟨value, middle, ran, failed⟩
    · exact restores.failed before failure after ran
    · have stays := restores.stays before
      rw [ran] at stays
      exact ((later value).failed middle failure after failed).imp_left (·.trans stays.statement)

theorem restores_of_stays {action : Canon τ α}
    (unfailing : ∀ before failure after, action before ≠ .error (.failed failure) after)
    (stays : ∀ before : Session τ, before.Situated (endState (action before))) :
    Restores may action where
  stays := stays
  failed before failure after ran := absurd ran (unfailing before failure after)

theorem restores_pure (value : α) : Restores may (pure value : Canon τ α) :=
  restores_of_stays (fun _ _ _ => pure_eq_error_iff.mp) fun _ => ⟨rfl, rfl⟩

theorem restores_get : Restores may (get : Canon τ (Session τ)) :=
  restores_of_stays (fun _ _ _ => get_eq_error_iff.mp) fun _ => ⟨rfl, rfl⟩

theorem restores_ask (question : Program → Except Fault α) :
    Restores may (ask question : Canon τ α) := by
  refine restores_of_stays (fun _ _ _ => ask_eq_failed_iff.mp) fun before => ?_
  unfold ask
  split <;> exact ⟨rfl, rfl⟩

theorem restores_perform (edit : Edit α) : Restores may (perform edit : Canon τ α) := by
  refine restores_of_stays (fun _ _ _ => perform_eq_failed_iff.mp) fun before => ?_
  unfold perform
  split <;> exact ⟨rfl, rfl⟩

theorem restores_modify (change : Session τ → Progress τ) :
    Restores may (modify fun session => { session with own := change session } : Canon τ Unit) :=
  restores_of_stays (fun _ _ _ => modify_eq_error_iff.mp) fun _ => ⟨rfl, rfl⟩

theorem restores_fault (fault : Fault) : Restores may (Canon.fault fault : Canon τ α) :=
  restores_of_stays (fun _ _ _ => fault_eq_failed_iff.mp) fun _ => ⟨rfl, rfl⟩

theorem restores_fail {cause : Cause} (allowed : may cause) :
    Restores may (fail cause : Canon τ α) where
  stays _ := ⟨rfl, rfl⟩
  failed before failure after ran := by
    rw [(fail_eq_failed_iff.mp ran).1]
    exact ⟨rfl, allowed⟩

theorem Restores.inScope {scope : ScopeRef} {action : Canon τ α} (restores : Restores may action) :
    Restores may (inScope scope action) where
  stays before := by
    have stays := restores.stays { before with scope }
    unfold Canon.inScope
    split <;> rename_i ran <;> rw [ran] at stays <;> exact ⟨rfl, stays.statement⟩
  failed before failure after ran := by
    rcases inScope_eq_error_iff.mp ran with ⟨inner, stopped, -⟩
    exact restores.failed { before with scope } failure inner stopped

theorem restores_unsupported (form : Unsupported) :
    Restores Cause.Bound (unsupported form : Canon τ α) :=
  restores_fail fun _ => nofun

/-! ## Actions that look up no variable -/

theorem restores_settle (text : String) (fresh : TypeRef) (placement : Placement) :
    Restores Cause.Bound (settle text fresh placement : Canon τ Settled) := by
  refine restores_get.bind fun session => (restores_perform _).bind fun name =>
    (restores_ask _).bind fun found => ?_
  cases found with
  | some existing =>
      exact (restores_modify _).bind fun _ => (restores_ask _).bind fun _ => restores_pure _
  | none =>
      refine Restores.bind ?_ fun position => (restores_perform _).bind fun _ =>
        (restores_ask _).bind fun shape => (restores_modify _).bind fun _ => restores_pure _
      cases placement with
      | shared | before => exact restores_pure _
      | afterElement element =>
          refine (restores_ask _).bind fun declaration => ?_
          cases declaration with
          | some declaration => exact restores_pure _
          | none =>
              exact (restores_ask _).bind fun _ => (restores_ask _).bind fun _ =>
                restores_fail fun _ => nofun

theorem restores_settleShared (key : CanonicalKey) (fresh : TypeRef) :
    Restores Cause.Bound (settleShared key fresh : Canon τ TypeRef) :=
  ((restores_settle _ _ _).bind fun _ => restores_pure _).inScope

theorem restores_expectAnonymous (type : TypeRef) :
    Restores Cause.Bound (expectAnonymous type : Canon τ Unit) := by
  refine (restores_ask _).bind fun name => ?_
  cases name with
  | none => exact restores_pure _
  | some name => exact (restores_ask _).bind fun _ => restores_fail fun _ => nofun

theorem restores_domain (type : TypeRef) :
    Restores Cause.Bound (domain type : Canon τ TypeRef) := by
  refine (restores_ask _).bind fun form => ?_
  cases form with
  | domain rank parent companion =>
      refine (restores_expectAnonymous type).bind fun _ => ?_
      cases parent with
      | some parent => exact restores_unsupported _
      | none => exact (restores_perform _).bind fun _ => restores_settleShared _ _
  | _ => exact restores_fail fun _ => nofun

theorem restores_componentNames (position : Nat) (components : List TypeRef) :
    Restores Cause.Bound (componentNames position components : Canon τ (List String)) := by
  induction components generalizing position with
  | nil => exact restores_pure _
  | cons component rest induction =>
      refine (restores_ask _).bind fun name => ?_
      cases name with
      | none => exact restores_unsupported _
      | some name => exact (induction _).bind fun _ => restores_pure _

theorem restores_tuple (type : TypeRef) :
    Restores Cause.Bound (tuple type : Canon τ TypeRef) := by
  refine (restores_ask _).bind fun form => ?_
  cases form with
  | tuple components =>
      exact (restores_expectAnonymous type).bind fun _ =>
        (restores_componentNames 0 components).bind fun _ => restores_settleShared _ _
  | _ => exact restores_fail fun _ => nofun

theorem restores_rangeDomain (range : ExpressionRef) :
    Restores Cause.Bound (rangeDomain range : Canon τ (TypeRef × Nat)) := by
  refine (restores_ask _).bind fun expression => ?_
  split
  · refine (restores_ask _).bind fun single => ?_
    cases single with
    | reference symbol =>
        refine (restores_ask _).bind fun _ => (restores_ask _).bind fun form => ?_
        cases form with
        | domain rank parent companion => exact restores_pure _
        | _ => exact (restores_ask _).bind fun _ => restores_unsupported _
    | _ => exact restores_unsupported _
  · exact restores_unsupported _
  · exact restores_unsupported _

def keyOfBound (name : NameRef) (found : SymbolRef) : Canon τ CanonicalKey := do
  let denoted := (← ask (·.symbol found)).type
  match ← ask (·.shape denoted) with
  | .domain =>
      match ← ask (·.typeName? denoted) with
      | some text => return .indexOfDomain text
      | none => unsupported .anonymousDomain
  | _ => unsupported (.notDomain (← ask (·.names.text name)))

theorem restores_keyOfBound (name : NameRef) (found : SymbolRef) :
    Restores Cause.Bound (keyOfBound name found : Canon τ CanonicalKey) := by
  refine (restores_ask _).bind fun record => (restores_ask _).bind fun shape => ?_
  cases shape with
  | domain =>
      refine (restores_ask _).bind fun text => ?_
      cases text with
      | none => exact restores_unsupported _
      | some text => exact restores_pure _
  | _ => exact (restores_ask _).bind fun _ => restores_unsupported _

/-! ## What is done once an element has settled -/

def fillElement (shape : Shape) (type canonical : TypeRef) : Canon τ (SymbolRef × Home) := do
  perform (.changeForm type (·.withElement canonical))
  let symbol ← elementSymbol shape canonical
  return (symbol, ← ask (·.homeBeside symbol))

def settleArray (type : TypeRef) (range : ExpressionRef) (element : SymbolRef × Home) :
    Canon τ TypeRef :=
  inScope element.2.scope do
    let (domain, rank) ← rangeDomain range
    let name ← ask (·.symbolName element.1)
    match ← settle (CanonicalKey.array name rank).name type element.2.placement with
    | .reused existing => return existing
    | .created created =>
        perform (.changeForm created (·.withDomain domain))
        return created

def settleSequence (hook : SequenceHook τ) (type : TypeRef) (element : SymbolRef × Home) :
    Canon τ TypeRef := do
  let settled ← inScope element.2.scope do
    let name ← ask (·.symbolName element.1)
    settle (CanonicalKey.sequence name).name type element.2.placement
  match settled with
  | .reused existing => return existing
  | .created created =>
      materialize hook created
      return created

theorem restores_fillElement (shape : Shape) (type canonical : TypeRef) :
    Restores Cause.Bound (fillElement shape type canonical : Canon τ (SymbolRef × Home)) := by
  refine (restores_perform _).bind fun _ => Restores.bind ?_ fun symbol =>
    (restores_ask _).bind fun _ => restores_pure _
  refine (restores_ask _).bind fun symbol => ?_
  cases symbol with
  | some symbol => exact restores_pure _
  | none => exact (restores_ask _).bind fun _ => restores_unsupported _

theorem restores_settleArray (type : TypeRef) (range : ExpressionRef)
    (element : SymbolRef × Home) :
    Restores Cause.Bound (settleArray type range element : Canon τ TypeRef) := by
  refine Restores.inScope ((restores_rangeDomain range).bind fun denoted =>
    (restores_ask _).bind fun name => (restores_settle _ _ _).bind fun settled => ?_)
  cases settled with
  | reused existing => exact restores_pure _
  | created created => exact (restores_perform _).bind fun _ => restores_pure _

theorem restores_materialize (hook : SequenceHook τ) (type : TypeRef) :
    Restores may (materialize hook type) :=
  restores_get.bind fun _ => (restores_perform _).bind fun _ => restores_modify _

theorem restores_settleSequence (hook : SequenceHook τ) (type : TypeRef)
    (element : SymbolRef × Home) :
    Restores Cause.Bound (settleSequence hook type element) := by
  refine (Restores.inScope ((restores_ask _).bind fun name => restores_settle _ _ _)).bind
    fun settled => ?_
  cases settled with
  | reused existing => exact restores_pure _
  | created created => exact (restores_materialize hook _).bind fun _ => restores_pure _

/-! ## Actions that may look up a variable -/

def anyCause : Cause → Prop := fun _ => True

theorem Restores.any {action : Canon τ α} (restores : Restores may action) :
    Restores anyCause action :=
  restores.weaken fun _ _ => trivial

theorem restores_indexKey (subject : ExpressionRef) (scope : ScopeRef) :
    Restores anyCause (indexKey subject scope : Canon τ CanonicalKey) := by
  refine (restores_ask _).bind fun expression => ?_
  cases expression with
  | literal value => exact restores_pure _
  | iteration domains => exact (restores_unsupported _).any
  | reference symbol =>
      refine (restores_ask _).bind fun record => (restores_ask _).bind fun found => ?_
      cases found with
      | none => exact (restores_ask _).bind fun _ => restores_fail trivial
      | some found => exact (restores_keyOfBound record.name found).any

theorem restores_index (type : TypeRef) (scope : ScopeRef) :
    Restores anyCause (index type scope : Canon τ TypeRef) := by
  refine (restores_ask _).bind fun form => ?_
  cases form with
  | index subject =>
      exact (restores_expectAnonymous type).any.bind fun _ =>
        (restores_indexKey subject scope).bind fun _ => (restores_settleShared _ _).any
  | _ => exact restores_fail trivial

theorem restores_indexOrSelf (type : TypeRef) (scope : ScopeRef) :
    Restores anyCause (indexOrSelf type scope : Canon τ TypeRef) := by
  refine (restores_ask _).bind fun shape => ?_
  cases shape with
  | index => exact restores_index type scope
  | _ => exact restores_pure _

section

variable {action : TypeRef → Canon τ TypeRef} (restores : ∀ type, Restores anyCause (action type))
include restores

theorem restores_settleElement (shape : Shape) (type element : TypeRef) :
    Restores anyCause (settleElement shape action type element) :=
  (restores element).bind fun canonical => (restores_fillElement shape type canonical).any

theorem restores_arrayWith (type : TypeRef) : Restores anyCause (arrayWith action type) := by
  refine (restores_ask _).bind fun form => ?_
  cases form with
  | array element range recorded =>
      exact (restores_expectAnonymous type).any.bind fun _ =>
        (restores_settleElement restores .array type element).bind fun answer =>
          (restores_settleArray type range answer).any
  | _ => exact restores_fail trivial

theorem restores_sequenceWith (hook : SequenceHook τ) (type : TypeRef) :
    Restores anyCause (sequenceWith hook action type) := by
  refine (restores_ask _).bind fun form => ?_
  cases form with
  | sequence element =>
      exact (restores_expectAnonymous type).any.bind fun _ =>
        (restores_settleElement restores .sequence type element).bind fun answer =>
          (restores_settleSequence hook type answer).any
  | _ => exact restores_fail trivial

theorem restores_elementWith (element : TypeRef) :
    Restores anyCause (elementWith action element) := by
  refine (restores_ask _).bind fun symbol => ?_
  cases symbol with
  | some symbol => exact restores_pure _
  | none =>
      refine (restores_ask _).bind fun shape => ?_
      cases shape with
      | index => exact restores_get.bind fun session => restores_index element _
      | _ => exact restores element

end

theorem restores_compositeWithin (hook : SequenceHook τ) (depth : Nat) (type : TypeRef) :
    Restores anyCause (compositeWithin hook depth type) := by
  induction depth generalizing type with
  | zero => exact restores_fault _
  | succ depth induction =>
      have elements := restores_elementWith induction
      refine (restores_ask _).bind fun shape => ?_
      cases shape with
      | array => exact restores_arrayWith elements type
      | domain => exact (restores_domain type).any
      | tuple => exact (restores_tuple type).any
      | sequence => exact restores_sequenceWith elements hook type
      | _ => exact restores_pure _

theorem restores_nesting : Restores may (nesting : Canon τ Nat) :=
  restores_get.bind fun _ => restores_pure _

theorem restores_composite (hook : SequenceHook τ) (type : TypeRef) :
    Restores anyCause (composite hook type) :=
  restores_nesting.bind fun _ => restores_compositeWithin hook _ type

theorem restores_declaredType (hook : SequenceHook τ) (type : TypeRef) (scope : ScopeRef) :
    Restores anyCause (declaredType hook type scope) :=
  (restores_composite hook type).bind fun canonical => restores_indexOrSelf canonical scope

end Canon

end StructuralTypes
