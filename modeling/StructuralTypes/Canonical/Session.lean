import StructuralTypes.Canonical.Failure
import StructuralTypes.Canonical.Tally
import StructuralTypes.Walk

/-! Canonicalizing the types of one statement. A session carries the program, the
counts so far, the journal of the sequence hook, the statement, and the scope that
canonical declarations are looked up and bound in. -/

namespace StructuralTypes

/-- Called with each sequence type that becomes canonical, right after its
declaration is placed. It may add to the program, and keeps a journal. -/
structure SequenceHook (τ : Type) where
  materialize : TypeRef → τ → Edit τ

namespace SequenceHook

def silent : SequenceHook Unit where
  materialize _ _ := pure ()

def recording : SequenceHook (List TypeRef) where
  materialize type calls := pure (calls ++ [type])

end SequenceHook

structure Progress (τ : Type) where
  tally : Tally := {}
  journal : τ

structure Session (τ : Type) extends Walker (Progress τ) where
  scope : ScopeRef
  statement : StatementRef

abbrev Canon (τ : Type) := EStateM (Halt Failure) (Session τ)

namespace Canon

variable {τ α : Type}

def fault (fault : Fault) : Canon τ α :=
  throw (.fault fault)

def fail (cause : Cause) : Canon τ α := do
  throw (.failed ⟨(← get).statement, cause⟩)

def unsupported (form : Unsupported) : Canon τ α :=
  fail (.unsupported form)

def ask (question : Program → Except Fault α) : Canon τ α := fun session =>
  match question session.program with
  | .ok answer => .ok answer session
  | .error fault => .error (.fault fault) session

def perform (edit : Edit α) : Canon τ α := fun session =>
  match edit session.program with
  | .ok answer program => .ok answer { session with program }
  | .error fault program => .error (.fault fault) { session with program }

def count (change : Tally → Tally) : Canon τ Unit :=
  modify fun session =>
    { session with own := { session.own with tally := change session.own.tally } }

def materialize (hook : SequenceHook τ) (type : TypeRef) : Canon τ Unit := do
  let journal ← perform (hook.materialize type (← get).own.journal)
  modify fun session => { session with own := { session.own with journal } }

/-- Run `action` with `scope` as the current scope. The scope from before is back
in place afterwards, however the action ends. -/
def inScope (scope : ScopeRef) (action : Canon τ α) : Canon τ α := fun session =>
  match action { session with scope } with
  | .ok answer after => .ok answer { after with scope := session.scope }
  | .error halt after => .error halt { after with scope := session.scope }

@[simp] theorem scope_inScope (scope : ScopeRef) (action : Canon τ α)
    (session : Session τ) :
    (endState (inScope scope action session)).scope = session.scope := by
  unfold inScope
  split <;> rfl

def within (statement : StatementRef) (scope : ScopeRef) (action : Canon τ α) :
    Walk Failure (Progress τ) α := fun walker =>
  match action { walker with scope, statement } with
  | .ok answer after => .ok answer after.toWalker
  | .error halt after => .error halt after.toWalker

end Canon

end StructuralTypes
