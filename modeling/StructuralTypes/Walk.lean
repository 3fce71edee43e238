import StructuralTypes.Program.Edit

/-! Walks over the statements of a program and the types of what they declare.

A traversal reacts to three events: entering a statement, visiting a type and
leaving a statement. The order of the statements is fixed when a walk over the
program starts, so a declaration inserted on the way is not entered by the same
walk. What a statement declares is typed, and what parts a type has, is read
after the traversal has reacted to the statement or the type, so the walk follows
the changes made there. -/

namespace StructuralTypes

inductive Halt (ε : Type) where
  | failed (failure : ε)
  | fault (fault : Fault)
  deriving DecidableEq, Repr

def endState {ε σ α : Type} : EStateM.Result ε σ α → σ
  | .ok _ state | .error _ state => state

structure Walker (σ : Type) where
  program : Program
  own : σ

abbrev Walk (ε σ : Type) := EStateM (Halt ε) (Walker σ)

namespace Walk

variable {ε σ α : Type}

def fault (fault : Fault) : Walk ε σ α :=
  throw (.fault fault)

def fail (failure : ε) : Walk ε σ α :=
  throw (.failed failure)

def ask (question : Program → Except Fault α) : Walk ε σ α := fun walker =>
  match question walker.program with
  | .ok answer => .ok answer walker
  | .error fault => .error (.fault fault) walker

def perform (edit : Edit α) : Walk ε σ α := fun walker =>
  match edit walker.program with
  | .ok answer program => .ok answer { walker with program }
  | .error fault program => .error (.fault fault) { walker with program }

def update (change : σ → σ) : Walk ε σ Unit :=
  modify fun walker => { walker with own := change walker.own }

/-- Run a walk whose own state is a part of this one's. -/
def focus {π : Type} (part : σ → π) (replace : σ → π → σ) (walk : Walk ε π α) :
    Walk ε σ α := fun walker =>
  match walk ⟨walker.program, part walker.own⟩ with
  | .ok answer after => .ok answer ⟨after.program, replace walker.own after.own⟩
  | .error halt after => .error halt ⟨after.program, replace walker.own after.own⟩

end Walk

structure Traversal (ε σ : Type) where
  enterStatement : StatementRef → Walk ε σ Unit
  visitType : TypeRef → Walk ε σ Unit := fun _ => pure ()
  leaveStatement : StatementRef → Walk ε σ Unit := fun _ => pure ()
  /-- How deep a walk may go into the types of the given program. The types on a
  path of nested forms are distinct, so there are no more of them than the program
  has. A traversal that changes forms on the way needs a bound of its own. -/
  nesting : Program → Nat := fun program => program.types.size + 1

namespace Traversal

variable {ε σ : Type} (traversal : Traversal ε σ)

/-- Visit a type and then its parts, each in the same way. -/
def walkTypeWithin : (depth : Nat) → TypeRef → Walk ε σ Unit
  | 0, _ => Walk.fault .nestingLimit
  | depth + 1, type => do
      traversal.visitType type
      let form ← Walk.ask (·.form type)
      form.children.forM (walkTypeWithin depth)

def walkType (type : TypeRef) : Walk ε σ Unit := do
  traversal.walkTypeWithin (traversal.nesting (← get).program) type

def walkStatement (ref : StatementRef) : Walk ε σ Unit := do
  traversal.enterStatement ref
  match (← Walk.ask (·.statement ref)).declared? with
  | some symbol => traversal.walkType (← Walk.ask (·.symbol symbol)).type
  | none => pure ()
  traversal.leaveStatement ref

def walkProgram : Walk ε σ Unit := do
  let order ← Walk.ask (·.preorder)
  order.forM traversal.walkStatement

end Traversal

end StructuralTypes
