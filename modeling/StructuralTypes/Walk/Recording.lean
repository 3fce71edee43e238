import StructuralTypes.Program.Text
import StructuralTypes.Walk

/-! Traversals that keep a log: one line for each event, written as the program
stands when the event occurs. A script may change the program after each line,
and may end the walk. -/

namespace StructuralTypes

structure Log (ρ : Type) where
  lines : Array String := #[]
  own : ρ

structure Script (ρ : Type) where
  step : Nat → ρ → Edit ρ
  /-- Line after whose step the walk ends with its number as failure. -/
  failAt : Option Nat := none

namespace Script

variable {ρ : Type} (script : Script ρ)

def runStep (number : Nat) : Walk Nat (Log ρ) Unit := do
  let own ← Walk.perform (script.step number (← get).own.own)
  Walk.update fun log => { log with own }

def record (line : Program → Except Fault String) : Walk Nat (Log ρ) Unit := do
  let text ← Walk.ask line
  let number := (← get).own.lines.size
  Walk.update fun log => { log with lines := log.lines.push text }
  script.runStep number
  if script.failAt = some number then
    Walk.fail number

/-- The traversal that logs all three kinds of event. The script may change
types under the walk, so their nesting is bounded by `nesting` alone. -/
def traversal (nesting : Nat) : Traversal Nat (Log ρ) where
  enterStatement ref :=
    script.record fun program => return "pre " ++ (← program.statementText ref)
  visitType type :=
    script.record fun program => return "type " ++ (← program.typeText type)
  leaveStatement ref :=
    script.record fun program => return "post " ++ (← program.statementText ref)
  nesting _ := nesting

def statementTraversal : Traversal Nat (Log ρ) where
  enterStatement ref := script.record (·.statementText ref)

end Script

end StructuralTypes
