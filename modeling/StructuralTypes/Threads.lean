import StructuralTypes.Layout

/-! Bodies as doubly linked lists. Each statement is stored once, with the body that
it is linked into and its neighbours there, and a body knows its two ends, so that a
statement is linked or followed in a fixed number of steps. Every change of an order
is checked first and then written link by link. -/

namespace StructuralTypes

/-- A statement with its neighbours in the body that it is linked into. -/
structure Cell where
  statement : Statement
  body : Option BodyRef := none
  previous : Option StatementRef := none
  next : Option StatementRef := none
  deriving DecidableEq, Repr

structure Thread where
  scope : ScopeRef
  first : Option StatementRef := none
  last : Option StatementRef := none
  /-- The synthesized statement placed most recently. -/
  lastSynthesized : Option StatementRef := none
  deriving DecidableEq, Repr

inductive Direction where
  | backward
  | forward
  deriving DecidableEq, Repr

def Direction.reverse : Direction → Direction
  | .backward => .forward
  | .forward => .backward

def Cell.neighbour (cell : Cell) : Direction → Option StatementRef
  | .backward => cell.previous
  | .forward => cell.next

def Cell.point (cell : Cell) (way : Direction) (neighbour : Option StatementRef) : Cell :=
  match way with
  | .backward => { cell with previous := neighbour }
  | .forward => { cell with next := neighbour }

def Thread.extend (thread : Thread) (way : Direction) (new : StatementRef) : Thread :=
  match way with
  | .backward => { thread with first := some new }
  | .forward => { thread with last := some new }

structure Threads where
  cells : Arena .statement Cell := {}
  bodies : Arena .body Thread := {}

namespace Threads

def bodyOf (threads : Threads) (ref : StatementRef) : Except Fault (Option BodyRef) :=
  return (← threads.cells.get ref).body

def next (threads : Threads) (ref : StatementRef) :
    Except Fault (Option StatementRef) :=
  return (← threads.cells.get ref).next

/-! ## Reading a body -/

def advance (threads : Threads) :
    Option StatementRef → Except Fault (Option (StatementRef × Option StatementRef))
  | none => return none
  | some current => return some (current, ← threads.next current)

def read (threads : Threads) : (steps : Nat) → Option StatementRef →
    Except Fault (List StatementRef × Option StatementRef)
  | 0, cursor => return ([], cursor)
  | steps + 1, cursor => do
      match ← threads.advance cursor with
      | none => return ([], none)
      | some (current, rest) =>
          let (found, stop) ← threads.read steps rest
          return (current :: found, stop)

def readBody (threads : Threads) (steps : Nat) (body : BodyRef) :
    Except Fault (List StatementRef × Option StatementRef) := do
  threads.read steps (← threads.bodies.get body).first

def order (threads : Threads) (body : BodyRef) : Except Fault (List StatementRef) :=
  return (← threads.readBody threads.cells.size body).1

def content (threads : Threads) (body : BodyRef) : Except Fault Body := do
  let thread ← threads.bodies.get body
  return { thread with order := ← threads.order body }

def layout (threads : Threads) : Except Fault Layout := do
  let statements := threads.cells.entries.map fun cell => { cell with }
  let bodies ← threads.bodies.refs.mapM threads.content
  return { statements := ⟨statements⟩, bodies := ⟨bodies.toArray⟩ }

end Threads

abbrev Threading := EStateM Fault Threads

namespace Threading

variable {α : Type}

def ask (question : Threads → Except Fault α) : Threading α := fun threads =>
  match question threads with
  | .ok answer => .ok answer threads
  | .error fault => .error fault threads

def changeCell (ref : StatementRef) (change : Cell → Cell) : Threading Unit :=
  fun threads =>
    match threads.cells.modify ref change with
    | .ok cells => .ok () { threads with cells }
    | .error fault => .error fault threads

def changeThread (body : BodyRef) (change : Thread → Thread) : Threading Unit :=
  fun threads =>
    match threads.bodies.modify body change with
    | .ok bodies => .ok () { threads with bodies }
    | .error fault => .error fault threads

/-! ## New entries -/

def addBody (scope : ScopeRef) : Threading BodyRef := fun threads =>
  .ok threads.bodies.next { threads with bodies := threads.bodies.push { scope } }

def addStatement (statement : Statement) : Threading StatementRef := fun threads =>
  .ok threads.cells.next { threads with cells := threads.cells.push { statement } }

/-! ## Linking -/

/-- Say that `new` belongs to `body`, unless it has a place already. -/
def claim (new : StatementRef) (body : BodyRef) : Threading Unit := do
  match ← ask (·.bodyOf new) with
  | some holder => throw (.alreadyLinked new holder)
  | none => changeCell new fun cell => { cell with body := some body }

def anchorBody (anchor : StatementRef) : Threading BodyRef := do
  match ← ask (·.bodyOf anchor) with
  | some body => return body
  | none => throw (.anchorUnlinked anchor)

/-- Tie `new`, which belongs to `body`, between `anchor` and its neighbour in a
direction. -/
def tie (way : Direction) (body : BodyRef) (anchor new : StatementRef) :
    Threading Unit := do
  let beyond := (← ask (·.cells.get anchor)).neighbour way
  changeCell new (·.point way.reverse (some anchor))
  changeCell new (·.point way beyond)
  changeCell anchor (·.point way (some new))
  match beyond with
  | some beyond => changeCell beyond (·.point way.reverse (some new))
  | none => changeThread body (·.extend way new)

def insertBeside (way : Direction) (anchor new : StatementRef) : Threading Unit := do
  let body ← anchorBody anchor
  claim new body
  tie way body anchor new

def insertAfter (anchor new : StatementRef) : Threading Unit :=
  insertBeside .forward anchor new

def insertBefore (anchor new : StatementRef) : Threading Unit :=
  insertBeside .backward anchor new

def append (body : BodyRef) (new : StatementRef) : Threading Unit := do
  match (← ask (·.bodies.get body)).last with
  | some last => insertAfter last new
  | none =>
      claim new body
      changeThread body fun thread =>
        { thread with first := some new, last := some new }

def prepend (body : BodyRef) (new : StatementRef) : Threading Unit := do
  match (← ask (·.bodies.get body)).first with
  | some first => insertBefore first new
  | none => append body new

def placeSynthesized (body : BodyRef) (new : StatementRef) : Threading Unit := do
  match (← ask (·.bodies.get body)).lastSynthesized with
  | some last => insertAfter last new
  | none => prepend body new
  changeThread body fun thread => { thread with lastSynthesized := some new }

end Threading

end StructuralTypes
