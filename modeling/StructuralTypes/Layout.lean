import StructuralTypes.Arena
import StructuralTypes.Insertion
import StructuralTypes.Statement

/-! The statements of a program and their order. A statement is created without
a place and later linked into one body, where it stays. Every operation either
links exactly one statement or faults and leaves the layout alone. -/

namespace StructuralTypes

structure Placed where
  statement : Statement
  body : Option BodyRef := none
  deriving DecidableEq, Repr

structure Layout where
  statements : Arena .statement Placed := {}
  bodies : Arena .body Body := {}
  deriving DecidableEq

namespace Layout

def addBody (layout : Layout) (scope : ScopeRef) : BodyRef × Layout :=
  (layout.bodies.next, { layout with bodies := layout.bodies.push { scope } })

def addStatement (layout : Layout) (statement : Statement) :
    StatementRef × Layout :=
  (layout.statements.next,
    { layout with statements := layout.statements.push { statement } })

def statement (layout : Layout) (ref : StatementRef) : Except Fault Statement :=
  return (← layout.statements.get ref).statement

def bodyOf (layout : Layout) (ref : StatementRef) :
    Except Fault (Option BodyRef) :=
  return (← layout.statements.get ref).body

def order (layout : Layout) (body : BodyRef) : Except Fault (List StatementRef) :=
  return (← layout.bodies.get body).order

def scopeOf (layout : Layout) (body : BodyRef) : Except Fault ScopeRef :=
  return (← layout.bodies.get body).scope

def next (layout : Layout) (ref : StatementRef) :
    Except Fault (Option StatementRef) := do
  match ← layout.bodyOf ref with
  | none => return none
  | some body => return successor? ref (← layout.order body)

/-! ## Linking -/

/-- Link `new` into `body`, whose order `place` extends by it. -/
def link (layout : Layout) (body : BodyRef) (new : StatementRef)
    (place : List StatementRef → List StatementRef) : Except Fault Layout := do
  let bodies ← layout.bodies.modify body
    fun content => { content with order := place content.order }
  match ← layout.bodyOf new with
  | some holder => throw (.alreadyLinked new holder)
  | none =>
      let statements ← layout.statements.modify new
        fun placed => { placed with body := some body }
      return { statements, bodies }

theorem link_eq_ok_iff {layout linked : Layout} {body : BodyRef}
    {new : StatementRef} {place : List StatementRef → List StatementRef} :
    layout.link body new place = .ok linked ↔
      layout.bodyOf new = .ok none ∧
      layout.bodies.modify body
        (fun content => { content with order := place content.order }) =
          .ok linked.bodies ∧
      layout.statements.modify new
        (fun placed => { placed with body := some body }) =
          .ok linked.statements := by
  cases ordered : layout.bodies.modify body
      (fun content => { content with order := place content.order }) with
  | error fault => simp [link, ordered, bind, Except.bind]
  | ok bodies =>
      cases held : layout.bodyOf new with
      | error fault => simp [link, ordered, held, bind, Except.bind]
      | ok holder =>
          cases holder with
          | some holder =>
              simp [link, ordered, held, bind, Except.bind, throw, throwThe,
                MonadExceptOf.throw]
          | none =>
              cases placed : layout.statements.modify new
                  (fun placed => { placed with body := some body }) with
              | error fault =>
                  simp [link, ordered, held, placed, bind, Except.bind]
              | ok statements =>
                  simp only [link, ordered, held, placed, bind, Except.bind,
                    pure, Except.pure, Except.ok.injEq, true_and]
                  constructor
                  · intro equal
                    subst equal
                    exact ⟨rfl, rfl⟩
                  · intro holds
                    rcases holds with ⟨rfl, rfl⟩
                    rfl

def append (layout : Layout) (body : BodyRef) (new : StatementRef) :
    Except Fault Layout :=
  layout.link body new (· ++ [new])

def prepend (layout : Layout) (body : BodyRef) (new : StatementRef) :
    Except Fault Layout :=
  layout.link body new (new :: ·)

def anchorBody (layout : Layout) (anchor : StatementRef) :
    Except Fault BodyRef := do
  match ← layout.bodyOf anchor with
  | some body => return body
  | none => throw (.anchorUnlinked anchor)

def insertAfter (layout : Layout) (anchor new : StatementRef) :
    Except Fault Layout := do
  layout.link (← layout.anchorBody anchor) new
    (StructuralTypes.insertAfter anchor new)

def insertBefore (layout : Layout) (anchor new : StatementRef) :
    Except Fault Layout := do
  layout.link (← layout.anchorBody anchor) new
    (StructuralTypes.insertBefore anchor new)

/-- Link a synthesized declaration after the previous one of `body`, or at the
front if it is the first. Declarations so placed keep their creation order and
precede the statements that were appended. -/
def placeSynthesized (layout : Layout) (body : BodyRef) (new : StatementRef) :
    Except Fault Layout := do
  let linked ← match (← layout.bodies.get body).lastSynthesized with
    | some last => layout.insertAfter last new
    | none => layout.prepend body new
  let bodies ← linked.bodies.modify body
    fun content => { content with lastSynthesized := some new }
  return { linked with bodies }

/-! ## Reading order -/

def withInner (layout : Layout)
    (inner : BodyRef → Except Fault (List StatementRef)) (ref : StatementRef) :
    Except Fault (List StatementRef) := do
  match (← layout.statement ref).kind with
  | .block body => return ref :: (← inner body)
  | _ => return [ref]

/-- Statements of a body with those of each block right after the block, as far
as blocks nest at most `depth` deep. -/
def preorderWithin (layout : Layout) :
    (depth : Nat) → BodyRef → Except Fault (List StatementRef)
  | 0, _ => throw .nestingLimit
  | depth + 1, body => do
      let segments ← (← layout.order body).mapM
        (layout.withInner (layout.preorderWithin depth))
      return segments.flatten

/-- Bodies on a path of nested blocks are distinct, so there are no more of them
than the layout has. -/
def blockDepth (layout : Layout) : Nat :=
  layout.bodies.size + 1

/-- All statements reachable from `roots`, in reading order. -/
def preorder (layout : Layout) (roots : List BodyRef) :
    Except Fault (List StatementRef) := do
  let segments ← roots.mapM (layout.preorderWithin layout.blockDepth)
  return segments.flatten

end Layout

end StructuralTypes
