import StructuralTypes.Canonical.Key
import StructuralTypes.Canonical.Session

/-! The one place where canonical declarations come into being. A type settles on
the declaration that the current scope already has under its name; if there is
none, a declaration of the type itself is created and placed among the statements. -/

namespace StructuralTypes

inductive Placement where
  /-- In the shared body, after the synthesized declarations already there. -/
  | shared
  /-- Right after the declaration of an element type. -/
  | afterElement (element : SymbolRef)
  | before (statement : StatementRef)
  deriving DecidableEq, Repr

/-- A placement whose statement is known. -/
inductive Position where
  | shared
  | after (statement : StatementRef)
  | before (statement : StatementRef)
  deriving DecidableEq, Repr

def Position.link (declaration : StatementRef) :
    Position → Layout → Except Fault Layout
  | .shared, layout => layout.placeSynthesized Program.sharedBody declaration
  | .after anchor, layout => layout.insertAfter anchor declaration
  | .before anchor, layout => layout.insertBefore anchor declaration

def Program.linkedDeclaration? (program : Program) (symbol : SymbolRef) :
    Except Fault (Option StatementRef) := do
  match (← program.symbol symbol).definition.statement? with
  | none => return none
  | some declaration =>
      return (← program.layout.bodyOf declaration).map fun _ => declaration

def Edit.introduce (scope : ScopeRef) (name : NameRef) (fresh : TypeRef)
    (position : Position) : Edit Unit := do
  let symbol ← addSymbol
    { name, kind := .type, type := fresh, scope, definition := .absent }
  setTypeSymbol fresh (some symbol)
  let declaration ← addStatement (.synthesizedType symbol)
  setDefinition symbol (.statement declaration)
  bind scope name symbol
  changeLayout (position.link declaration)

inductive Settled where
  | reused (type : TypeRef)
  | created (type : TypeRef)
  deriving DecidableEq, Repr

def Settled.type : Settled → TypeRef
  | .reused type | .created type => type

namespace Canon

variable {τ : Type}

def locate (fresh : TypeRef) : Placement → Canon τ Position
  | .shared => return .shared
  | .before statement => return .before statement
  | .afterElement element => do
      match ← ask (·.linkedDeclaration? element) with
      | some declaration => return .after declaration
      | none =>
          fail (.unanchored (← ask (·.shape fresh)) (← ask (·.symbolName element)))

/-- Settle `fresh` under the name `text` in the current scope. The position of a
new declaration is found first, so a failure leaves nothing half declared. -/
def settle (text : String) (fresh : TypeRef) (placement : Placement) :
    Canon τ Settled := do
  let scope := (← get).scope
  let name ← perform (.intern text)
  match ← ask (·.lookup scope name) with
  | some existing =>
      count .countReused
      return .reused (← ask (·.symbol existing)).type
  | none =>
      let position ← locate fresh placement
      perform (.introduce scope name fresh position)
      let shape ← ask (·.shape fresh)
      count (·.countCreated shape)
      return .created fresh

def settleShared (key : CanonicalKey) (fresh : TypeRef) : Canon τ TypeRef :=
  inScope Program.sharedScope
    (return (← settle key.name fresh .shared).type)

end Canon

end StructuralTypes
