import StructuralTypes.Bindings
import StructuralTypes.Expression
import StructuralTypes.Layout
import StructuralTypes.Symbol
import StructuralTypes.TypeForm

/-! A program: its types, the expressions inside them, its symbols, scopes and
statements.

The intrinsic scope binds the primitives. The shared scope is nested in it and
belongs to the shared body, where canonical declarations without a lexical owner
go. Modules nest in the shared scope, blocks in the scope of their body. -/

namespace StructuralTypes

structure Program where
  names : NameTable
  types : Arena .type TypeNode
  expressions : Arena .expression Expression
  symbols : Arena .symbol Symbol
  scopes : Scopes
  layout : Layout
  /-- Bodies of the modules, in the order they were added. -/
  modules : List BodyRef

namespace Program

def intrinsicScope : ScopeRef := ⟨0⟩

def sharedScope : ScopeRef := ⟨1⟩

def sharedBody : BodyRef := ⟨0⟩

def primitiveType (primitive : Primitive) : TypeRef :=
  ⟨primitive.ordinal⟩

def primitiveSymbol (primitive : Primitive) : SymbolRef :=
  ⟨primitive.ordinal⟩

/-- The empty string is the first name, so that of a primitive comes one later. -/
def primitiveName (primitive : Primitive) : NameRef :=
  ⟨primitive.ordinal + 1⟩

/-- A program with the primitives and an empty shared body. -/
def initial : Program where
  names := ⟨⟨("" :: Primitive.all.map Primitive.name).toArray⟩⟩
  types := ⟨(Primitive.all.map fun primitive =>
    { form := .primitive primitive
      symbol := some (primitiveSymbol primitive) : TypeNode }).toArray⟩
  expressions := {}
  symbols := ⟨(Primitive.all.map fun primitive =>
    { name := primitiveName primitive
      kind := .type
      type := primitiveType primitive
      scope := intrinsicScope
      definition := .absent : Symbol }).toArray⟩
  scopes := ⟨#[
    { parent := none
      intrinsic := true
      shared := false
      bindings := Primitive.all.map fun primitive =>
        (primitiveName primitive, primitiveSymbol primitive) },
    { parent := some intrinsicScope, intrinsic := false, shared := true }]⟩
  layout := { bodies := ⟨#[{ scope := sharedScope }]⟩ }
  modules := []

variable (program : Program)

/-- Bodies that no block contains, in reading order. -/
def roots : List BodyRef :=
  sharedBody :: program.modules

def preorder : Except Fault (List StatementRef) :=
  program.layout.preorder program.roots

/-! ## Types and symbols -/

def form (type : TypeRef) : Except Fault TypeForm :=
  return (← program.types.get type).form

def shape (type : TypeRef) : Except Fault Shape :=
  return (← program.form type).shape

def typeSymbol? (type : TypeRef) : Except Fault (Option SymbolRef) :=
  return (← program.types.get type).symbol

def isNamed (type : TypeRef) : Except Fault Bool :=
  return (← program.typeSymbol? type).isSome

def symbol (ref : SymbolRef) : Except Fault Symbol :=
  program.symbols.get ref

def symbolName (ref : SymbolRef) : Except Fault String := do
  program.names.text (← program.symbol ref).name

def typeName? (type : TypeRef) : Except Fault (Option String) := do
  (← program.typeSymbol? type).mapM program.symbolName

def expression (ref : ExpressionRef) : Except Fault Expression :=
  program.expressions.get ref

/-- Symbol that `scope` itself binds `name` to. -/
def lookup (scope : ScopeRef) (name : NameRef) :
    Except Fault (Option SymbolRef) :=
  program.scopes.lookup scope name

/-! ## Statements -/

def statement (ref : StatementRef) : Except Fault Statement :=
  program.layout.statement ref

def statementScope? (ref : StatementRef) : Except Fault (Option ScopeRef) := do
  (← program.statement ref).declared?.mapM
    fun declared => return (← program.symbol declared).scope

end Program

end StructuralTypes
