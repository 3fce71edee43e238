import StructuralTypes.Program.Edit

/-! Building up a program: its modules and blocks, the declarations in them, and
the types and expressions that the declarations use. -/

namespace StructuralTypes

namespace Edit

/-! ## Bodies -/

/-- Add a module. Its scope nests in the shared scope. -/
def addModule : Edit BodyRef := do
  let scope ← addScope
    { parent := some Program.sharedScope, intrinsic := false, shared := false }
  let body ← addBody scope
  update fun program => return { program with modules := program.modules ++ [body] }
  return body

def append (body : BodyRef) (statement : Statement) : Edit StatementRef := do
  let ref ← addStatement statement
  changeLayout (·.append body ref)
  return ref

def addBlock (body : BodyRef) : Edit BodyRef := do
  let parent ← ask (·.layout.scopeOf body)
  let scope ← addScope { parent := some parent, intrinsic := false, shared := false }
  let inner ← addBody scope
  let _ ← append body { kind := .block inner }
  return inner

/-! ## Declarations -/

/-- Declare a symbol by a statement at the end of `body`, and bind its name. -/
def declare (body : BodyRef) (text : String) (type : TypeRef)
    (kind : SymbolKind) : Edit SymbolRef := do
  let scope ← ask (·.layout.scopeOf body)
  let name ← intern text
  let symbol ← addSymbol { name, kind, type, scope, definition := .absent }
  let declaration ← append body
    { kind := match kind with
        | .type => .typeDeclaration symbol
        | .var => .varDeclaration symbol }
  setDefinition symbol (.statement declaration)
  bind scope name symbol
  return symbol

def declareVar (body : BodyRef) (text : String) (type : TypeRef) :
    Edit SymbolRef :=
  declare body text type .var

def declareType (body : BodyRef) (text : String) (type : TypeRef) :
    Edit SymbolRef := do
  let symbol ← declare body text type .type
  setTypeSymbol type (some symbol)
  return symbol

/-- Declare a variable that no statement declares, such as a parameter. -/
def declareDetachedVar (scope : ScopeRef) (text : String) (type : TypeRef) :
    Edit SymbolRef := do
  let name ← intern text
  let symbol ← addSymbol
    { name, kind := .var, type, scope, definition := .detached }
  bind scope name symbol
  return symbol

/-! ## Anonymous types -/

def addArray (element : TypeRef) (range : ExpressionRef) : Edit TypeRef :=
  addType (.array element range none)

def addDomain (rank : Nat) : Edit TypeRef :=
  addType (.domain rank none none)

/-- A domain with an anonymous companion, the index type of its rank. -/
def addDomainWithCompanion (rank : Nat) : Edit TypeRef := do
  let subject ← addExpression (.literal rank)
  let companion ← addType (.index subject)
  addType (.domain rank none (some companion))

def addNested (range : Option ExpressionRef) : (depth : Nat) → TypeRef → Edit TypeRef
  | 0, element => return element
  | depth + 1, element => do
      let outer ← match range with
        | some range => addArray element range
        | none => addType (.sequence element)
      addNested range depth outer

end Edit

end StructuralTypes
