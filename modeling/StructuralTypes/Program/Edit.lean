import StructuralTypes.Program.Basic

/-! Changes to a program. -/

namespace StructuralTypes

/-- A computation that reads and changes a program and may fault. -/
abbrev Edit := EStateM Fault Program

namespace Edit

variable {α : Type}

def ask (question : Program → Except Fault α) : Edit α := fun program =>
  match question program with
  | .ok answer => .ok answer program
  | .error fault => .error fault program

def update (change : Program → Except Fault Program) : Edit Unit := fun program =>
  match change program with
  | .ok changed => .ok () changed
  | .error fault => .error fault program

/-! ## New entries -/

def intern (text : String) : Edit NameRef := fun program =>
  let (name, names) := program.names.intern text
  .ok name { program with names }

def addType (form : TypeForm) : Edit TypeRef := fun program =>
  .ok program.types.next
    { program with types := program.types.push { form } }

def addExpression (expression : Expression) : Edit ExpressionRef := fun program =>
  .ok program.expressions.next
    { program with expressions := program.expressions.push expression }

def addSymbol (symbol : Symbol) : Edit SymbolRef := fun program =>
  .ok program.symbols.next
    { program with symbols := program.symbols.push symbol }

def addScope (scope : Scope) : Edit ScopeRef := fun program =>
  .ok program.scopes.next { program with scopes := program.scopes.push scope }

def addBody (scope : ScopeRef) : Edit BodyRef := fun program =>
  let (body, layout) := program.layout.addBody scope
  .ok body { program with layout }

def addStatement (statement : Statement) : Edit StatementRef := fun program =>
  let (ref, layout) := program.layout.addStatement statement
  .ok ref { program with layout }

/-! ## Changes to entries -/

def changeForm (type : TypeRef) (change : TypeForm → TypeForm) : Edit Unit :=
  update fun program => do
    let types ← program.types.modify type
      fun node => { node with form := change node.form }
    return { program with types }

def setTypeSymbol (type : TypeRef) (symbol : Option SymbolRef) : Edit Unit :=
  update fun program => do
    let types ← program.types.modify type fun node => { node with symbol }
    return { program with types }

def changeSymbol (ref : SymbolRef) (change : Symbol → Symbol) : Edit Unit :=
  update fun program => do
    let symbols ← program.symbols.modify ref change
    return { program with symbols }

def setSymbolType (ref : SymbolRef) (type : TypeRef) : Edit Unit :=
  changeSymbol ref fun symbol => { symbol with type }

def setDefinition (ref : SymbolRef) (definition : Definition) : Edit Unit :=
  changeSymbol ref fun symbol => { symbol with definition }

def bind (scope : ScopeRef) (name : NameRef) (symbol : SymbolRef) : Edit Unit :=
  update fun program => do
    let scopes ← program.scopes.bind scope name symbol
    return { program with scopes }

def changeLayout (change : Layout → Except Fault Layout) : Edit Unit :=
  update fun program => do
    let layout ← change program.layout
    return { program with layout }

end Edit

end StructuralTypes
