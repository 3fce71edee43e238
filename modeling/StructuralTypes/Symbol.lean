import StructuralTypes.Reference

/-! Declared entities and where their declarations stand. -/

namespace StructuralTypes

inductive SymbolKind where
  | type
  | var
  deriving DecidableEq, Repr

inductive Definition where
  /-- No declaration at all, as for a built-in. -/
  | absent
  /-- A declaration outside every statement, as for a formal parameter. -/
  | detached
  | statement (declaration : StatementRef)
  deriving DecidableEq, Repr

def Definition.statement? : Definition → Option StatementRef
  | .statement declaration => some declaration
  | .absent | .detached => none

structure Symbol where
  name : NameRef
  kind : SymbolKind
  type : TypeRef
  /-- Scope the symbol belongs to. Only the scope's own bindings say whether
  its name can be looked up there. -/
  scope : ScopeRef
  definition : Definition
  deriving DecidableEq, Repr

end StructuralTypes
