import StructuralTypes.Names

/-! Lexical scopes and the symbols they bind. A lookup sees one scope only:
which scope to ask, and whether to go on to its parent, is the caller's choice. -/

namespace StructuralTypes

structure Scope where
  parent : Option ScopeRef
  /-- Holds the built-in declarations. -/
  intrinsic : Bool
  /-- Holds the canonical declarations that have no lexical owner. -/
  shared : Bool
  /-- Newest first, so an older binding of the same name is hidden. -/
  bindings : List (NameRef × SymbolRef) := []

namespace Scope

def lookup (scope : Scope) (name : NameRef) : Option SymbolRef :=
  scope.bindings.lookup name

def bind (scope : Scope) (name : NameRef) (symbol : SymbolRef) : Scope :=
  { scope with bindings := (name, symbol) :: scope.bindings }

@[simp] theorem lookup_bind_same (scope : Scope) (name : NameRef)
    (symbol : SymbolRef) : (scope.bind name symbol).lookup name = some symbol := by
  simp [lookup, bind]

theorem lookup_bind_other (scope : Scope) {bound name : NameRef}
    (symbol : SymbolRef) (different : name ≠ bound) :
    (scope.bind bound symbol).lookup name = scope.lookup name := by
  have unequal : (name == bound) = false := by simp [different]
  simp [lookup, bind, List.lookup_cons, unequal]

end Scope

abbrev Scopes := Arena .scope Scope

namespace Scopes

def lookup (scopes : Scopes) (scope : ScopeRef) (name : NameRef) :
    Except Fault (Option SymbolRef) :=
  return (← scopes.get scope).lookup name

def bind (scopes : Scopes) (scope : ScopeRef) (name : NameRef)
    (symbol : SymbolRef) : Except Fault Scopes :=
  scopes.modify scope (·.bind name symbol)

end Scopes

end StructuralTypes
