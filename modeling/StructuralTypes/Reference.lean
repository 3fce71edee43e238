/-! References into the numbered arenas of a program. -/

namespace StructuralTypes

inductive Entity where
  | name
  | type
  | expression
  | symbol
  | scope
  | statement
  | body
  deriving DecidableEq, Repr

/-- Position of an entry in the arena of its kind. References of different
kinds are different types, so a type reference never addresses a statement. -/
structure Ref (entity : Entity) where
  index : Nat
  deriving DecidableEq, Repr

abbrev NameRef := Ref .name
abbrev TypeRef := Ref .type
abbrev ExpressionRef := Ref .expression
abbrev SymbolRef := Ref .symbol
abbrev ScopeRef := Ref .scope
abbrev StatementRef := Ref .statement
abbrev BodyRef := Ref .body

namespace Ref

theorem eq_iff_index_eq {entity : Entity} {left right : Ref entity} :
    left = right ↔ left.index = right.index := by
  cases left
  cases right
  simp

end Ref

end StructuralTypes
