import StructuralTypes.Reference

/-! The expressions that occur inside types. -/

namespace StructuralTypes

inductive Expression where
  | literal (value : Int)
  | reference (symbol : SymbolRef)
  /-- Iteration over a list of domain expressions. -/
  | iteration (domains : List ExpressionRef)
  deriving DecidableEq, Repr

end StructuralTypes
