/-! What the declarations of a canonicalized program must not look like. -/

namespace StructuralTypes

inductive Violation where
  | unnamedVarType (var type : String)
  | unlinkedDeclaration (name : String)
  /-- The scope of a symbol binds its name to something else or not at all. -/
  | unboundSymbol (name : String)
  | duplicateDeclaration (name : String)
  /-- A declared type does not refer back to its symbol. -/
  | detachedType (name : String)
  | nameMismatch (name expected : String)
  deriving DecidableEq, Repr

def Violation.message : Violation → String
  | .unnamedVarType var type =>
      "variable `" ++ var ++ "` has anonymous type `" ++ type ++ "`"
  | .unlinkedDeclaration name =>
      "declaration of `" ++ name ++ "` is not linked into any container"
  | .unboundSymbol name =>
      "`" ++ name ++ "` is not bound to its symbol in its own scope"
  | .duplicateDeclaration name =>
      "`" ++ name ++ "` is declared more than once in one scope"
  | .detachedType name =>
      "type of `" ++ name ++ "` does not point back to its symbol"
  | .nameMismatch name expected =>
      "`" ++ name ++ "` should be named `" ++ expected ++ "`"

end StructuralTypes
