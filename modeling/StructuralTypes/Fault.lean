import StructuralTypes.Reference
import StructuralTypes.Violation

/-! Broken assumptions. A fault is a bug of the library or of its caller, not a
property of the types being canonicalized, so nothing recovers from one. -/

namespace StructuralTypes

inductive Fault where
  /-- A reference outside its arena was followed. -/
  | dangling
  /-- The statement to insert already has a place in `body`. -/
  | alreadyLinked (statement : StatementRef) (body : BodyRef)
  /-- The statement to insert next to has no place in any body. -/
  | anchorUnlinked (anchor : StatementRef)
  /-- Canonicalization ended with declarations that are not canonical. -/
  | notCanonical (violations : List Violation)
  /-- Types, expressions or blocks nest deeper than an acyclic program can. -/
  | nestingLimit
  deriving DecidableEq, Repr

def Fault.text? : Fault → Option String
  | .alreadyLinked statement body =>
      some s!"StmtId({statement.index}) is already linked into Some(ContainerId({body.index}))"
  | .anchorUnlinked anchor =>
      some s!"anchor StmtId({anchor.index}) is not linked into a container"
  | .notCanonical violations =>
      some ("canonical declaration invariants violated:\n" ++
        "\n".intercalate (violations.map Violation.message))
  | .dangling | .nestingLimit => none

end StructuralTypes
