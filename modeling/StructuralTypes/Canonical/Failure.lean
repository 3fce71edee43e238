import StructuralTypes.Program.Text
import StructuralTypes.Report

/-! Why a canonicalization fails. The types of a program that reaches it are
already known to be meaningful, so every failure is a bug in an earlier phase;
each one names the statement that was being processed. -/

namespace StructuralTypes

inductive Unsupported where
  | derivedDomain
  /-- The range of an array is not an iteration. -/
  | rangeNotIteration
  | manyDomains (count : Nat)
  /-- The range of an array iterates over something other than a variable. -/
  | rangeNotVariable
  | notDomain (name : String)
  /-- An index type over something other than a literal or a variable. -/
  | indexSubject
  | anonymousComponent (position : Nat)
  | anonymousElement (shape element : Shape)
  | anonymousDomain
  deriving DecidableEq, Repr

def Unsupported.message : Unsupported → String
  | .derivedDomain =>
      "domain derived from a parent domain (only arithmetic domains are supported)"
  | .rangeNotIteration => "array domain expression is not a forall"
  | .manyDomains count =>
      "forall over " ++ toString count ++ " domains in a declaration"
  | .rangeNotVariable => "domain expression is not a variable"
  | .notDomain name => "`" ++ name ++ "` is not a domain"
  | .indexSubject =>
      "index expression is neither an integer literal nor a variable"
  | .anonymousComponent position =>
      "tuple component " ++ toString position ++ " is an anonymous type"
  | .anonymousElement shape element =>
      shape.word ++ " element is an anonymous " ++ element.word ++ " type"
  | .anonymousDomain => "domain has no canonical declaration"

inductive Cause where
  | shapeMismatch (expected found : Shape)
  /-- The type to canonicalize has a declaration already. -/
  | alreadyResolved (shape : Shape) (name : String)
  | unsupported (form : Unsupported)
  /-- There is no statement to place a declaration next to. -/
  | unanchored (shape : Shape) (element : String)
  | unboundVariable (name : String)
  deriving DecidableEq, Repr

namespace Cause

def message : Cause → String
  | .shapeMismatch expected found =>
      "expected " ++ expected.word ++ " type, found " ++ found.word ++ " type"
  | .alreadyResolved shape name =>
      shape.word ++ " type already resolved to `" ++ name ++ "`"
  | .unsupported form => "unsupported structural type: " ++ form.message
  | .unanchored shape element =>
      shape.word ++ " over element `" ++ element ++
        "` has no enclosing declaration statement"
  | .unboundVariable name => "index variable `" ++ name ++ "` not found in scope"

def code : Cause → ReportCode
  | .shapeMismatch .. => .shapeMismatch
  | .alreadyResolved .. => .alreadyResolved
  | .unsupported _ => .unsupported
  | .unanchored .. => .unanchored
  | .unboundVariable _ => .unboundVariable

end Cause

structure Failure where
  /-- The statement whose types were being canonicalized. -/
  statement : StatementRef
  cause : Cause
  deriving DecidableEq, Repr

/-- Report of a failure, which quotes the statement as it now reads. -/
def Failure.report (failure : Failure) (program : Program) :
    Except Fault Report := do
  let statement ← program.statement failure.statement
  let text ← program.statementText failure.statement
  return .ofParts failure.cause.code
    [.message ("internal compiler error: " ++ failure.cause.message),
      .label ⟨statement.span, "while canonicalizing this statement"⟩,
      .note ("statement: `" ++ text ++ "`")]

end StructuralTypes
