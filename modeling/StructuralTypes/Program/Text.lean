import StructuralTypes.Program.Basic

/-! How types, expressions and statements read in reports, and the listing of a
whole program. A named type reads as its name, an anonymous one as its form. -/

namespace StructuralTypes

namespace Program

variable (program : Program)

/-! ## Expressions and types -/

def expressionTextWithin : (depth : Nat) → ExpressionRef → Except Fault String
  | 0, _ => throw .nestingLimit
  | depth + 1, ref => do
      match ← program.expression ref with
      | .literal value => return toString value
      | .reference symbol => program.symbolName symbol
      | .iteration domains =>
          return ", ".intercalate
            (← domains.mapM (expressionTextWithin depth))

/-- Expressions on a path of nested iterations are distinct, so there are no
more of them than the program has. -/
def expressionText (ref : ExpressionRef) : Except Fault String :=
  program.expressionTextWithin (program.expressions.size + 1) ref

def typeTextWithin : (depth : Nat) → TypeRef → Except Fault String
  | 0, _ => throw .nestingLimit
  | depth + 1, type => do
      match ← program.typeName? type with
      | some name => return name
      | none =>
          match ← program.form type with
          | .primitive primitive => return primitive.name
          | .nominal => return "<nominal>"
          | .array element range _ =>
              return "[" ++ (← program.expressionText range) ++ "] " ++
                (← typeTextWithin depth element)
          | .domain _ (some parent) _ =>
              return "domain(" ++ (← typeTextWithin depth parent) ++ ")"
          | .domain rank none _ => return "domain(" ++ toString rank ++ ")"
          | .tuple components =>
              return "(" ++ ", ".intercalate
                (← components.mapM (typeTextWithin depth)) ++ ")"
          | .sequence element =>
              return "seq(" ++ (← typeTextWithin depth element) ++ ")"
          | .index subject =>
              return "index(" ++ (← program.expressionText subject) ++ ")"

def typeText (type : TypeRef) : Except Fault String :=
  program.typeTextWithin (program.types.size + 1) type

/-! ## Statements -/

/-- One line for a statement, such as `var x: Int32`. -/
def statementText (ref : StatementRef) : Except Fault String := do
  match (← program.statement ref).kind with
  | .typeDeclaration symbol => return "type " ++ (← program.symbolName symbol)
  | .varDeclaration symbol =>
      let name ← program.symbolName symbol
      return "var " ++ name ++ ": " ++
        (← program.typeText (← program.symbol symbol).type)
  | .expression expression =>
      return "expr " ++ (← program.expressionText expression)
  | .block _ => return "block"

def bodyLines (body : BodyRef) : Except Fault (List String) := do
  (← program.layout.order body).mapM program.statementText

/-! ## The listing of a program -/

def listingLine (enclosing : Nat) (text : String) : String :=
  "".pushn ' ' (2 * enclosing) ++ text ++ "\n"

def listingOf (enclosing : Nat) (inner : BodyRef → Except Fault String)
    (ref : StatementRef) : Except Fault String := do
  let line := listingLine enclosing (← program.statementText ref)
  match (← program.statement ref).kind with
  | .block body => return line ++ (← inner body)
  | _ => return line

def listingWithin : (depth enclosing : Nat) → BodyRef → Except Fault String
  | 0, _, _ => throw .nestingLimit
  | depth + 1, enclosing, body => do
      let segments ← (← program.layout.order body).mapM
        (program.listingOf enclosing (listingWithin depth (enclosing + 1)))
      return String.join segments

def listing : Except Fault String := do
  let segments ← program.roots.mapM
    (program.listingWithin program.layout.blockDepth 0)
  return String.join segments

end Program

end StructuralTypes
