import StructuralTypes.Reference

/-! Statements and the bodies that order them. -/

namespace StructuralTypes

structure Span where
  start : Nat := 0
  stop : Nat := 0
  deriving DecidableEq, Repr

namespace Span

def nowhere : Span := ⟨0, 0⟩

def text (span : Span) : String :=
  s!"{span.start}..{span.stop}"

end Span

inductive StatementKind where
  | typeDeclaration (symbol : SymbolRef)
  | varDeclaration (symbol : SymbolRef)
  | expression (expression : ExpressionRef)
  | block (body : BodyRef)
  deriving DecidableEq, Repr

structure Statement where
  kind : StatementKind
  span : Span := .nowhere
  /-- Inserted by canonicalization rather than written in a source text. -/
  synthesized : Bool := false
  deriving DecidableEq, Repr

namespace Statement

def declared? (statement : Statement) : Option SymbolRef :=
  match statement.kind with
  | .typeDeclaration symbol | .varDeclaration symbol => some symbol
  | .expression _ | .block _ => none

def synthesizedType (symbol : SymbolRef) : Statement :=
  { kind := .typeDeclaration symbol, synthesized := true }

end Statement

structure Body where
  /-- Scope that the declarations of the body bind into. -/
  scope : ScopeRef
  order : List StatementRef := []
  /-- The synthesized statement placed most recently. -/
  lastSynthesized : Option StatementRef := none
  deriving DecidableEq, Repr

end StructuralTypes
