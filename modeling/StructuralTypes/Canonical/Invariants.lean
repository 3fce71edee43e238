import StructuralTypes.Canonical.Key
import StructuralTypes.Program.Text

/-! The check of a canonicalized program: every variable that can be reached has a
named type, and every synthesized declaration of a type is linked, bound in its
scope and there alone, tied to its type, and named by the key of its type.

Index types are exempt from the last part, since a companion is named after its
domain and not after its own expression. -/

namespace StructuralTypes.Program

variable (program : Program)

def variableViolation (ref : StatementRef) : Except Fault (List Violation) := do
  match (← program.statement ref).kind with
  | .varDeclaration var =>
      let type := (← program.symbol var).type
      if ← program.isNamed type then
        return []
      return [.unnamedVarType (← program.symbolName var) (← program.typeText type)]
  | _ => return []

def synthesizedDeclaration? (symbol : Symbol) : Except Fault (Option StatementRef) := do
  match symbol.kind, symbol.definition with
  | .type, .statement declaration =>
      if (← program.statement declaration).synthesized then
        return some declaration
      return none
  | _, _ => return none

def expectedName? (symbol : Symbol) (name : String) :
    Except Fault (Option String) := do
  if (← program.shape symbol.type) = .index then
    return none
  return (← program.canonicalName? symbol.type).filter (· ≠ name)

/-- Violations at a symbol with a synthesized declaration. `declared` holds the
scopes and names of the symbols before it that have one too. -/
def declarationViolations (declared : List (ScopeRef × NameRef)) (ref : SymbolRef)
    (symbol : Symbol) (declaration : StatementRef) :
    Except Fault (List Violation) := do
  let name ← program.names.text symbol.name
  let linked := (← program.layout.bodyOf declaration).isSome
  let bound := (← program.lookup symbol.scope symbol.name) = some ref
  let tied := (← program.typeSymbol? symbol.type) = some ref
  let expected ← program.expectedName? symbol name
  return (if linked then [] else [.unlinkedDeclaration name]) ++
    (if bound then [] else [.unboundSymbol name]) ++
    (if (symbol.scope, symbol.name) ∈ declared then [.duplicateDeclaration name]
      else []) ++
    (if tied then [] else [.detachedType name]) ++
    (expected.map (Violation.nameMismatch name)).toList

def symbolViolations (declared : List (ScopeRef × NameRef)) :
    List SymbolRef → Except Fault (List Violation)
  | [] => return []
  | ref :: rest => do
      let symbol ← program.symbol ref
      match ← program.synthesizedDeclaration? symbol with
      | none => symbolViolations declared rest
      | some declaration =>
          let here ← program.declarationViolations declared ref symbol declaration
          let later ← symbolViolations ((symbol.scope, symbol.name) :: declared) rest
          return here ++ later

/-- All violations: those at variables in reading order, then those at symbols. -/
def violations : Except Fault (List Violation) := do
  let atVariables ← (← program.preorder).mapM program.variableViolation
  let atSymbols ← program.symbolViolations [] program.symbols.refs
  return atVariables.flatten ++ atSymbols

end StructuralTypes.Program
