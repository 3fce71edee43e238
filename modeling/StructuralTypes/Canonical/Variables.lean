import StructuralTypes.Canonical.Nested

/-! Canonical types for variables: a walk that gives every declared variable the
canonical type of the one it was declared with. -/

namespace StructuralTypes

/-- Canonicalize the type of a variable. Index types are looked up in the scope of
the variable. -/
def Canon.declaredType {τ : Type} (hook : SequenceHook τ) (type : TypeRef)
    (scope : ScopeRef) : Canon τ TypeRef := do
  let canonical ← composite hook type
  indexOrSelf canonical scope

/-- A type that is canonical already is refused, unless it is primitive or
nominal, so no program goes through this traversal twice unnoticed. -/
def variableTypes {τ : Type} (hook : SequenceHook τ) :
    Traversal Failure (Progress τ) where
  enterStatement ref := do
    match (← Walk.ask (·.statement ref)).kind with
    | .varDeclaration var =>
        let symbol ← Walk.ask (·.symbol var)
        let canonical ← Canon.within ref symbol.scope
          (Canon.declaredType hook symbol.type symbol.scope)
        Walk.perform (.setSymbolType var canonical)
    | _ => pure ()

end StructuralTypes
