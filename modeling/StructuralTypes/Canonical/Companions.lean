import StructuralTypes.Canonical.Settle

/-! Canonical index companions: a walk, made once the types of variables are
canonical, that settles the companion of every domain it reaches under the name
of that domain. -/

namespace StructuralTypes

/-- Settle `companion`, the index type of the domain `type`, in the shared scope.
A new declaration stands right before the session's statement. -/
def Canon.settleCompanion {τ : Type} (type companion : TypeRef) :
    Canon τ Unit := do
  match ← ask (·.shape companion), ← ask (·.typeSymbol? companion) with
  | .index, some _ => pure ()
  | .index, none =>
      match ← ask (·.typeName? type) with
      | none => unsupported .anonymousDomain
      | some name =>
          let key := CanonicalKey.indexOfDomain name
          let settled ← inScope Program.sharedScope do
            settle key.name companion (.before (← get).statement)
          perform (.changeForm type (·.withCompanion settled.type))
  | found, _ => fail (.shapeMismatch .index found)

/-- State of the walk. Types are settled for the declaration being visited and in
its scope; a statement that declares nothing is passed over. -/
structure CompanionWalk extends Progress Unit where
  current : Option (StatementRef × ScopeRef) := none

namespace CompanionWalk

def start (tally : Tally) : CompanionWalk :=
  { tally, journal := () }

def setCurrent (current : Option (StatementRef × ScopeRef)) :
    Walk Failure CompanionWalk Unit :=
  Walk.update fun own => { own with current }

def within {α : Type} (statement : StatementRef) (scope : ScopeRef)
    (action : Canon Unit α) : Walk Failure CompanionWalk α :=
  Walk.focus CompanionWalk.toProgress
    (fun own progress => { own with toProgress := progress })
    (Canon.within statement scope action)

end CompanionWalk

/-- A companion may settle on a type that its own domain is a part of, whatever
the domain's key is bound to. The walk then comes round to that domain again and
fails there, since its companion is no index type any more. So a path holds each
type at most twice. -/
def companionNesting (program : Program) : Nat :=
  2 * (program.types.size + 1)

def indexCompanions : Traversal Failure CompanionWalk where
  enterStatement ref := do
    let scope ← Walk.ask (·.statementScope? ref)
    CompanionWalk.setCurrent (scope.map fun scope => (ref, scope))
  visitType type := do
    match (← get).own.current with
    | none => pure ()
    | some (statement, scope) =>
        match ← Walk.ask (·.form type) with
        | .domain _ _ (some companion) =>
            CompanionWalk.within statement scope
              (Canon.settleCompanion type companion)
        | _ => pure ()
  leaveStatement _ := CompanionWalk.setCurrent none
  nesting := companionNesting

end StructuralTypes
