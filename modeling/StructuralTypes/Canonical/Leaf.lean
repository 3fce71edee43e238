import StructuralTypes.Canonical.Settle

/-! Canonical domains, tuples and index types. Their declarations always go to
the shared scope, and none of their parts is canonicalized on the way. -/

namespace StructuralTypes.Canon

variable {τ : Type}

/-- A type is canonicalized once: what is already declared is refused. -/
def expectAnonymous (type : TypeRef) : Canon τ Unit := do
  match ← ask (·.typeName? type) with
  | none => pure ()
  | some name => fail (.alreadyResolved (← ask (·.shape type)) name)

def domain (type : TypeRef) : Canon τ TypeRef := do
  match ← ask (·.form type) with
  | .domain rank parent _ =>
      expectAnonymous type
      match parent with
      | some _ => unsupported .derivedDomain
      | none =>
          perform (.changeForm type (·.withRank (effectiveRank rank)))
          settleShared (.domain rank) type
  | form => fail (.shapeMismatch .domain form.shape)

def componentNames (position : Nat) : List TypeRef → Canon τ (List String)
  | [] => return []
  | component :: rest => do
      match ← ask (·.typeName? component) with
      | some name => return name :: (← componentNames (position + 1) rest)
      | none => unsupported (.anonymousComponent position)

def tuple (type : TypeRef) : Canon τ TypeRef := do
  match ← ask (·.form type) with
  | .tuple components =>
      expectAnonymous type
      let names ← componentNames 0 components
      settleShared (.tuple names) type
  | form => fail (.shapeMismatch .tuple form.shape)

/-- Key of the index type over a variable: the variable's name must be bound in
`lookupScope` to something whose type is a named domain. -/
def indexKeyOfVariable (symbol : SymbolRef) (lookupScope : ScopeRef) :
    Canon τ CanonicalKey := do
  let name := (← ask (·.symbol symbol)).name
  match ← ask (·.lookup lookupScope name) with
  | none => fail (.unboundVariable (← ask (·.names.text name)))
  | some found =>
      let denoted := (← ask (·.symbol found)).type
      match ← ask (·.shape denoted) with
      | .domain =>
          match ← ask (·.typeName? denoted) with
          | some text => return .indexOfDomain text
          | none => unsupported .anonymousDomain
      | _ => unsupported (.notDomain (← ask (·.names.text name)))

def indexKey (subject : ExpressionRef) (lookupScope : ScopeRef) :
    Canon τ CanonicalKey := do
  match ← ask (·.expression subject) with
  | .literal value => return .indexOfLiteral value
  | .reference symbol => indexKeyOfVariable symbol lookupScope
  | .iteration _ => unsupported .indexSubject

def index (type : TypeRef) (lookupScope : ScopeRef) : Canon τ TypeRef := do
  match ← ask (·.form type) with
  | .index subject =>
      expectAnonymous type
      let key ← indexKey subject lookupScope
      settleShared key type
  | form => fail (.shapeMismatch .index form.shape)

def indexOrSelf (type : TypeRef) (lookupScope : ScopeRef) : Canon τ TypeRef := do
  match ← ask (·.shape type) with
  | .index => index type lookupScope
  | _ => return type

end StructuralTypes.Canon
