import StructuralTypes.Canonical.Home
import StructuralTypes.Canonical.Leaf

/-! Canonical arrays and sequences. The element is canonicalized before what is
built over it, so types nest from the inside out. -/

namespace StructuralTypes.Canon

variable {τ : Type}

/-! ## One level

The canonicalization of the element is a parameter here. -/

def elementSymbol (shape : Shape) (element : TypeRef) : Canon τ SymbolRef := do
  match ← ask (·.typeSymbol? element) with
  | some symbol => return symbol
  | none => unsupported (.anonymousElement shape (← ask (·.shape element)))

/-- Canonicalize the element of `type`, put the result into `type`, and find where
the declaration of `type` belongs. -/
def settleElement (shape : Shape) (canonicalize : TypeRef → Canon τ TypeRef)
    (type element : TypeRef) : Canon τ (SymbolRef × Home) := do
  let canonical ← canonicalize element
  perform (.changeForm type (·.withElement canonical))
  let symbol ← elementSymbol shape canonical
  return (symbol, ← ask (·.homeBeside symbol))

/-- The domain type that the range of an array iterates over, with its rank. The
range must iterate over a single variable. -/
def rangeDomain (range : ExpressionRef) : Canon τ (TypeRef × Nat) := do
  match ← ask (·.expression range) with
  | .iteration [single] =>
      match ← ask (·.expression single) with
      | .reference symbol =>
          let denoted := (← ask (·.symbol symbol)).type
          match ← ask (·.form denoted) with
          | .domain rank _ _ => return (denoted, rank)
          | _ => unsupported (.notDomain (← ask (·.symbolName symbol)))
      | _ => unsupported .rangeNotVariable
  | .iteration domains => unsupported (.manyDomains domains.length)
  | _ => unsupported .rangeNotIteration

/-- Canonicalize an array. One that is newly declared records its domain. -/
def arrayWith (canonicalize : TypeRef → Canon τ TypeRef) (type : TypeRef) :
    Canon τ TypeRef := do
  match ← ask (·.form type) with
  | .array element range _ =>
      expectAnonymous type
      let (symbol, home) ← settleElement .array canonicalize type element
      inScope home.scope do
        let (domain, rank) ← rangeDomain range
        let name ← ask (·.symbolName symbol)
        match ← settle (CanonicalKey.array name rank).name type home.placement with
        | .reused existing => return existing
        | .created created =>
            perform (.changeForm created (·.withDomain domain))
            return created
  | form => fail (.shapeMismatch .array form.shape)

def sequenceWith (hook : SequenceHook τ) (canonicalize : TypeRef → Canon τ TypeRef)
    (type : TypeRef) : Canon τ TypeRef := do
  match ← ask (·.form type) with
  | .sequence element =>
      expectAnonymous type
      let (symbol, home) ← settleElement .sequence canonicalize type element
      let settled ← inScope home.scope do
        let name ← ask (·.symbolName symbol)
        settle (CanonicalKey.sequence name).name type home.placement
      match settled with
      | .reused existing => return existing
      | .created created =>
          materialize hook created
          return created
  | form => fail (.shapeMismatch .sequence form.shape)

/-- Canonicalize an element. A named one stays as it is; a variable of an index
type is looked up in the scope of the statement, because no scope has been
switched yet. -/
def elementWith (canonicalize : TypeRef → Canon τ TypeRef) (element : TypeRef) :
    Canon τ TypeRef := do
  match ← ask (·.typeSymbol? element) with
  | some _ => return element
  | none =>
      match ← ask (·.shape element) with
      | .index => index element (← get).scope
      | _ => canonicalize element

/-! ## All levels -/

def compositeWithin (hook : SequenceHook τ) : (depth : Nat) → TypeRef → Canon τ TypeRef
  | 0, _ => fault .nestingLimit
  | depth + 1, type => do
      let element := elementWith (compositeWithin hook depth)
      match ← ask (·.shape type) with
      | .array => arrayWith element type
      | .domain => domain type
      | .tuple => tuple type
      | .sequence => sequenceWith hook element type
      | .primitive | .nominal | .index => return type

/-- The types on a path of nested elements are distinct, so there are no more of
them than the program has. -/
def nesting : Canon τ Nat :=
  return (← get).program.types.size

def composite (hook : SequenceHook τ) (type : TypeRef) : Canon τ TypeRef := do
  compositeWithin hook ((← nesting) + 1) type

def array (hook : SequenceHook τ) (type : TypeRef) : Canon τ TypeRef := do
  arrayWith (elementWith (compositeWithin hook (← nesting))) type

def sequence (hook : SequenceHook τ) (type : TypeRef) : Canon τ TypeRef := do
  sequenceWith hook (elementWith (compositeWithin hook (← nesting))) type

end StructuralTypes.Canon
