import StructuralTypes.Program.Basic

/-! Names of canonical declarations. A structural type is declared under the name
of its key, which is made of the names of its parts, so equal keys are what makes
two types share a declaration. -/

namespace StructuralTypes

/-- Rank zero is short for one dimension. -/
def effectiveRank (rank : Nat) : Nat :=
  max rank 1

theorem effectiveRank_effectiveRank (rank : Nat) :
    effectiveRank (effectiveRank rank) = effectiveRank rank := by
  unfold effectiveRank
  omega

inductive CanonicalKey where
  | array (element : String) (rank : Nat)
  | sequence (element : String)
  | tuple (components : List String)
  | domain (rank : Nat)
  | indexOfLiteral (value : Int)
  | indexOfDomain (domain : String)
  deriving DecidableEq, Repr

namespace CanonicalKey

def name : CanonicalKey → String
  | .array element rank =>
      "_array_" ++ element ++ "_" ++ toString (effectiveRank rank) ++ "d"
  | .sequence element => "_seq_" ++ element
  | .tuple components =>
      "_tuple" ++ String.join (components.map fun component => "_" ++ component)
  | .domain rank => "_domain_" ++ toString (effectiveRank rank) ++ "d"
  | .indexOfLiteral value => "_index_" ++ toString value ++ "_d"
  | .indexOfDomain text => "_index_" ++ text

example : (array "Int32" 0).name = "_array_Int32_1d" := by decide

example : (tuple ["Int32", "_seq_Bool"]).name = "_tuple_Int32__seq_Bool" := by decide

example : (indexOfLiteral (-3)).name = "_index_-3_d" := by decide +kernel

end CanonicalKey

namespace Program

variable (program : Program)

def domainRank? (type : TypeRef) : Except Fault (Option Nat) := do
  match ← program.form type with
  | .domain rank _ _ => return some rank
  | _ => return none

/-- Names of all the given types, if each has one. Types after the first without
a name are not looked at. -/
def typeNames? : List TypeRef → Except Fault (Option (List String))
  | [] => return some []
  | type :: rest => do
      match ← program.typeName? type with
      | none => return none
      | some name => return (← typeNames? rest).map (name :: ·)

/-- Key of a structural type, as far as its parts have names. An array has one
once its domain is recorded; an index type over a variable takes the name of the
variable's type. -/
def canonicalKey? (type : TypeRef) : Except Fault (Option CanonicalKey) := do
  match ← program.form type with
  | .primitive _ | .nominal => return none
  | .array _ _ none => return none
  | .array element _ (some domain) =>
      match ← program.domainRank? domain with
      | none => return none
      | some rank => return (← program.typeName? element).map (.array · rank)
  | .domain _ (some _) _ => return none
  | .domain rank none _ => return some (.domain rank)
  | .tuple components => return (← program.typeNames? components).map .tuple
  | .sequence element => return (← program.typeName? element).map .sequence
  | .index subject =>
      match ← program.expression subject with
      | .literal value => return some (.indexOfLiteral value)
      | .reference symbol =>
          let denoted := (← program.symbol symbol).type
          return (← program.typeName? denoted).map .indexOfDomain
      | .iteration _ => return none

def canonicalName? (type : TypeRef) : Except Fault (Option String) :=
  return (← program.canonicalKey? type).map CanonicalKey.name

end Program

end StructuralTypes
