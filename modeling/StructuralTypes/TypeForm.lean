import StructuralTypes.Reference

/-! Types as nodes of a shared graph. A composite form refers to its parts, so
one canonical node can stand in many places at once. -/

namespace StructuralTypes

inductive Primitive where
  | bool
  | int32
  | int64
  | uint8
  | float64
  | complex128
  | string
  deriving DecidableEq, Repr

namespace Primitive

def all : List Primitive :=
  [.bool, .int32, .int64, .uint8, .float64, .complex128, .string]

def name : Primitive → String
  | .bool => "Bool"
  | .int32 => "Int32"
  | .int64 => "Int64"
  | .uint8 => "UInt8"
  | .float64 => "Float64"
  | .complex128 => "Complex128"
  | .string => "String"

def ordinal : Primitive → Nat
  | .bool => 0
  | .int32 => 1
  | .int64 => 2
  | .uint8 => 3
  | .float64 => 4
  | .complex128 => 5
  | .string => 6

theorem getElem?_all_ordinal (primitive : Primitive) :
    all[primitive.ordinal]? = some primitive := by
  cases primitive <;> rfl

end Primitive

inductive Shape where
  | primitive
  | nominal
  | array
  | domain
  | tuple
  | sequence
  | index
  deriving DecidableEq, Repr

def Shape.word : Shape → String
  | .primitive => "primitive"
  | .nominal => "nominal"
  | .array => "array"
  | .domain => "domain"
  | .tuple => "tuple"
  | .sequence => "sequence"
  | .index => "index"

inductive TypeForm where
  | primitive (primitive : Primitive)
  /-- A record or class, told apart from others by its declaration only. -/
  | nominal
  /-- `[range] element`. The domain that the range iterates over is recorded
  once the array is canonical. -/
  | array (element : TypeRef) (range : ExpressionRef) (recorded : Option TypeRef)
  /-- An index set of `rank` dimensions. `parent` is the domain it is derived
  from, `companion` the type of its indices. -/
  | domain (rank : Nat) (parent companion : Option TypeRef)
  | tuple (components : List TypeRef)
  | sequence (element : TypeRef)
  /-- The index type of whatever the expression denotes. -/
  | index (subject : ExpressionRef)
  deriving DecidableEq, Repr

namespace TypeForm

def shape : TypeForm → Shape
  | .primitive _ => .primitive
  | .nominal => .nominal
  | .array .. => .array
  | .domain .. => .domain
  | .tuple _ => .tuple
  | .sequence _ => .sequence
  | .index _ => .index

def children : TypeForm → List TypeRef
  | .primitive _ | .nominal | .index _ => []
  | .array element _ recorded => element :: recorded.toList
  | .domain _ parent companion => parent.toList ++ companion.toList
  | .tuple components => components
  | .sequence element => [element]

/-! Each of the following replaces one part of the forms that have it, and
leaves other forms alone. -/

def withElement (element : TypeRef) : TypeForm → TypeForm
  | .array _ range recorded => .array element range recorded
  | .sequence _ => .sequence element
  | form => form

def withDomain (domain : TypeRef) : TypeForm → TypeForm
  | .array element range _ => .array element range (some domain)
  | form => form

def withRank (rank : Nat) : TypeForm → TypeForm
  | .domain _ parent companion => .domain rank parent companion
  | form => form

def withCompanion (companion : TypeRef) : TypeForm → TypeForm
  | .domain rank parent _ => .domain rank parent (some companion)
  | form => form

@[simp] theorem shape_withElement (element : TypeRef) (form : TypeForm) :
    (form.withElement element).shape = form.shape := by
  cases form <;> rfl

@[simp] theorem shape_withDomain (domain : TypeRef) (form : TypeForm) :
    (form.withDomain domain).shape = form.shape := by
  cases form <;> rfl

@[simp] theorem shape_withRank (rank : Nat) (form : TypeForm) :
    (form.withRank rank).shape = form.shape := by
  cases form <;> rfl

@[simp] theorem shape_withCompanion (companion : TypeRef) (form : TypeForm) :
    (form.withCompanion companion).shape = form.shape := by
  cases form <;> rfl

end TypeForm

/-- A node of the type graph. It is named once a symbol declares it. -/
structure TypeNode where
  form : TypeForm
  symbol : Option SymbolRef := none
  deriving DecidableEq, Repr

end StructuralTypes
