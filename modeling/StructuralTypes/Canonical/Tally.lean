import StructuralTypes.TypeForm

/-! Counts of what a canonicalization did. -/

namespace StructuralTypes

/-- Declarations created for each shape, and occurrences that reused one. -/
structure Tally where
  arrays : Nat := 0
  domains : Nat := 0
  tuples : Nat := 0
  sequences : Nat := 0
  indices : Nat := 0
  reused : Nat := 0
  deriving DecidableEq, Repr

namespace Tally

def created (tally : Tally) : Nat :=
  tally.arrays + tally.domains + tally.tuples + tally.sequences + tally.indices

def countCreated (tally : Tally) : Shape → Tally
  | .array => { tally with arrays := tally.arrays + 1 }
  | .domain => { tally with domains := tally.domains + 1 }
  | .tuple => { tally with tuples := tally.tuples + 1 }
  | .sequence => { tally with sequences := tally.sequences + 1 }
  | .index => { tally with indices := tally.indices + 1 }
  | .primitive | .nominal => tally

def countReused (tally : Tally) : Tally :=
  { tally with reused := tally.reused + 1 }

@[simp] theorem created_countReused (tally : Tally) :
    tally.countReused.created = tally.created :=
  rfl

theorem created_countCreated {shape : Shape} (tally : Tally)
    (structural : shape ≠ .primitive ∧ shape ≠ .nominal) :
    (tally.countCreated shape).created = tally.created + 1 := by
  cases shape <;> simp_all [countCreated, created] <;> omega

end Tally

end StructuralTypes
