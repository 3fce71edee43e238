/-! Insertion next to an element of a list. -/

namespace StructuralTypes

variable {α : Type} [DecidableEq α]

def insertAfter (anchor new : α) : List α → List α
  | [] => []
  | head :: tail =>
      if head = anchor then head :: new :: tail
      else head :: insertAfter anchor new tail

def insertBefore (anchor new : α) : List α → List α
  | [] => []
  | head :: tail =>
      if head = anchor then new :: head :: tail
      else head :: insertBefore anchor new tail

def successor? (anchor : α) : List α → Option α
  | [] => none
  | head :: tail =>
      if head = anchor then tail.head? else successor? anchor tail

theorem insertAfter_append_cons {anchor : α} (new : α) {front : List α}
    (back : List α) (first : anchor ∉ front) :
    insertAfter anchor new (front ++ anchor :: back) =
      front ++ anchor :: new :: back := by
  induction front with
  | nil => simp [insertAfter]
  | cons head tail induction =>
      simp only [List.mem_cons, not_or] at first
      simp [insertAfter, Ne.symm first.1, induction first.2]

theorem insertBefore_append_cons {anchor : α} (new : α) {front : List α}
    (back : List α) (first : anchor ∉ front) :
    insertBefore anchor new (front ++ anchor :: back) =
      front ++ new :: anchor :: back := by
  induction front with
  | nil => simp [insertBefore]
  | cons head tail induction =>
      simp only [List.mem_cons, not_or] at first
      simp [insertBefore, Ne.symm first.1, induction first.2]

theorem insertAfter_perm {anchor new : α} {elements : List α}
    (member : anchor ∈ elements) :
    (insertAfter anchor new elements).Perm (new :: elements) := by
  induction elements with
  | nil => simp at member
  | cons head tail induction =>
      by_cases same : head = anchor
      · simp [insertAfter, same, List.Perm.swap]
      · have later : anchor ∈ tail := by
          simpa [Ne.symm same] using member
        rw [insertAfter, if_neg same]
        exact ((induction later).cons head).trans (.swap ..)

theorem insertBefore_perm {anchor new : α} {elements : List α}
    (member : anchor ∈ elements) :
    (insertBefore anchor new elements).Perm (new :: elements) := by
  induction elements with
  | nil => simp at member
  | cons head tail induction =>
      by_cases same : head = anchor
      · simp [insertBefore, same]
      · have later : anchor ∈ tail := by
          simpa [Ne.symm same] using member
        rw [insertBefore, if_neg same]
        exact ((induction later).cons head).trans (.swap ..)

end StructuralTypes
