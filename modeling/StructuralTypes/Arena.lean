import StructuralTypes.Fault

/-! Append-only storage addressed by references. An entry keeps its position
for life; it can be replaced but never removed. -/

namespace StructuralTypes

structure Arena (entity : Entity) (α : Type) where
  entries : Array α := #[]
  deriving DecidableEq

namespace Arena

variable {entity : Entity} {α : Type}

def size (arena : Arena entity α) : Nat :=
  arena.entries.size

def get? (arena : Arena entity α) (ref : Ref entity) : Option α :=
  arena.entries[ref.index]?

def get (arena : Arena entity α) (ref : Ref entity) : Except Fault α :=
  match arena.get? ref with
  | some entry => .ok entry
  | none => .error .dangling

def next (arena : Arena entity α) : Ref entity :=
  ⟨arena.size⟩

def push (arena : Arena entity α) (entry : α) : Arena entity α :=
  ⟨arena.entries.push entry⟩

def modify (arena : Arena entity α) (ref : Ref entity) (change : α → α) :
    Except Fault (Arena entity α) :=
  if stored : ref.index < arena.entries.size then
    .ok ⟨arena.entries.set ref.index (change arena.entries[ref.index]) stored⟩
  else
    .error .dangling

def refs (arena : Arena entity α) : List (Ref entity) :=
  (List.range arena.size).map Ref.mk

/-! ## Reading after a change -/

theorem get_eq_ok_iff {arena : Arena entity α} {ref : Ref entity} {entry : α} :
    arena.get ref = .ok entry ↔ arena.get? ref = some entry := by
  unfold get
  split <;> simp_all

theorem get?_isSome_iff {arena : Arena entity α} {ref : Ref entity} :
    (arena.get? ref).isSome ↔ ref.index < arena.size := by
  simp [get?, size]

theorem mem_refs_iff {arena : Arena entity α} {ref : Ref entity} :
    ref ∈ arena.refs ↔ ref.index < arena.size := by
  simp only [refs, List.mem_map, List.mem_range]
  constructor
  · intro holds
    rcases holds with ⟨index, stored, rfl⟩
    exact stored
  · intro stored
    exact ⟨ref.index, stored, rfl⟩

@[simp] theorem size_push (arena : Arena entity α) (entry : α) :
    (arena.push entry).size = arena.size + 1 := by
  simp [size, push]

@[simp] theorem get?_push_next (arena : Arena entity α) (entry : α) :
    (arena.push entry).get? arena.next = some entry := by
  simp [get?, push, next, size]

theorem get?_push_of_lt {arena : Arena entity α} {ref : Ref entity} (entry : α)
    (stored : ref.index < arena.size) :
    (arena.push entry).get? ref = arena.get? ref := by
  simp only [get?, push, size] at stored ⊢
  rw [Array.getElem?_push_lt stored, Array.getElem?_eq_getElem stored]

theorem get?_of_modify {arena changed : Arena entity α} {target : Ref entity}
    {change : α → α} (modified : arena.modify target change = .ok changed)
    (ref : Ref entity) :
    changed.get? ref =
      if target = ref then (arena.get? ref).map change else arena.get? ref := by
  unfold modify at modified
  split at modified
  · rename_i stored
    simp only [Except.ok.injEq] at modified
    subst modified
    simp only [get?, Array.getElem?_set, Ref.eq_iff_index_eq]
    split
    · rename_i same
      simp [← same, stored]
    · rfl
  · simp at modified

theorem size_of_modify {arena changed : Arena entity α} {target : Ref entity}
    {change : α → α} (modified : arena.modify target change = .ok changed) :
    changed.size = arena.size := by
  unfold modify at modified
  split at modified
  · simp only [Except.ok.injEq] at modified
    subst modified
    simp [size]
  · simp at modified

theorem modify_isOk_iff {arena : Arena entity α} {ref : Ref entity} {change : α → α} :
    (∃ changed, arena.modify ref change = .ok changed) ↔ ref.index < arena.size := by
  unfold modify size
  split <;> simp_all

end Arena

end StructuralTypes
