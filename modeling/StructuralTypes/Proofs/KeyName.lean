import StructuralTypes.Canonical.Key

/-! What the name of a key says about the key. The first letter after the underscore
tells the shape, and of every shape but the tuple the rest can be taken apart again,
whatever the names of the parts look like. -/

namespace StructuralTypes

def reservedStems : List String :=
  ["_array_", "_seq_", "_tuple", "_domain_", "_index_"]

def Reserved (text : String) : Prop :=
  ∃ stem ∈ reservedStems, stem.toList <+: text.toList

instance (text : String) : Decidable (Reserved text) :=
  inferInstanceAs (Decidable (∃ _ ∈ _, _))

def Underscored (text : String) : Prop :=
  text.toList.head? = some '_'

instance (text : String) : Decidable (Underscored text) :=
  inferInstanceAs (Decidable (_ = _))

theorem underscored_of_reserved {text : String} (reserved : Reserved text) :
    Underscored text := by
  rcases reserved with ⟨stem, member, rest, same⟩
  rw [Underscored, ← same, List.head?_append]
  simp only [reservedStems, List.mem_cons, List.not_mem_nil, or_false] at member
  rcases member with rfl | rfl | rfl | rfl | rfl <;> rfl

namespace CanonicalKey

def shape : CanonicalKey → Shape
  | .array .. => .array
  | .sequence _ => .sequence
  | .tuple _ => .tuple
  | .domain _ => .domain
  | .indexOfLiteral _ | .indexOfDomain _ => .index

theorem shape_structural (key : CanonicalKey) :
    key.shape ≠ .primitive ∧ key.shape ≠ .nominal := by
  cases key <;> simp [shape]

def stem : CanonicalKey → String
  | .array .. => "_array_"
  | .sequence _ => "_seq_"
  | .tuple _ => "_tuple"
  | .domain _ => "_domain_"
  | .indexOfLiteral _ | .indexOfDomain _ => "_index_"

def tail : CanonicalKey → String
  | .array element rank => element ++ "_" ++ toString (effectiveRank rank) ++ "d"
  | .sequence element => element
  | .tuple components => String.join (components.map fun component => "_" ++ component)
  | .domain rank => toString (effectiveRank rank) ++ "d"
  | .indexOfLiteral value => toString value ++ "_d"
  | .indexOfDomain text => text

theorem name_eq (key : CanonicalKey) : key.name = key.stem ++ key.tail := by
  cases key <;> simp only [name, stem, tail, String.append_assoc]

theorem reserved_name (key : CanonicalKey) : Reserved key.name := by
  refine ⟨key.stem, ?_, ?_⟩
  · cases key <;> simp [stem, reservedStems]
  · rw [name_eq, String.toList_append]
    exact List.prefix_append ..

/-- Names that go on in whatever way have the shape in common, and what follows the stem. -/
theorem append_inj_of_name {left right : CanonicalKey} {leftRest rightRest : List Char}
    (same : left.name.toList ++ leftRest = right.name.toList ++ rightRest) :
    left.shape = right.shape ∧
      left.tail.toList ++ leftRest = right.tail.toList ++ rightRest := by
  simp only [name_eq, String.toList_append, List.append_assoc] at same
  -- The letter after the underscore tells the shape.
  have letters : left.stem.toList[1]? = right.stem.toList[1]? := by
    have letter : ∀ (key : CanonicalKey) (rest : List Char),
        (key.stem.toList ++ rest)[1]? = key.stem.toList[1]? := by
      intro key rest
      apply List.getElem?_append_left
      cases key <;> (simp only [stem]; decide)
    rw [← letter left, same, letter right]
  have shapes : left.shape = right.shape := by
    cases left <;> cases right <;>
      first | rfl | (simp only [stem] at letters; exact absurd letters (by decide))
  have stems : left.stem = right.stem := by
    cases left <;> cases right <;> first | rfl | cases shapes
  rw [stems] at same
  exact ⟨shapes, List.append_cancel_left same⟩

theorem shape_eq_of_name_eq {left right : CanonicalKey} (same : left.name = right.name) :
    left.shape = right.shape :=
  (append_inj_of_name (congrArg (·.toList ++ []) same)).1

theorem tail_eq_of_name_eq {left right : CanonicalKey} (same : left.name = right.name) :
    left.tail = right.tail := by
  have tails := (append_inj_of_name (congrArg (·.toList ++ []) same)).2
  rw [List.append_nil, List.append_nil] at tails
  exact String.toList_inj.mp tails

theorem toString_injective {left right : Nat}
    (same : (toString left).toList = (toString right).toList) : left = right := by
  simp only [Nat.toString_eq_repr, Nat.toList_repr] at same
  rw [← Nat.ofDigitChars_ten_toDigits (n := left), same, Nat.ofDigitChars_ten_toDigits]

theorem effectiveRank_eq_of_domain {left right : Nat}
    (same : (domain left).name = (domain right).name) :
    effectiveRank left = effectiveRank right := by
  have tails := congrArg String.toList (tail_eq_of_name_eq same)
  simp only [tail, String.toList_append] at tails
  exact toString_injective (List.append_cancel_right tails)

theorem append_cons_inj {separator : Char} {leftFront rightFront leftBack rightBack : List Char}
    (leftLast : separator ∉ leftBack) (rightLast : separator ∉ rightBack)
    (same : leftFront ++ separator :: leftBack = rightFront ++ separator :: rightBack) :
    leftFront = rightFront ∧ leftBack = rightBack := by
  rcases List.append_eq_append_iff.mp same with ⟨between, fronts, backs⟩ | ⟨between, fronts, backs⟩
  · cases between with
    | nil => exact ⟨by simpa using fronts.symm, by simpa using backs⟩
    | cons head tail =>
        rcases List.cons.inj backs with ⟨-, rfl⟩
        exact absurd (by simp) leftLast
  · cases between with
    | nil => exact ⟨by simpa using fronts, by simpa using backs.symm⟩
    | cons head tail =>
        rcases List.cons.inj backs with ⟨-, rfl⟩
        exact absurd (by simp) rightLast

theorem underscore_not_mem_digits (number : Nat) :
    '_' ∉ (toString number).toList ++ ['d'] := by
  rw [Nat.toString_eq_repr, Nat.toList_repr, List.mem_append]
  intro holds
  rcases holds with digit | suffix
  · exact Nat.underscore_not_in_toDigits digit
  · simp at suffix

theorem array_injective {left right : String} {leftRank rightRank : Nat}
    (same : (array left leftRank).name = (array right rightRank).name) :
    left = right ∧ effectiveRank leftRank = effectiveRank rightRank := by
  have tails := congrArg String.toList (tail_eq_of_name_eq same)
  simp only [tail, String.toList_append] at tails
  have split : ∀ (element : String) (rank : Nat),
      ((element.toList ++ "_".toList) ++ (toString (effectiveRank rank)).toList) ++ "d".toList =
        element.toList ++ '_' :: ((toString (effectiveRank rank)).toList ++ ['d']) := by
    intro element rank
    rw [show "_".toList = ['_'] from rfl, show "d".toList = ['d'] from rfl]
    simp only [List.append_assoc, List.cons_append, List.nil_append]
  rw [split, split] at tails
  rcases append_cons_inj (underscore_not_mem_digits _) (underscore_not_mem_digits _) tails with
    ⟨elements, ranks⟩
  exact ⟨String.toList_inj.mp elements, toString_injective (List.append_cancel_right ranks)⟩

theorem minus_not_mem_digits (number : Nat) : '-' ∉ number.repr.toList := by
  rw [Nat.toList_repr]
  intro digit
  have isDigit := Nat.isDigit_of_mem_toDigits (by decide) (by decide) digit
  exact absurd isDigit (by decide)

theorem repr_injective {left right : Int} (same : left.repr.toList = right.repr.toList) :
    left = right := by
  have negative : ∀ number : Nat, (Int.negSucc number).repr.toList =
      '-' :: (number + 1).repr.toList := by
    intro number
    rw [Int.repr, String.toList_append]
    rfl
  have natural : ∀ {first second : Nat}, first.repr.toList = second.repr.toList →
      first = second := by
    intro first second equal
    exact toString_injective (by simpa only [Nat.toString_eq_repr] using equal)
  cases left with
  | ofNat first =>
      cases right with
      | ofNat second => rw [natural same]
      | negSucc second =>
          rw [negative] at same
          exact absurd (same ▸ List.mem_cons_self) (minus_not_mem_digits first)
  | negSucc first =>
      rw [negative] at same
      cases right with
      | ofNat second =>
          exact absurd (same.symm ▸ List.mem_cons_self) (minus_not_mem_digits second)
      | negSucc second =>
          rw [negative] at same
          have successors := natural (List.cons.inj same).2
          rw [Nat.succ.inj successors]

theorem literal_injective {left right : Int}
    (same : (indexOfLiteral left).name = (indexOfLiteral right).name) : left = right := by
  have tails := congrArg String.toList (tail_eq_of_name_eq same)
  simp only [tail, String.toList_append, Int.toString_eq_repr] at tails
  exact repr_injective (List.append_cancel_right tails)

theorem sequence_injective {left right : String}
    (same : (sequence left).name = (sequence right).name) : left = right :=
  tail_eq_of_name_eq same

def element? : CanonicalKey → Option String
  | .array element _ | .sequence element => some element
  | _ => none

theorem element?_eq_of_name_eq {left right : CanonicalKey} (same : left.name = right.name) :
    left.element? = right.element? := by
  have shapes := shape_eq_of_name_eq same
  cases left with
  | array =>
      cases right with
      | array => rw [element?, element?, (array_injective same).1]
      | _ => simp [shape] at shapes
  | sequence =>
      cases right with
      | sequence => rw [element?, element?, sequence_injective same]
      | _ => simp [shape] at shapes
  | _ =>
      cases right with
      | array | sequence => simp [shape] at shapes
      | _ => rfl

theorem append_inj_of_separated {separator : Char} {left right leftRest rightRest : List Char}
    (leftFree : separator ∉ left) (rightFree : separator ∉ right)
    (leftNext : ∀ next ∈ leftRest.head?, next = separator)
    (rightNext : ∀ next ∈ rightRest.head?, next = separator)
    (same : left ++ leftRest = right ++ rightRest) : left = right ∧ leftRest = rightRest := by
  rcases List.append_eq_append_iff.mp same with ⟨between, longer, rest⟩ | ⟨between, longer, rest⟩
  · cases between with
    | nil => exact ⟨by simpa using longer.symm, by simpa using rest⟩
    | cons head tail =>
        have isSeparator : head = separator := leftNext head (by simp [rest])
        exact absurd (by simp [longer, isSeparator]) rightFree
  · cases between with
    | nil => exact ⟨by simpa using longer, by simpa using rest.symm⟩
    | cons head tail =>
        have isSeparator : head = separator := rightNext head (by simp [rest])
        exact absurd (by simp [longer, isSeparator]) leftFree

theorem toList_tail_tuple (components : List String) :
    (tuple components).tail.toList =
      components.flatMap fun component => '_' :: component.toList := by
  rw [tail, String.toList_join, List.flatMap_map]
  congr 1
  funext component
  rw [String.toList_append]
  rfl

theorem head?_flatMap_underscore (components : List String) :
    ∀ next ∈ (components.flatMap fun component => '_' :: component.toList).head?, next = '_' := by
  cases components <;> simp

theorem tuple_injective {left right : List String}
    (leftPlain : ∀ component ∈ left, '_' ∉ component.toList)
    (rightPlain : ∀ component ∈ right, '_' ∉ component.toList)
    (same : (tuple left).name = (tuple right).name) : left = right := by
  have tails := congrArg String.toList (tail_eq_of_name_eq same)
  rw [toList_tail_tuple, toList_tail_tuple] at tails
  clear same
  induction left generalizing right with
  | nil =>
      cases right with
      | nil => rfl
      | cons => simp at tails
  | cons head rest induction =>
      cases right with
      | nil => simp at tails
      | cons other others =>
          rw [List.flatMap_cons, List.flatMap_cons, List.cons_append, List.cons_append] at tails
          rcases append_inj_of_separated (leftPlain head List.mem_cons_self)
              (rightPlain other List.mem_cons_self) (head?_flatMap_underscore rest)
              (head?_flatMap_underscore others) (List.cons.inj tails).2 with ⟨heads, later⟩
          rw [String.toList_inj.mp heads, induction
            (fun component member => leftPlain component (List.mem_cons_of_mem _ member))
            (fun component member => rightPlain component (List.mem_cons_of_mem _ member)) later]

theorem name_array_congr {element : String} {left right : Nat}
    (same : effectiveRank left = effectiveRank right) :
    (array element left).name = (array element right).name := by
  simp only [name, same]

theorem name_domain_congr {left right : Nat}
    (same : effectiveRank left = effectiveRank right) :
    (domain left).name = (domain right).name := by
  simp only [name, same]

/-! ## Keys that can be told apart -/

def explicit : CanonicalKey → CanonicalKey
  | .array element rank => .array element (effectiveRank rank)
  | .domain rank => .domain (effectiveRank rank)
  | key => key

@[simp] theorem name_explicit (key : CanonicalKey) : key.explicit.name = key.name := by
  cases key with
  | array => exact name_array_congr (effectiveRank_effectiveRank _)
  | domain => exact name_domain_congr (effectiveRank_effectiveRank _)
  | _ => rfl

/-- Components of a tuple hold no underscore, and an index type is over a number. Elements may
have any names. -/
def Separable : CanonicalKey → Prop
  | .tuple components => ∀ component ∈ components, '_' ∉ component.toList
  | .indexOfDomain _ => False
  | .array .. | .sequence _ | .domain _ | .indexOfLiteral _ => True

instance : (key : CanonicalKey) → Decidable key.Separable
  | .tuple components =>
      inferInstanceAs (Decidable (∀ component ∈ components, '_' ∉ component.toList))
  | .indexOfDomain _ => inferInstanceAs (Decidable False)
  | .array .. | .sequence _ | .domain _ | .indexOfLiteral _ => inferInstanceAs (Decidable True)

theorem explicit_eq_of_name_eq {left right : CanonicalKey} (leftSeparable : left.Separable)
    (rightSeparable : right.Separable) (same : left.name = right.name) :
    left.explicit = right.explicit := by
  have shapes := shape_eq_of_name_eq same
  cases left with
  | array =>
      cases right with
      | array =>
          rcases array_injective same with ⟨elements, ranks⟩
          rw [explicit, explicit, elements, ranks]
      | _ => cases shapes
  | sequence =>
      cases right with
      | sequence => rw [sequence_injective same]
      | _ => cases shapes
  | tuple =>
      cases right with
      | tuple => rw [tuple_injective leftSeparable rightSeparable same]
      | _ => cases shapes
  | domain =>
      cases right with
      | domain => rw [explicit, explicit, effectiveRank_eq_of_domain same]
      | _ => cases shapes
  | indexOfLiteral =>
      cases right with
      | indexOfLiteral => rw [literal_injective same]
      | indexOfDomain => exact rightSeparable.elim
      | _ => cases shapes
  | indexOfDomain => exact leftSeparable.elim

/-- Separable keys have one name just if they are the same once ranks are explicit. In
particular, names of different shapes differ. -/
theorem name_eq_iff_explicit_eq {left right : CanonicalKey} (leftSeparable : left.Separable)
    (rightSeparable : right.Separable) :
    (left.name = right.name ↔ left.explicit = right.explicit) ∧
      (left.shape ≠ right.shape → left.name ≠ right.name) := by
  refine ⟨⟨explicit_eq_of_name_eq leftSeparable rightSeparable, fun same => ?_⟩, ?_⟩
  · rw [← name_explicit left, same, name_explicit]
  · exact fun different same => different (shape_eq_of_name_eq same)

/-- An element that looks like an array with a rank is told apart from the array itself, and an
empty component from none. -/
theorem name_eq_iff_explicit_eq_of_lookalikes :
    (array "_array_Int32_2d" 0).name = (array "_array_Int32_2d" 1).name ∧
      (array "_array_Int32" 2).name ≠ (array "Int32_2d" 2).name ∧
      (tuple ["Int32", ""]).Separable ∧ (tuple ["Int32"]).Separable ∧
      (tuple ["Int32", ""]).name ≠ (tuple ["Int32"]).name := by
  have arrays : ∀ element rank, (array element rank).Separable := fun _ _ => trivial
  have padded : (tuple ["Int32", ""]).Separable := by decide
  have single : (tuple ["Int32"]).Separable := by decide
  refine ⟨(name_eq_iff_explicit_eq (arrays _ _) (arrays _ _)).1.mpr rfl, fun same => ?_,
    padded, single, fun same => ?_⟩
  · exact absurd ((name_eq_iff_explicit_eq (arrays _ _) (arrays _ _)).1.mp same) (by decide)
  · exact absurd ((name_eq_iff_explicit_eq padded single).1.mp same) (by decide)

end CanonicalKey

end StructuralTypes
