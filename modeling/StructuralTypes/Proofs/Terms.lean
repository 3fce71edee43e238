import StructuralTypes.Proofs.KeyName

/-! What the name of a nested type says about the type. Names nest without brackets. The rank
at the end of an array tells where its element ends, but nothing tells where a tuple ends: the
components that follow a tuple read like more of its own. -/

namespace StructuralTypes

/-- A structural type with its parts, down to primitives. -/
inductive Term where
  | primitive (scalar : Primitive)
  | array (element : Term) (rank : Nat)
  | sequence (element : Term)
  | tuple (components : List Term)
  | domain (rank : Nat)
  | indexOfLiteral (value : Int)
  /-- The index type of a domain of `rank` dimensions. -/
  | indexOfDomain (rank : Nat)
  deriving Repr

namespace Term

mutual

def name : Term → String
  | .primitive scalar => scalar.name
  | .array element rank => (CanonicalKey.array element.name rank).name
  | .sequence element => (CanonicalKey.sequence element.name).name
  | .tuple components => (CanonicalKey.tuple (names components)).name
  | .domain rank => (CanonicalKey.domain rank).name
  | .indexOfLiteral value => (CanonicalKey.indexOfLiteral value).name
  | .indexOfDomain rank =>
      (CanonicalKey.indexOfDomain (CanonicalKey.domain rank).name).name

def names : List Term → List String
  | [] => []
  | term :: rest => term.name :: names rest

end

mutual

def explicit : Term → Term
  | .array element rank => .array element.explicit (effectiveRank rank)
  | .sequence element => .sequence element.explicit
  | .tuple components => .tuple (explicitAll components)
  | .domain rank => .domain (effectiveRank rank)
  | .indexOfDomain rank => .indexOfDomain (effectiveRank rank)
  | .primitive scalar => .primitive scalar
  | .indexOfLiteral value => .indexOfLiteral value

def explicitAll : List Term → List Term
  | [] => []
  | term :: rest => term.explicit :: explicitAll rest

end

/-! ## Names in pieces

The underscores of a name cut it into pieces that are free of underscores, so the name says
just what the list of its pieces says. -/

def rankText (rank : Nat) : String :=
  toString (effectiveRank rank) ++ "d"

mutual

def pieces : Term → List String
  | .primitive scalar => [scalar.name]
  | .array element rank => "" :: "array" :: (element.pieces ++ [rankText rank])
  | .sequence element => "" :: "seq" :: element.pieces
  | .tuple components => "" :: "tuple" :: piecesAll components
  | .domain rank => ["", "domain", rankText rank]
  | .indexOfLiteral value => ["", "index", toString value, "d"]
  | .indexOfDomain rank => ["", "index", "", "domain", rankText rank]

def piecesAll : List Term → List String
  | [] => []
  | term :: rest => term.pieces ++ piecesAll rest

end

def joined (pieces : List String) : List Char :=
  pieces.flatMap fun piece => '_' :: piece.toList

theorem joined_eq (pieces : List String) :
    joined pieces = (CanonicalKey.tuple pieces).tail.toList :=
  (CanonicalKey.toList_tail_tuple pieces).symm

@[simp] theorem joined_nil : joined [] = [] :=
  rfl

@[simp] theorem joined_cons (piece : String) (rest : List String) :
    joined (piece :: rest) = '_' :: (piece.toList ++ joined rest) :=
  List.flatMap_cons

@[simp] theorem joined_append (left right : List String) :
    joined (left ++ right) = joined left ++ joined right :=
  List.flatMap_append

mutual

theorem joined_pieces (term : Term) : joined term.pieces = '_' :: term.name.toList := by
  cases term with
  | primitive scalar => simp [pieces, name]
  | array element rank =>
      have inner := joined_pieces element
      simp [pieces, name, CanonicalKey.name, rankText, inner]
  | sequence element =>
      have inner := joined_pieces element
      simp [pieces, name, CanonicalKey.name, inner]
  | tuple components =>
      have inner := joined_piecesAll components
      simp [pieces, name, CanonicalKey.name_eq, CanonicalKey.stem, ← joined_eq, inner]
  | domain rank => simp [pieces, name, CanonicalKey.name, rankText]
  | indexOfLiteral value => simp [pieces, name, CanonicalKey.name]
  | indexOfDomain rank => simp [pieces, name, CanonicalKey.name, rankText]

theorem joined_piecesAll (terms : List Term) :
    joined (piecesAll terms) = joined (names terms) := by
  cases terms with
  | nil => rfl
  | cons term rest =>
      rw [piecesAll, names, joined_append, joined_cons, joined_pieces term,
        joined_piecesAll rest, List.cons_append]

end

theorem underscore_not_mem_rankText (rank : Nat) : '_' ∉ (rankText rank).toList := by
  rw [rankText, String.toList_append]
  exact CanonicalKey.underscore_not_mem_digits _

theorem underscore_not_mem_literal (value : Int) : '_' ∉ (toString value).toList := by
  have natural : ∀ number : Nat, '_' ∉ number.repr.toList := by
    intro number member
    rw [Nat.toList_repr] at member
    exact Nat.underscore_not_in_toDigits member
  rw [Int.toString_eq_repr]
  cases value with
  | ofNat number => exact natural number
  | negSucc number =>
      rw [Int.repr, String.toList_append]
      intro member
      rcases List.mem_append.mp member with sign | digits
      · exact absurd sign (by decide)
      · exact natural _ digits

mutual

theorem plain_pieces (term : Term) : ∀ piece ∈ term.pieces, '_' ∉ piece.toList := by
  cases term with
  | primitive scalar =>
      simp only [pieces, List.forall_mem_singleton]
      cases scalar <;> decide
  | array element rank =>
      simp only [pieces, List.forall_mem_cons, List.forall_mem_append]
      exact ⟨by decide, by decide, plain_pieces element, underscore_not_mem_rankText rank, by simp⟩
  | sequence element =>
      simp only [pieces, List.forall_mem_cons]
      exact ⟨by decide, by decide, plain_pieces element⟩
  | tuple components =>
      simp only [pieces, List.forall_mem_cons]
      exact ⟨by decide, by decide, plain_piecesAll components⟩
  | domain rank =>
      simp only [pieces, List.forall_mem_cons]
      exact ⟨by decide, by decide, underscore_not_mem_rankText rank, by simp⟩
  | indexOfLiteral value =>
      simp only [pieces, List.forall_mem_cons]
      exact ⟨by decide, by decide, underscore_not_mem_literal value, by decide, by simp⟩
  | indexOfDomain rank =>
      simp only [pieces, List.forall_mem_cons]
      exact ⟨by decide, by decide, by decide, by decide, underscore_not_mem_rankText rank, by simp⟩

theorem plain_piecesAll (terms : List Term) :
    ∀ piece ∈ piecesAll terms, '_' ∉ piece.toList := by
  cases terms with
  | nil => simp [piecesAll]
  | cons term rest =>
      simp only [piecesAll, List.forall_mem_append]
      exact ⟨plain_pieces term, plain_piecesAll rest⟩

end

theorem name_eq_iff_pieces_eq {left right : Term} :
    left.name = right.name ↔ left.pieces = right.pieces := by
  constructor
  · intro same
    have tails :
        (CanonicalKey.tuple left.pieces).tail = (CanonicalKey.tuple right.pieces).tail := by
      apply String.toList_inj.mp
      rw [← joined_eq, ← joined_eq, joined_pieces, joined_pieces, same]
    apply CanonicalKey.tuple_injective left.plain_pieces right.plain_pieces
    rw [CanonicalKey.name_eq, CanonicalKey.name_eq, tails]
    rfl
  · intro same
    have joins := joined_pieces left
    rw [same, joined_pieces right] at joins
    exact (String.toList_inj.mp (List.cons.inj joins).2).symm

/-! ## Where a term ends -/

/-- Whether more components can follow in the name of the term: a tuple never ends, nor does a
sequence over one. -/
def isOpen : Term → Bool
  | .tuple _ => true
  | .sequence element => element.isOpen
  | .primitive _ | .array .. | .domain _ | .indexOfLiteral _ | .indexOfDomain _ => false

/-- Nothing follows an open term. -/
def OpenLast (terms : List Term) : Prop :=
  ∀ term ∈ terms.dropLast, term.isOpen = false

theorem OpenLast.tail {term : Term} {rest : List Term} (openLast : OpenLast (term :: rest)) :
    OpenLast rest := by
  cases rest with
  | nil => simp [OpenLast]
  | cons => exact fun other member => openLast other (List.mem_cons_of_mem _ member)

theorem OpenLast.eq_nil {term : Term} {rest : List Term} (openLast : OpenLast (term :: rest))
    (isOpen : term.isOpen) : rest = [] := by
  cases rest with
  | nil => rfl
  | cons => exact absurd isOpen (by simp [openLast term List.mem_cons_self])

mutual

/-- Components of a tuple follow no tuple. -/
def Readable : Term → Prop
  | .array element _ => element.Readable
  | .sequence element => element.Readable
  | .tuple components => ReadableAll components ∧ OpenLast components
  | .primitive _ | .domain _ | .indexOfLiteral _ | .indexOfDomain _ => True

def ReadableAll : List Term → Prop
  | [] => True
  | term :: rest => term.Readable ∧ ReadableAll rest

end

/-- What may follow the pieces of an open term: the end of the name, or of the array around. -/
def Ends (rest : List String) : Prop :=
  ∀ piece ∈ rest.head?, ∃ rank, piece = rankText rank

theorem ends_nil : Ends [] := by
  intro piece member
  cases member

theorem ends_rankText (rank : Nat) (rest : List String) : Ends (rankText rank :: rest) := by
  intro piece member
  cases member
  exact ⟨rank, rfl⟩

theorem OpenLast.ends {term : Term} {terms : List Term} {rest : List String}
    (openLast : OpenLast (term :: terms)) (ends : Ends rest) :
    term.isOpen → Ends (piecesAll terms ++ rest) := by
  intro isOpen
  rw [openLast.eq_nil isOpen]
  exact ends

theorem getLast?_rankText (rank : Nat) : (rankText rank).toList.getLast? = some 'd' := by
  rw [rankText, String.toList_append, show "d".toList = ['d'] from rfl, List.getLast?_concat]

theorem not_ends_pieces (term : Term) (rest : List String) : ¬Ends (term.pieces ++ rest) := by
  intro ends
  have first : ∃ piece ∈ (term.pieces ++ rest).head?, piece.toList.getLast? ≠ some 'd' := by
    cases term with
    | primitive scalar => exact ⟨scalar.name, rfl, by cases scalar <;> decide⟩
    | _ => exact ⟨"", rfl, by decide⟩
  rcases first with ⟨piece, member, other⟩
  rcases ends piece member with ⟨rank, rfl⟩
  exact other (getLast?_rankText rank)

theorem effectiveRank_eq_of_rankText {left right : Nat} (same : rankText left = rankText right) :
    effectiveRank left = effectiveRank right := by
  have texts := congrArg String.toList same
  simp only [rankText, String.toList_append] at texts
  exact CanonicalKey.toString_injective (List.append_cancel_right texts)

theorem name_primitive_ne_empty (scalar : Primitive) : scalar.name ≠ "" := by
  cases scalar <;> decide

theorem primitive_eq_of_name {left right : Primitive} (same : left.name = right.name) :
    left = right := by
  cases left <;> cases right <;> first | rfl | exact absurd same (by decide)

mutual

/-- Readable terms can be taken off the front of a list of pieces in one way only. -/
theorem decode (left right : Term) {leftRest rightRest : List String}
    (leftReadable : left.Readable) (rightReadable : right.Readable)
    (leftEnds : left.isOpen → Ends leftRest) (rightEnds : right.isOpen → Ends rightRest)
    (same : left.pieces ++ leftRest = right.pieces ++ rightRest) :
    left.explicit = right.explicit ∧ leftRest = rightRest := by
  -- The first pieces tell what a term is built by, and its parts are taken off in turn.
  cases left with
  | primitive first =>
      cases right with
      | primitive second =>
          rcases List.cons.inj same with ⟨names, rests⟩
          rw [primitive_eq_of_name names]
          exact ⟨rfl, rests⟩
      | _ => simp [pieces, name_primitive_ne_empty] at same
  | array first leftRank =>
      cases right with
      | array second rightRank =>
          simp only [pieces, List.cons_append, List.append_assoc, List.cons.injEq, true_and,
            List.nil_append] at same
          rcases decode first second leftReadable rightReadable
            (fun _ => ends_rankText leftRank leftRest)
            (fun _ => ends_rankText rightRank rightRest) same with ⟨elements, rests⟩
          rcases List.cons.inj rests with ⟨ranks, rests⟩
          rw [explicit, explicit, elements, effectiveRank_eq_of_rankText ranks]
          exact ⟨rfl, rests⟩
      | _ => simp [pieces, (name_primitive_ne_empty _).symm] at same
  | sequence first =>
      cases right with
      | sequence second =>
          simp only [pieces, List.cons_append, List.cons.injEq, true_and] at same
          rcases decode first second leftReadable rightReadable leftEnds rightEnds same with
            ⟨elements, rests⟩
          rw [explicit, explicit, elements]
          exact ⟨rfl, rests⟩
      | _ => simp [pieces, (name_primitive_ne_empty _).symm] at same
  | tuple first =>
      cases right with
      | tuple second =>
          simp only [pieces, List.cons_append, List.cons.injEq, true_and] at same
          rcases decodeAll first second leftReadable.1 rightReadable.1 leftReadable.2
            rightReadable.2 (leftEnds rfl) (rightEnds rfl) same with ⟨components, rests⟩
          rw [explicit, explicit, components]
          exact ⟨rfl, rests⟩
      | _ => simp [pieces, (name_primitive_ne_empty _).symm] at same
  | domain leftRank =>
      cases right with
      | domain rightRank =>
          simp only [pieces, List.cons_append, List.cons.injEq, true_and, List.nil_append] at same
          rw [explicit, explicit, effectiveRank_eq_of_rankText same.1]
          exact ⟨rfl, same.2⟩
      | _ => simp [pieces, (name_primitive_ne_empty _).symm] at same
  | indexOfLiteral first =>
      cases right with
      | indexOfLiteral second =>
          simp only [pieces, List.cons_append, List.cons.injEq, true_and, List.nil_append] at same
          rcases same with ⟨values, rests⟩
          rw [Int.toString_eq_repr, Int.toString_eq_repr] at values
          rw [CanonicalKey.repr_injective (congrArg String.toList values)]
          exact ⟨rfl, rests⟩
      | _ => simp [pieces, (name_primitive_ne_empty _).symm] at same
  | indexOfDomain leftRank =>
      cases right with
      | indexOfDomain rightRank =>
          simp only [pieces, List.cons_append, List.cons.injEq, true_and, List.nil_append] at same
          rw [explicit, explicit, effectiveRank_eq_of_rankText same.1]
          exact ⟨rfl, same.2⟩
      | _ => simp [pieces, (name_primitive_ne_empty _).symm] at same

theorem decodeAll (left right : List Term) {leftRest rightRest : List String}
    (leftReadable : ReadableAll left) (rightReadable : ReadableAll right)
    (leftOpen : OpenLast left) (rightOpen : OpenLast right)
    (leftEnds : Ends leftRest) (rightEnds : Ends rightRest)
    (same : piecesAll left ++ leftRest = piecesAll right ++ rightRest) :
    explicitAll left = explicitAll right ∧ leftRest = rightRest := by
  cases left with
  | nil =>
      cases right with
      | nil => exact ⟨rfl, same⟩
      | cons second others =>
          simp only [piecesAll, List.nil_append, List.append_assoc] at same
          exact absurd (same ▸ leftEnds) (not_ends_pieces second _)
  | cons first rest =>
      cases right with
      | nil =>
          simp only [piecesAll, List.nil_append, List.append_assoc] at same
          exact absurd (same ▸ rightEnds) (not_ends_pieces first _)
      | cons second others =>
          simp only [piecesAll, List.append_assoc] at same
          rcases decode first second leftReadable.1 rightReadable.1 (leftOpen.ends leftEnds)
            (rightOpen.ends rightEnds) same with ⟨heads, later⟩
          rcases decodeAll rest others leftReadable.2 rightReadable.2 leftOpen.tail
            rightOpen.tail leftEnds rightEnds later with ⟨tails, rests⟩
          rw [explicitAll, explicitAll, heads, tails]
          exact ⟨rfl, rests⟩

end

/-! ## The readable term of a name -/

mutual

def extend : Term → List Term → Term
  | .sequence element, more => .sequence (element.extend more)
  | .tuple components, more => .tuple (extendAll components more)
  | term, _ => term

def extendAll : List Term → List Term → List Term
  | [], more => more
  | term :: rest, more =>
      match extendAll rest more with
      | [] => [term]
      | next :: others =>
          if term.isOpen then [term.extend (next :: others)] else term :: next :: others

end

mutual

/-- The term that the name reads as: a tuple takes in all components that follow it. -/
def absorb : Term → Term
  | .array element rank => .array element.absorb rank
  | .sequence element => .sequence element.absorb
  | .tuple components => .tuple (extendAll (absorbAll components) [])
  | term => term

def absorbAll : List Term → List Term
  | [] => []
  | term :: rest => term.absorb :: absorbAll rest

end

mutual

theorem pieces_extend (term : Term) (more : List Term) (isOpen : term.isOpen) :
    (term.extend more).pieces = term.pieces ++ piecesAll more := by
  cases term with
  | sequence element =>
      simp only [extend, pieces, pieces_extend element more isOpen, List.cons_append]
  | tuple components =>
      simp only [extend, pieces, piecesAll_extendAll components more, List.cons_append]
  | _ => cases isOpen

theorem piecesAll_extendAll (terms more : List Term) :
    piecesAll (extendAll terms more) = piecesAll terms ++ piecesAll more := by
  cases terms with
  | nil => rfl
  | cons term rest =>
      have inner := piecesAll_extendAll rest more
      rw [extendAll, piecesAll, List.append_assoc, ← inner]
      cases extendAll rest more with
      | nil => rfl
      | cons next others =>
          simp only
          split
          next isOpen =>
            rw [piecesAll, pieces_extend term _ isOpen, piecesAll, List.append_nil]
          next => rfl

end

mutual

theorem readable_extend (term : Term) (more : List Term) (readable : term.Readable)
    (moreReadable : ReadableAll more) (moreOpen : OpenLast more) :
    (term.extend more).Readable := by
  cases term with
  | sequence element => exact readable_extend element more readable moreReadable moreOpen
  | tuple components =>
      exact readableAll_extendAll components more readable.1 moreReadable moreOpen
  | _ => exact readable

theorem readableAll_extendAll (terms more : List Term) (readable : ReadableAll terms)
    (moreReadable : ReadableAll more) (moreOpen : OpenLast more) :
    ReadableAll (extendAll terms more) ∧ OpenLast (extendAll terms more) := by
  cases terms with
  | nil => exact ⟨moreReadable, moreOpen⟩
  | cons term rest =>
      have inner := readableAll_extendAll rest more readable.2 moreReadable moreOpen
      rw [extendAll]
      cases later : extendAll rest more with
      | nil => exact ⟨⟨readable.1, trivial⟩, by simp [OpenLast]⟩
      | cons next others =>
          rw [later] at inner
          simp only
          split
          next =>
            exact ⟨⟨readable_extend term _ readable.1 inner.1 inner.2, trivial⟩,
              by simp [OpenLast]⟩
          next closed =>
            refine ⟨⟨readable.1, inner.1⟩, ?_⟩
            rw [OpenLast, List.dropLast_cons_cons, List.forall_mem_cons]
            exact ⟨by simpa using closed, inner.2⟩

end

theorem extendAll_nil {terms : List Term} (openLast : OpenLast terms) :
    extendAll terms [] = terms := by
  induction terms with
  | nil => rfl
  | cons term rest induction =>
      rw [extendAll, induction openLast.tail]
      cases rest with
      | nil => rfl
      | cons => simp [openLast term List.mem_cons_self]

mutual

theorem pieces_absorb (term : Term) : term.absorb.pieces = term.pieces := by
  cases term with
  | array element => simp only [absorb, pieces, pieces_absorb element]
  | sequence element => simp only [absorb, pieces, pieces_absorb element]
  | tuple components =>
      simp only [absorb, pieces, piecesAll_extendAll, piecesAll_absorbAll components]
      rw [piecesAll, List.append_nil]
  | _ => rfl

theorem piecesAll_absorbAll (terms : List Term) :
    piecesAll (absorbAll terms) = piecesAll terms := by
  cases terms with
  | nil => rfl
  | cons term rest =>
      rw [absorbAll, piecesAll, piecesAll, pieces_absorb term, piecesAll_absorbAll rest]

end

mutual

theorem readable_absorb (term : Term) : term.absorb.Readable := by
  cases term with
  | array element => exact readable_absorb element
  | sequence element => exact readable_absorb element
  | tuple components =>
      exact readableAll_extendAll _ _ (readableAll_absorbAll components) trivial
        (by simp [OpenLast])
  | _ => trivial

theorem readableAll_absorbAll (terms : List Term) : ReadableAll (absorbAll terms) := by
  cases terms with
  | nil => trivial
  | cons term rest => exact ⟨readable_absorb term, readableAll_absorbAll rest⟩

end

mutual

theorem absorb_of_readable (term : Term) (readable : term.Readable) : term.absorb = term := by
  cases term with
  | array element => rw [absorb, absorb_of_readable element readable]
  | sequence element => rw [absorb, absorb_of_readable element readable]
  | tuple components =>
      rw [absorb, absorbAll_of_readable components readable.1, extendAll_nil readable.2]
  | _ => rfl

theorem absorbAll_of_readable (terms : List Term) (readable : ReadableAll terms) :
    absorbAll terms = terms := by
  cases terms with
  | nil => rfl
  | cons term rest =>
      rw [absorbAll, absorb_of_readable term readable.1, absorbAll_of_readable rest readable.2]

end

theorem rankText_effectiveRank (rank : Nat) : rankText (effectiveRank rank) = rankText rank := by
  rw [rankText, effectiveRank_effectiveRank, rankText]

mutual

theorem pieces_explicit (term : Term) : term.explicit.pieces = term.pieces := by
  cases term with
  | array element => simp only [explicit, pieces, pieces_explicit element, rankText_effectiveRank]
  | sequence element => simp only [explicit, pieces, pieces_explicit element]
  | tuple components => simp only [explicit, pieces, piecesAll_explicitAll components]
  | domain | indexOfDomain => simp only [explicit, pieces, rankText_effectiveRank]
  | _ => rfl

theorem piecesAll_explicitAll (terms : List Term) :
    piecesAll (explicitAll terms) = piecesAll terms := by
  cases terms with
  | nil => rfl
  | cons term rest =>
      rw [explicitAll, piecesAll, piecesAll, pieces_explicit term, piecesAll_explicitAll rest]

end

/-- Terms have one name just if they read as one term. A readable term reads as itself, so the
name of a readable term tells the term up to the shorthand rank. -/
theorem name_eq_iff_absorb_eq (left right : Term) :
    (left.name = right.name ↔ left.absorb.explicit = right.absorb.explicit) ∧
      (left.Readable → right.Readable →
        (left.name = right.name ↔ left.explicit = right.explicit)) := by
  have reads : left.name = right.name ↔ left.absorb.explicit = right.absorb.explicit := by
    rw [name_eq_iff_pieces_eq]
    constructor
    · intro same
      refine (decode left.absorb right.absorb left.readable_absorb right.readable_absorb
        (fun _ => ends_nil) (fun _ => ends_nil) ?_).1
      rw [pieces_absorb, pieces_absorb, same]
    · intro same
      rw [← pieces_absorb left, ← pieces_explicit, same, pieces_explicit, pieces_absorb]
  refine ⟨reads, fun leftReadable rightReadable => ?_⟩
  rw [reads, absorb_of_readable left leftReadable, absorb_of_readable right rightReadable]

/-- An array ends its element, also before another component. -/
theorem name_eq_iff_absorb_eq_of_arrays :
    ∃ left right : Term, left.Readable ∧ right.Readable ∧ left ≠ right ∧
      left.name = right.name := by
  have readable : ∀ rank : Nat, Readable
      (.tuple [.array (.tuple [.primitive .int32]) rank,
        .sequence (.tuple [.primitive .bool])]) := by
    intro rank
    simp [Readable, ReadableAll, OpenLast, isOpen]
  refine ⟨_, _, readable 0, readable 1, by simp,
    ((name_eq_iff_absorb_eq _ _).2 (readable 0) (readable 1)).mpr ?_⟩
  simp [explicit, explicitAll, effectiveRank]

/-- A component after a tuple reads like a component of the tuple. -/
theorem exists_terms_conflated :
    ∃ left right : Term, left.name = right.name ∧ left.explicit ≠ right.explicit := by
  refine ⟨.tuple [.tuple [.primitive .int32], .primitive .bool],
    .tuple [.tuple [.primitive .int32, .primitive .bool]], by decide, ?_⟩
  simp [explicit, explicitAll]

end Term

end StructuralTypes
