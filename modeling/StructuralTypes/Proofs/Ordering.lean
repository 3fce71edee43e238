import Mathlib.Data.List.Nodup
import StructuralTypes.Proofs.Extension

/-! Where statements stand relative to each other. Orders that are added to keep the sequence
of what was there, and so does the reading order; what trails another statement in its body
goes on to trail it, with nothing but synthesized statements in between. -/

namespace StructuralTypes

/-! ## Lists with additions -/

namespace Supplements

variable {α : Type} {added : α → Prop} {elements more : List α}

theorem sublist (supplements : Supplements added elements more) : elements.Sublist more := by
  induction supplements with
  | nil => exact .slnil
  | keep _ induction => exact induction.cons_cons _
  | put _ _ induction => exact induction.cons _

theorem of_append_cons {front back : List α} {element : α}
    (supplements : Supplements added (front ++ element :: back) more) :
    ∃ before after, more = before ++ element :: after ∧
      Supplements added front before ∧ Supplements added back after := by
  generalize isAll : front ++ element :: back = all at supplements
  induction supplements generalizing front with
  | nil => simp at isAll
  | @keep head rest later supplements induction =>
      cases front with
      | nil =>
          cases isAll
          exact ⟨[], later, rfl, .nil, supplements⟩
      | cons first front =>
          simp only [List.cons_append, List.cons.injEq] at isAll
          rcases isAll with ⟨rfl, isRest⟩
          rcases induction isRest with ⟨before, after, rfl, inFront, inBack⟩
          exact ⟨first :: before, after, rfl, .keep inFront, inBack⟩
  | put new _ induction =>
      rcases induction isAll with ⟨before, after, rfl, inFront, inBack⟩
      exact ⟨_ :: before, after, rfl, .put new inFront, inBack⟩

end Supplements

theorem not_mem_of_nodup {α : Type} {front back : List α} {element : α}
    (unique : (front ++ element :: back).Nodup) : element ∉ front ∧ element ∉ back := by
  have alone := (List.nodup_cons.mp (List.nodup_middle.mp unique)).1
  rwa [List.mem_append, not_or] at alone

/-! ## What follows every occurrence of an element -/

/-- Wherever `element` stands in the list, `tail` comes next. -/
def Followed {α : Type} (element : α) (tail list : List α) : Prop :=
  ∀ rest, (element :: rest) <:+ list → tail <+: rest

namespace Followed

variable {α : Type} {element other : α} {tail first second : List α}

theorem of_not_mem (missing : element ∉ first) : Followed element tail first :=
  fun _ suffix => absurd (suffix.subset List.mem_cons_self) missing

theorem append (inFirst : Followed element tail first) (inSecond : Followed element tail second) :
    Followed element tail (first ++ second) := by
  intro rest suffix
  rcases suffix with ⟨front, same⟩
  rcases List.append_eq_append_iff.mp same with ⟨more, rfl, inner⟩ | ⟨more, rfl, rfl⟩
  · cases more with
    | nil => exact inSecond rest ⟨[], inner⟩
    | cons head more =>
        simp only [List.cons_append, List.cons.injEq] at inner
        rcases inner with ⟨rfl, rfl⟩
        exact (inFirst more ⟨front, rfl⟩).trans (List.prefix_append more second)
  · exact inSecond rest ⟨more, rfl⟩

theorem cons (different : other ≠ element) (follows : Followed element tail first) :
    Followed element tail (other :: first) := by
  intro rest suffix
  rcases List.suffix_cons_iff.mp suffix with same | inside
  · cases same
    contradiction
  · exact follows rest inside

theorem sublist (follows : Followed element tail first) {last : α}
    (inOrder : [element, last].Sublist first) (outside : last ∉ tail) {member : α}
    (inTail : member ∈ tail) : [member, last].Sublist first := by
  rcases List.cons_sublist_iff.mp inOrder with ⟨front, back, rfl, inFront, inBack⟩
  rcases List.append_of_mem inFront with ⟨before, between, rfl⟩
  have same : before ++ element :: (between ++ back) = before ++ element :: between ++ back := by
    simp
  rcases follows (between ++ back) ⟨before, same⟩ with ⟨rest, isRest⟩
  have later : last ∈ rest := by
    have inAll : last ∈ tail ++ rest := by
      rw [isRest]
      exact List.mem_append_right _ (List.singleton_sublist.mp inBack)
    exact (List.mem_append.mp inAll).resolve_left outside
  rw [← same, ← isRest]
  refine List.Sublist.trans ?_ (List.sublist_append_right before _)
  have anchored : [member].Sublist tail := List.singleton_sublist.mpr inTail
  exact .cons _ (anchored.append (List.singleton_sublist.mpr later))

theorem flatMap {β : Type} {element : β} {tail : List β} {elements : List α}
    {part : α → List β} (each : ∀ member ∈ elements, Followed element tail (part member)) :
    Followed element tail (elements.flatMap part) := by
  induction elements with
  | nil => exact of_not_mem (by simp)
  | cons head rest induction =>
      rw [List.flatMap_cons]
      exact (each head List.mem_cons_self).append
        (induction fun member inRest => each member (List.mem_cons_of_mem _ inRest))

end Followed

namespace Layout

variable {layout before after : Layout}

/-! ## Reading a body -/

def segment (layout : Layout) (depth : Nat) (ref : StatementRef) : List StatementRef :=
  (layout.withInner (layout.preorderWithin depth) ref).toOption.getD []

theorem flatten_of_mapM {ε α β : Type} {answer : α → Except ε (List β)} {elements : List α}
    {answers : List (List β)} (mapped : elements.mapM answer = .ok answers) :
    answers.flatten = elements.flatMap fun element => (answer element).toOption.getD [] := by
  induction elements generalizing answers with
  | nil =>
      simp only [List.mapM_nil, Except.pure_eq_ok_iff] at mapped
      subst mapped
      rfl
  | cons head rest induction =>
      simp only [List.mapM_cons, Except.bind_eq_ok_iff, Except.pure_eq_ok_iff] at mapped
      rcases mapped with ⟨first, here, others, later, rfl⟩
      rw [List.flatten_cons, List.flatMap_cons, induction later, here]
      rfl

theorem eq_flatMap_segment {depth : Nat} {body : BodyRef} {read : List StatementRef}
    (listed : layout.preorderWithin depth body = .ok read) :
    ∃ less content, depth = less + 1 ∧ layout.bodies.get? body = some content ∧
      read = content.order.flatMap (layout.segment less) ∧
      ∀ ref ∈ content.order,
        layout.withInner (layout.preorderWithin less) ref = .ok (layout.segment less ref) := by
  cases depth with
  | zero => simp [preorderWithin, Except.throw_eq_ok_iff] at listed
  | succ less =>
      simp only [preorderWithin, Except.bind_eq_ok_iff, Except.pure_eq_ok_iff,
        order_eq_ok_iff] at listed
      rcases listed with ⟨order, ⟨content, stored, rfl⟩, segments, mapped, rfl⟩
      refine ⟨less, content, rfl, stored, flatten_of_mapM mapped, ?_⟩
      intro ref member
      rcases exists_of_mapM_eq_ok mapped member with ⟨part, -, partListed⟩
      rw [segment, partListed]
      rfl

theorem eq_cons_of_withInner {inner : BodyRef → Except Fault (List StatementRef)}
    {ref : StatementRef} {part : List StatementRef}
    (listed : layout.withInner inner ref = .ok part) :
    ∃ placed, layout.statements.get? ref = some placed ∧
      ((∃ body rest, placed.statement.kind = .block body ∧ inner body = .ok rest ∧
          part = ref :: rest) ∨
        (∀ body, placed.statement.kind ≠ .block body) ∧ part = [ref]) := by
  simp only [withInner, Except.bind_eq_ok_iff, statement_eq_ok_iff] at listed
  rcases listed with ⟨statement, ⟨holder, stored⟩, listed⟩
  refine ⟨_, stored, ?_⟩
  split at listed
  · rename_i body block
    simp only [Except.bind_eq_ok_iff, Except.pure_eq_ok_iff] at listed
    rcases listed with ⟨rest, restListed, rfl⟩
    exact .inl ⟨body, rest, block, restListed, rfl⟩
  · rename_i notBlock
    simp only [Except.pure_eq_ok_iff] at listed
    exact .inr ⟨notBlock, listed.symm⟩

def Leaf (layout : Layout) (ref : StatementRef) : Prop :=
  ∃ placed, layout.statements.get? ref = some placed ∧
    ∀ body, placed.statement.kind ≠ .block body

theorem Leaf.segment_eq {depth : Nat} {ref : StatementRef} (leaf : layout.Leaf ref)
    (listed : layout.withInner (layout.preorderWithin depth) ref =
      .ok (layout.segment depth ref)) : layout.segment depth ref = [ref] := by
  rcases leaf with ⟨placed, stored, notBlock⟩
  rcases eq_cons_of_withInner listed with
    ⟨again, againStored, ⟨body, _, block, -, -⟩ | ⟨-, same⟩⟩
  · cases Option.mem_unique stored againStored
    exact absurd block (notBlock body)
  · exact same

theorem flatMap_segment_of_leaves {depth : Nat} {order : List StatementRef}
    (leaves : ∀ ref ∈ order, layout.Leaf ref)
    (listed : ∀ ref ∈ order,
      layout.withInner (layout.preorderWithin depth) ref = .ok (layout.segment depth ref)) :
    order.flatMap (layout.segment depth) = order := by
  induction order with
  | nil => rfl
  | cons ref rest induction =>
      rw [List.flatMap_cons,
        (leaves ref List.mem_cons_self).segment_eq (listed ref List.mem_cons_self),
        induction (fun other member => leaves other (List.mem_cons_of_mem _ member))
          (fun other member => listed other (List.mem_cons_of_mem _ member))]
      rfl

theorem order_sublist_preorderWithin {depth : Nat} {body : BodyRef} {content : Body}
    {read : List StatementRef} (listed : layout.preorderWithin depth body = .ok read)
    (stored : layout.bodies.get? body = some content) : content.order.Sublist read := by
  rcases eq_flatMap_segment listed with ⟨less, other, -, otherStored, rfl, each⟩
  cases Option.mem_unique stored otherStored
  generalize content.order = order at each
  induction order with
  | nil => exact .slnil
  | cons ref rest induction =>
      have later := induction fun other member => each other (List.mem_cons_of_mem _ member)
      have here := mem_withInner (each ref List.mem_cons_self)
      rw [List.flatMap_cons]
      exact (List.singleton_sublist.mpr here).append later

theorem order_sublist_preorder {roots : List BodyRef} {read : List StatementRef}
    (listed : layout.preorder roots = .ok read) {body : BodyRef}
    (reached : layout.Reachable roots body) {content : Body}
    (stored : layout.bodies.get? body = some content) : content.order.Sublist read := by
  -- The part of the reading order that a reachable body contributes.
  have part : ∃ depth part, layout.preorderWithin depth body = .ok part ∧ part.Sublist read := by
    clear stored
    induction reached with
    | root inRoots =>
        simp only [preorder, Except.bind_eq_ok_iff, Except.pure_eq_ok_iff] at listed
        rcases listed with ⟨segments, mapped, rfl⟩
        rcases exists_of_mapM_eq_ok mapped inRoots with ⟨part, found, partListed⟩
        exact ⟨layout.blockDepth, part, partListed, List.sublist_flatten_of_mem found⟩
    | @inner outer inner content ref placed _ outerStored inOrder found block induction =>
        rcases induction with ⟨depth, outerPart, outerListed, outerRead⟩
        rcases eq_flatMap_segment outerListed with ⟨less, other, -, otherStored, rfl, each⟩
        cases Option.mem_unique outerStored otherStored
        have isPart := each ref inOrder
        rcases eq_cons_of_withInner isPart with
          ⟨again, againStored, ⟨body, rest, isBlock, restListed, same⟩ | ⟨notBlock, -⟩⟩
        · cases Option.mem_unique found againStored
          cases StatementKind.block.inj (block.symm.trans isBlock)
          refine ⟨less, rest, restListed, ?_⟩
          have inSegment : rest.Sublist (layout.segment less ref) := by
            rw [same]
            exact List.sublist_cons_self ref rest
          refine (inSegment.trans ?_).trans outerRead
          rw [List.flatMap_def]
          exact List.sublist_flatten_of_mem (List.mem_map_of_mem inOrder)
        · cases Option.mem_unique found againStored
          exact absurd block (notBlock _)
  rcases part with ⟨depth, part, partListed, partRead⟩
  exact (order_sublist_preorderWithin partListed stored).trans partRead

/-! ## Statements in their places -/

/-- Every statement has one place, in the order of the body that it is linked into. -/
structure PlacedOnce (layout : Layout) : Prop where
  placed : ∀ ref placed, layout.statements.get? ref = some placed →
    ∃ body content, placed.body = some body ∧ layout.bodies.get? body = some content ∧
      ref ∈ content.order
  held : ∀ body content ref, layout.bodies.get? body = some content → ref ∈ content.order →
    ∃ statement, layout.statements.get? ref = some { statement, body := some body }
  nodup : ∀ body content, layout.bodies.get? body = some content → content.order.Nodup

/-- `ref` was put in by a canonicalization. -/
def Generated (layout : Layout) (ref : StatementRef) : Prop :=
  ∃ placed, layout.statements.get? ref = some placed ∧ placed.statement.synthesized = true

/-- In `body`, `follower` stands after `anchor`, with nothing but synthesized statements in
between. -/
def Trails (layout : Layout) (body : BodyRef) (anchor follower : StatementRef) : Prop :=
  ∃ content front between back, layout.bodies.get? body = some content ∧
    content.order = front ++ anchor :: (between ++ follower :: back) ∧
    ∀ ref ∈ between, layout.Generated ref

section

variable (extension : Extends before after)
include extension

theorem Extends.generated {ref : StatementRef} (generated : before.Generated ref) :
    after.Generated ref := by
  rcases generated with ⟨placed, stored, synthesized⟩
  exact ⟨placed, extension.statements ref placed stored, synthesized⟩

theorem Extends.generated_of_added {ref : StatementRef} (added : before.Added after ref) :
    after.Generated ref := by
  rcases added with ⟨missing, placed, stored⟩
  refine ⟨placed, stored, ?_⟩
  rcases extension.synthesized ref placed stored with old | ⟨symbol, body, rfl⟩
  · rw [missing] at old
    contradiction
  · rfl

theorem Trails.of_extends {body : BodyRef} {anchor follower : StatementRef}
    (trails : before.Trails body anchor follower) : after.Trails body anchor follower := by
  rcases trails with ⟨content, front, between, back, stored, ordered, generated⟩
  rcases extension.orders body content stored with ⟨later, found, -, supplements⟩
  rw [ordered] at supplements
  rcases supplements.of_append_cons with ⟨newFront, rest, laterOrder, -, supplementsRest⟩
  rcases supplementsRest.of_append_cons with ⟨newBetween, newBack, rfl, supplementsBetween, -⟩
  refine ⟨later, newFront, newBetween, newBack, found, laterOrder, ?_⟩
  intro ref member
  rcases supplementsBetween.mem_or_added member with old | added
  · exact extension.generated (generated ref old)
  · exact extension.generated_of_added added

end

theorem Trails.sublist {body : BodyRef} {content : Body} {anchor follower : StatementRef}
    (trails : layout.Trails body anchor follower)
    (stored : layout.bodies.get? body = some content) :
    [anchor, follower].Sublist content.order := by
  rcases trails with ⟨again, front, between, back, againStored, ordered, -⟩
  cases Option.mem_unique stored againStored
  rw [ordered]
  refine List.Sublist.trans ?_ (List.sublist_append_right front _)
  refine List.Sublist.cons_cons _ (List.Sublist.trans ?_ (List.sublist_append_right between _))
  exact List.singleton_sublist.mpr List.mem_cons_self

theorem Trails.trans (placedOnce : layout.PlacedOnce) {body : BodyRef}
    {anchor middle follower : StatementRef} (first : layout.Trails body anchor middle)
    (generated : layout.Generated middle) (second : layout.Trails body middle follower) :
    layout.Trails body anchor follower := by
  rcases first with ⟨content, front, between, back, stored, ordered, generatedFirst⟩
  rcases second with ⟨again, front', between', back', againStored, orderedAgain, generatedSecond⟩
  cases Option.mem_unique stored againStored
  have unique := placedOnce.nodup body content stored
  have split : content.order = (front ++ anchor :: between) ++ middle :: back := by
    rw [ordered]
    simp
  have same : (front ++ anchor :: between) ++ middle :: back =
      front' ++ middle :: (between' ++ follower :: back') := split.symm.trans orderedAgain
  rw [split] at unique
  have alone := not_mem_of_nodup unique
  rcases (List.append_cons_inj_of_notMem alone.1 alone.2).mp same with ⟨rfl, -, rfl⟩
  refine ⟨content, front, between ++ middle :: between', back', stored, ?_, ?_⟩
  · rw [ordered]
    simp
  · intro ref member
    rcases List.mem_append.mp member with inFirst | inRest
    · exact generatedFirst ref inFirst
    · rcases List.mem_cons.mp inRest with rfl | inSecond
      · exact generated
      · exact generatedSecond ref inSecond

/-- Where leaves follow an anchor in its body, they follow it in every reading. -/
theorem followed_preorderWithin (placedOnce : layout.PlacedOnce) {body : BodyRef} {content : Body}
    {front tail back : List StatementRef} {anchor : StatementRef}
    (stored : layout.bodies.get? body = some content)
    (ordered : content.order = front ++ anchor :: (tail ++ back)) (leaf : layout.Leaf anchor)
    (leaves : ∀ ref ∈ tail, layout.Leaf ref) {depth : Nat} {other : BodyRef}
    {read : List StatementRef} (listed : layout.preorderWithin depth other = .ok read) :
    Followed anchor tail read := by
  have unique := placedOnce.nodup body content stored
  rw [ordered] at unique
  rcases not_mem_of_nodup unique with ⟨notFront, notRest⟩
  rw [List.mem_append, not_or] at notRest
  induction depth generalizing other read with
  | zero => simp [preorderWithin, Except.throw_eq_ok_iff] at listed
  | succ depth induction =>
      rcases eq_flatMap_segment listed with ⟨less, found, isSucc, foundStored, rfl, each⟩
      cases isSucc
      have apartFrom : ∀ ref ∈ found.order, ref ≠ anchor →
          Followed anchor tail (layout.segment depth ref) := by
        intro ref member different
        rcases eq_cons_of_withInner (each ref member) with
          ⟨_, -, ⟨inner, rest, -, restListed, same⟩ | ⟨-, same⟩⟩
        · rw [same]
          exact (induction restListed).cons different
        · rw [same]
          exact (Followed.of_not_mem List.not_mem_nil).cons different
      -- The anchor is in one body only, and there the tail is what comes next.
      by_cases isBody : other = body
      · subst isBody
        cases Option.mem_unique stored foundStored
        rw [ordered] at each apartFrom ⊢
        have inFront : Followed anchor tail (front.flatMap (layout.segment depth)) :=
          .flatMap fun ref member => apartFrom ref (by simp [member])
            fun same => notFront (same ▸ member)
        have inBack : Followed anchor tail (back.flatMap (layout.segment depth)) :=
          .flatMap fun ref member => apartFrom ref (by simp [member])
            fun same => notRest.2 (same ▸ member)
        rw [List.flatMap_append, List.flatMap_cons, List.flatMap_append,
          leaf.segment_eq (each anchor (by simp)),
          flatMap_segment_of_leaves leaves fun ref member => each ref (by simp [member])]
        refine inFront.append ?_
        intro rest suffix
        rcases List.suffix_cons_iff.mp suffix with same | inside
        · cases same
          exact List.prefix_append tail _
        · exact ((Followed.of_not_mem notRest.1).append inBack) rest inside
      · refine .flatMap fun ref member => apartFrom ref member ?_
        intro same
        subst same
        rcases placedOnce.held body content ref stored (by simp [ordered]) with ⟨_, here⟩
        rcases placedOnce.held other found ref foundStored member with ⟨_, there⟩
        cases Option.mem_unique here there
        exact isBody rfl

theorem Trails.sublist_preorder (placedOnce : layout.PlacedOnce)
    (leaves : ∀ ref, layout.Generated ref → layout.Leaf ref) {body : BodyRef}
    {anchor follower last : StatementRef} (trails : layout.Trails body anchor follower)
    (leaf : layout.Leaf anchor) (generated : layout.Generated follower)
    {roots : List BodyRef} {read : List StatementRef}
    (listed : layout.preorder roots = .ok read) (inOrder : [anchor, last].Sublist read)
    (written : ¬layout.Generated last) : [follower, last].Sublist read := by
  rcases trails with ⟨content, front, between, back, stored, ordered, generatedBetween⟩
  have inTail : ∀ ref ∈ between ++ [follower], layout.Generated ref := by
    intro ref member
    rcases List.mem_append.mp member with inBetween | isFollower
    · exact generatedBetween ref inBetween
    · exact List.mem_singleton.mp isFollower ▸ generated
  have split : content.order = front ++ anchor :: ((between ++ [follower]) ++ back) := by
    rw [ordered]
    simp
  have follows : Followed anchor (between ++ [follower]) read := by
    simp only [preorder, Except.bind_eq_ok_iff, Except.pure_eq_ok_iff] at listed
    rcases listed with ⟨segments, mapped, rfl⟩
    rw [flatten_of_mapM mapped]
    refine .flatMap fun root member => ?_
    rcases exists_of_mapM_eq_ok mapped member with ⟨part, -, partListed⟩
    rw [partListed]
    exact followed_preorderWithin placedOnce stored split leaf
      (fun ref inside => leaves ref (inTail ref inside)) partListed
  exact follows.sublist inOrder (fun member => written (inTail last member))
    (List.mem_append_right _ List.mem_cons_self)

end Layout

end StructuralTypes
