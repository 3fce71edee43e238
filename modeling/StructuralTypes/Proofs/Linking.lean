import StructuralTypes.Proofs.Ordering

/-! Exactly where a new statement comes to stand. Wherever it is placed, it goes between two
parts of the order of one body, and each statement goes on to have one place. -/

namespace StructuralTypes

/-- The part of the order of `body` that a position picks for `new`. -/
def Position.Picks (new : StatementRef) (body : BodyRef) (content later : Body)
    (front back : List StatementRef) : Position → Prop
  | .shared => body = Program.sharedBody ∧ front.getLast? = content.lastSynthesized ∧
      later.lastSynthesized = some new
  | .after anchor => front.getLast? = some anchor ∧
      later.lastSynthesized = content.lastSynthesized
  | .before anchor => back.head? = some anchor ∧
      later.lastSynthesized = content.lastSynthesized

namespace Layout

variable {layout before after linked : Layout}

/-- `after` is `before` with a new statement in `body`, between `front` and `back`. -/
structure Inserts (before after : Layout) (statement : Statement) (body : BodyRef)
    (content later : Body) (front back : List StatementRef) : Prop where
  stored : before.bodies.get? body = some content
  split : content.order = front ++ back
  statements : after.statements = before.statements.push { statement, body := some body }
  laterStored : after.bodies.get? body = some later
  order : later.order = front ++ before.statements.next :: back
  scope : later.scope = content.scope
  others : ∀ other, other ≠ body → after.bodies.get? other = before.bodies.get? other

section

variable {statement : Statement}

/-- Every statement that has a place is in the order of its body. -/
def Truthful (layout : Layout) : Prop :=
  ∀ ref body, layout.bodyOf ref = .ok (some body) →
    ∃ content, layout.bodies.get? body = some content ∧ ref ∈ content.order

theorem PlacedOnce.truthful (placedOnce : layout.PlacedOnce) : layout.Truthful := by
  intro ref body held
  rcases bodyOf_eq_ok_iff.mp held with ⟨found, stored⟩
  rcases placedOnce.placed ref _ stored with ⟨other, content, isBody, contentStored, member⟩
  cases Option.some.inj isBody
  exact ⟨content, contentStored, member⟩

theorem Truthful.split (truthful : layout.Truthful) {ref : StatementRef} {body : BodyRef}
    (held : (layout.addStatement statement).2.bodyOf ref = .ok (some body)) :
    ∃ content front back, layout.bodies.get? body = some content ∧
      content.order = front ++ ref :: back ∧ ref ∉ front := by
  rcases bodyOf_eq_ok_iff.mp held with ⟨found, stored⟩
  rcases Arena.eq_next_or_get?_of_push stored with ⟨-, isNew⟩ | old
  · cases isNew
  · rcases truthful ref body (bodyOf_eq_ok_iff.mpr ⟨found, old⟩) with
      ⟨content, contentStored, member⟩
    rcases List.eq_append_cons_of_mem member with ⟨front, back, ordered, first⟩
    exact ⟨content, front, back, contentStored, ordered, first⟩

theorem link_addStatement {body : BodyRef} {place : List StatementRef → List StatementRef}
    (placed : (layout.addStatement statement).2.link body layout.statements.next place =
      .ok linked) {content : Body} (stored : layout.bodies.get? body = some content) :
    linked.statements = layout.statements.push { statement, body := some body } ∧
      linked.bodies.get? body = some { content with order := place content.order } ∧
      ∀ other, other ≠ body → linked.bodies.get? other = layout.bodies.get? other := by
  rcases link_eq_ok_iff.mp placed with ⟨-, ordered, held⟩
  refine ⟨?_, ?_, ?_⟩
  · simp only [addStatement] at held
    rw [Arena.modify_push_next] at held
    exact (Except.ok.inj held).symm
  · rw [Arena.get?_of_modify_same ordered]
    simp only [addStatement, stored, Option.map_some]
  · intro other different
    exact Arena.get?_of_modify_of_ne ordered (Ne.symm different)

theorem anchored_eq_ok (truthful : layout.Truthful) {anchor : StatementRef}
    {place : List StatementRef → List StatementRef}
    (placed : ((layout.addStatement statement).2.anchorBody anchor >>= fun body =>
      (layout.addStatement statement).2.link body layout.statements.next place) = .ok linked) :
    ∃ body content front back, layout.bodies.get? body = some content ∧
      content.order = front ++ anchor :: back ∧ anchor ∉ front ∧
      (layout.addStatement statement).2.bodyOf anchor = .ok (some body) ∧
      linked.statements = layout.statements.push { statement, body := some body } ∧
      linked.bodies.get? body = some { content with order := place content.order } ∧
      ∀ other, other ≠ body → linked.bodies.get? other = layout.bodies.get? other := by
  rw [Except.bind_eq_ok_iff] at placed
  rcases placed with ⟨body, anchored, placed⟩
  rw [anchorBody_eq_ok_iff] at anchored
  rcases truthful.split anchored with ⟨content, front, back, stored, ordered, first⟩
  exact ⟨body, content, front, back, stored, ordered, first, anchored,
    link_addStatement placed stored⟩

theorem Appended.inserts {body : BodyRef} (appended : layout.Appended linked body statement) :
    ∃ content, layout.Inserts linked statement body content
      { content with order := content.order ++ [layout.statements.next] } content.order [] := by
  rcases appended.holder with ⟨content, stored⟩
  refine ⟨content, stored, by simp, appended.pushed, ?_, rfl, rfl, ?_⟩
  · rw [Arena.get?_of_modify_same appended.order, stored]
    rfl
  · intro other different
    exact Arena.get?_of_modify_of_ne appended.order (Ne.symm different)

theorem Truthful.inserts_shared (truthful : layout.Truthful) (tails : layout.TailsLinked)
    (placed : (layout.addStatement statement).2.placeSynthesized Program.sharedBody
      layout.statements.next = .ok linked) :
    ∃ body content later front back,
      layout.Inserts linked statement body content later front back ∧
        Position.shared.Picks layout.statements.next body content later front back := by
  rcases placeSynthesized_eq_ok placed with ⟨between, bodies, marked, rfl, chosen⟩
  rcases chosen with ⟨content, last, stored, isLast, inserted⟩ |
    ⟨content, stored, noLast, prepended⟩
  · rcases anchored_eq_ok truthful inserted with
      ⟨body, again, front, back, againStored, ordered, first, held, statements, found, others⟩
    -- The last statement that went there is still in the shared body, so the new one gets in there.
    rcases tails Program.sharedBody content last stored isLast with
      ⟨place, _, placeStored, isShared, -, -⟩
    rcases bodyOf_eq_ok_iff.mp held with ⟨_, heldStored⟩
    cases Option.mem_unique (Arena.get?_push_of_get? _ placeStored) heldStored
    cases Option.some.inj isShared
    cases Option.mem_unique stored againStored
    refine ⟨_, content,
      { content with
        order := front ++ [last] ++ layout.statements.next :: back
        lastSynthesized := some layout.statements.next },
      front ++ [last], back,
      ⟨stored, by simp [ordered], statements, ?_, rfl, rfl, ?_⟩, rfl, by simp [isLast], rfl⟩
    · rw [Arena.get?_of_modify_same marked, found, ordered,
        insertAfter_append_cons _ _ first]
      simp
    · intro other different
      exact (Arena.get?_of_modify_of_ne marked (Ne.symm different)).trans
        (others other different)
  · rcases link_addStatement prepended stored with ⟨statements, found, others⟩
    refine ⟨_, content,
      { content with
        order := layout.statements.next :: content.order
        lastSynthesized := some layout.statements.next },
      [], content.order, ⟨stored, rfl, statements, ?_, rfl, rfl, ?_⟩, rfl, by simp [noLast],
      rfl⟩
    · rw [Arena.get?_of_modify_same marked, found]
      rfl
    · intro other different
      exact (Arena.get?_of_modify_of_ne marked (Ne.symm different)).trans
        (others other different)

theorem Truthful.inserts (truthful : layout.Truthful) (tails : layout.TailsLinked)
    {position : Position}
    (placed : position.link layout.statements.next (layout.addStatement statement).2 =
      .ok linked) :
    ∃ body content later front back,
      layout.Inserts linked statement body content later front back ∧
        position.Picks layout.statements.next body content later front back := by
  cases position with
  | after anchor =>
      rcases anchored_eq_ok truthful placed with
        ⟨body, content, front, back, stored, ordered, first, -, statements, found, others⟩
      refine ⟨body, content, _, front ++ [anchor], back,
        ⟨stored, by simp [ordered], statements, found, ?_, rfl, others⟩, by simp, rfl⟩
      dsimp only
      rw [ordered, insertAfter_append_cons _ _ first]
      simp
  | before anchor =>
      rcases anchored_eq_ok truthful placed with
        ⟨body, content, front, back, stored, ordered, first, -, statements, found, others⟩
      refine ⟨body, content, _, front, anchor :: back,
        ⟨stored, ordered, statements, found, ?_, rfl, others⟩, rfl, rfl⟩
      dsimp only
      rw [ordered, insertBefore_append_cons _ _ first]
  | shared => exact truthful.inserts_shared tails placed

theorem inserts_of_position (placedOnce : layout.PlacedOnce) (tails : layout.TailsLinked)
    {position : Position}
    (placed : position.link layout.statements.next (layout.addStatement statement).2 =
      .ok linked) :
    ∃ body content later front back,
      layout.Inserts linked statement body content later front back ∧
        position.Picks layout.statements.next body content later front back :=
  placedOnce.truthful.inserts tails placed

end

theorem PlacedOnce.next_not_mem (placedOnce : layout.PlacedOnce) {body : BodyRef} {content : Body}
    (stored : layout.bodies.get? body = some content) :
    layout.statements.next ∉ content.order := by
  intro member
  rcases placedOnce.held body content _ stored member with ⟨_, found⟩
  rw [Arena.get?_next] at found
  contradiction

namespace Inserts

variable {statement : Statement} {body : BodyRef} {content later : Body}
  {front back : List StatementRef}
  (inserts : before.Inserts after statement body content later front back)
include inserts

theorem new_stored : after.statements.get? before.statements.next =
    some { statement, body := some body } := by
  rw [inserts.statements]
  exact Arena.get?_push_next ..

theorem new_member : before.statements.next ∈ later.order := by
  rw [inserts.order]
  exact List.mem_append_right _ List.mem_cons_self

theorem old_stored {ref : StatementRef} {placed : Placed}
    (stored : before.statements.get? ref = some placed) :
    after.statements.get? ref = some placed := by
  rw [inserts.statements]
  exact Arena.get?_push_of_get? _ stored

theorem mem_order_cases {other : BodyRef} {found : Body}
    (stored : after.bodies.get? other = some found) {ref : StatementRef}
    (member : ref ∈ found.order) :
    (other = body ∧ ref = before.statements.next) ∨
      ∃ old, before.bodies.get? other = some old ∧ ref ∈ old.order := by
  by_cases isBody : other = body
  · subst isBody
    cases Option.mem_unique inserts.laterStored stored
    rw [inserts.order] at member
    rcases List.mem_append.mp member with inFront | inRest
    · exact .inr ⟨content, inserts.stored, by simp [inserts.split, inFront]⟩
    · rcases List.mem_cons.mp inRest with rfl | inBack
      · exact .inl ⟨rfl, rfl⟩
      · exact .inr ⟨content, inserts.stored, by simp [inserts.split, inBack]⟩
  · exact .inr ⟨found, (inserts.others other isBody).symm.trans stored, member⟩

theorem mem_order {other : BodyRef} {old : Body}
    (stored : before.bodies.get? other = some old) {ref : StatementRef}
    (member : ref ∈ old.order) :
    ∃ found, after.bodies.get? other = some found ∧ ref ∈ found.order := by
  by_cases isBody : other = body
  · subst isBody
    cases Option.mem_unique inserts.stored stored
    refine ⟨later, inserts.laterStored, ?_⟩
    rw [inserts.split, List.mem_append] at member
    rw [inserts.order]
    exact List.mem_append.mpr (member.imp_right (List.mem_cons_of_mem _))
  · exact ⟨old, (inserts.others other isBody).trans stored, member⟩

theorem placedOnce (isPlacedOnce : before.PlacedOnce) : after.PlacedOnce where
  placed ref placed stored := by
    rw [inserts.statements] at stored
    rcases Arena.eq_next_or_get?_of_push stored with ⟨rfl, rfl⟩ | old
    · exact ⟨body, later, rfl, inserts.laterStored, inserts.new_member⟩
    · rcases isPlacedOnce.placed ref placed old with ⟨holder, held, isHolder, heldStored, member⟩
      rcases inserts.mem_order heldStored member with ⟨found, foundStored, still⟩
      exact ⟨holder, found, isHolder, foundStored, still⟩
  held other found ref stored member := by
    rcases inserts.mem_order_cases stored member with ⟨rfl, rfl⟩ | ⟨old, oldStored, inOld⟩
    · exact ⟨statement, inserts.new_stored⟩
    · rcases isPlacedOnce.held other old ref oldStored inOld with ⟨written, writtenStored⟩
      exact ⟨written, inserts.old_stored writtenStored⟩
  nodup other found stored := by
    by_cases isBody : other = body
    · subst isBody
      cases Option.mem_unique inserts.laterStored stored
      have unique := isPlacedOnce.nodup other content inserts.stored
      have missing := isPlacedOnce.next_not_mem inserts.stored
      rw [inserts.split] at unique missing
      rw [inserts.order]
      exact List.nodup_middle.mpr (List.nodup_cons.mpr ⟨missing, unique⟩)
    · exact isPlacedOnce.nodup other found ((inserts.others other isBody).symm.trans stored)

theorem body_source {other : BodyRef} {found : Body}
    (stored : after.bodies.get? other = some found) :
    ∃ old, before.bodies.get? other = some old ∧ found.scope = old.scope := by
  by_cases isBody : other = body
  · subst isBody
    cases Option.mem_unique inserts.laterStored stored
    exact ⟨content, inserts.stored, inserts.scope⟩
  · exact ⟨found, (inserts.others other isBody).symm.trans stored, rfl⟩

theorem body_kept {other : BodyRef} {old : Body}
    (stored : before.bodies.get? other = some old) :
    ∃ found, after.bodies.get? other = some found ∧ found.scope = old.scope := by
  by_cases isBody : other = body
  · subst isBody
    cases Option.mem_unique inserts.stored stored
    exact ⟨later, inserts.laterStored, inserts.scope⟩
  · exact ⟨old, (inserts.others other isBody).trans stored, rfl⟩

end Inserts

end Layout

end StructuralTypes
