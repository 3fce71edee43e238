import StructuralTypes.Proofs.Outcome
import StructuralTypes.Proofs.Storage

/-! Where statements stand. A statement is linked when it is in the order of the
body it belongs to, and a body is reachable when blocks lead to it from the roots.
Both stay true while a layout grows, and a statement stands in the reading order
just if it is in the order of a reachable body. -/

namespace StructuralTypes

/-! ## Lists of partial answers -/

theorem exists_of_mapM_eq_ok {ε α β : Type} {answer : α → Except ε β}
    {elements : List α} {answers : List β} (answered : elements.mapM answer = .ok answers)
    {element : α} (member : element ∈ elements) :
    ∃ value ∈ answers, answer element = .ok value := by
  induction elements generalizing answers with
  | nil => simp at member
  | cons head tail induction =>
      simp only [List.mapM_cons, Except.bind_eq_ok_iff, Except.pure_eq_ok_iff]
        at answered
      rcases answered with ⟨first, headAnswered, rest, tailAnswered, rfl⟩
      rcases List.mem_cons.mp member with rfl | later
      · exact ⟨first, List.mem_cons_self, headAnswered⟩
      · rcases induction tailAnswered later with ⟨value, found, same⟩
        exact ⟨value, List.mem_cons_of_mem _ found, same⟩

theorem exists_of_mem_mapM {ε α β : Type} {answer : α → Except ε β}
    {elements : List α} {answers : List β} (answered : elements.mapM answer = .ok answers)
    {value : β} (member : value ∈ answers) :
    ∃ element ∈ elements, answer element = .ok value := by
  induction elements generalizing answers with
  | nil =>
      simp only [List.mapM_nil, Except.pure_eq_ok_iff] at answered
      simp [← answered] at member
  | cons head tail induction =>
      simp only [List.mapM_cons, Except.bind_eq_ok_iff, Except.pure_eq_ok_iff]
        at answered
      rcases answered with ⟨first, headAnswered, rest, tailAnswered, rfl⟩
      rcases List.mem_cons.mp member with rfl | later
      · exact ⟨head, List.mem_cons_self, headAnswered⟩
      · rcases induction tailAnswered later with ⟨element, found, same⟩
        exact ⟨element, List.mem_cons_of_mem _ found, same⟩

theorem exists_mapM_eq_ok {ε α β : Type} {answer : α → Except ε β} {property : β → Prop}
    {elements : List α}
    (each : ∀ element ∈ elements, ∃ value, answer element = .ok value ∧ property value) :
    ∃ answers, elements.mapM answer = .ok answers ∧ ∀ value ∈ answers, property value := by
  induction elements with
  | nil => exact ⟨[], rfl, by simp⟩
  | cons head tail induction =>
      rcases each head List.mem_cons_self with ⟨first, headAnswered, holds⟩
      rcases induction fun element member => each element (List.mem_cons_of_mem _ member) with
        ⟨rest, tailAnswered, restHold⟩
      refine ⟨first :: rest, ?_, List.forall_mem_cons.mpr ⟨holds, restHold⟩⟩
      simp only [List.mapM_cons, Except.bind_eq_ok_iff, Except.pure_eq_ok_iff]
      exact ⟨first, headAnswered, rest, tailAnswered, rfl⟩

theorem mem_insertAfter {α : Type} [DecidableEq α] {anchor new element : α}
    {elements : List α} (member : element ∈ elements) :
    element ∈ insertAfter anchor new elements := by
  induction elements with
  | nil => simp at member
  | cons head tail induction =>
      unfold insertAfter
      rcases List.mem_cons.mp member with rfl | later
      · split <;> simp
      · split
        · simp [later]
        · simp [induction later]

theorem mem_insertBefore {α : Type} [DecidableEq α] {anchor new element : α}
    {elements : List α} (member : element ∈ elements) :
    element ∈ insertBefore anchor new elements := by
  induction elements with
  | nil => simp at member
  | cons head tail induction =>
      unfold insertBefore
      rcases List.mem_cons.mp member with rfl | later
      · split <;> simp
      · split
        · simp [later]
        · simp [induction later]

namespace Layout

/-- `ref` belongs to `body` and stands in its order. -/
def LinkedIn (layout : Layout) (ref : StatementRef) (body : BodyRef) : Prop :=
  ∃ placed content, layout.statements.get? ref = some placed ∧
    placed.body = some body ∧ layout.bodies.get? body = some content ∧
    ref ∈ content.order

/-- Blocks lead to `body` from one of the roots. -/
inductive Reachable (layout : Layout) (roots : List BodyRef) : BodyRef → Prop
  | root {body : BodyRef} (member : body ∈ roots) : Reachable layout roots body
  | inner {outer inner : BodyRef} {content : Body} {ref : StatementRef}
      {placed : Placed} (reached : Reachable layout roots outer)
      (stored : layout.bodies.get? outer = some content)
      (member : ref ∈ content.order)
      (found : layout.statements.get? ref = some placed)
      (block : placed.statement.kind = .block inner) :
      Reachable layout roots inner

/-- `after` has what `before` has: its statements, in the bodies they belong to,
and its bodies, with orders that have all their statements still. -/
structure Grows (before after : Layout) : Prop where
  statements : ∀ ref placed, before.statements.get? ref = some placed →
    ∃ later, after.statements.get? ref = some later ∧
      later.statement = placed.statement ∧
      ∀ body, placed.body = some body → later.body = some body
  bodies : ∀ body content, before.bodies.get? body = some content →
    ∃ later, after.bodies.get? body = some later ∧ later.scope = content.scope ∧
      ∀ ref ∈ content.order, ref ∈ later.order

namespace Grows

variable {before middle after : Layout}

theorem refl (layout : Layout) : Grows layout layout where
  statements _ placed stored := ⟨placed, stored, rfl, fun _ same => same⟩
  bodies _ content stored := ⟨content, stored, rfl, fun _ member => member⟩

theorem trans (first : Grows before middle) (second : Grows middle after) :
    Grows before after where
  statements ref placed stored := by
    rcases first.statements ref placed stored with ⟨between, betweenStored, same, kept⟩
    rcases second.statements ref between betweenStored with
      ⟨later, laterStored, sameAgain, keptAgain⟩
    exact ⟨later, laterStored, sameAgain.trans same,
      fun body held => keptAgain body (kept body held)⟩
  bodies body content stored := by
    rcases first.bodies body content stored with ⟨between, betweenStored, same, kept⟩
    rcases second.bodies body between betweenStored with ⟨later, laterStored, sameAgain, keptAgain⟩
    exact ⟨later, laterStored, sameAgain.trans same,
      fun ref member => keptAgain ref (kept ref member)⟩

theorem linkedIn (grows : Grows before after) {ref : StatementRef} {body : BodyRef}
    (linked : before.LinkedIn ref body) : after.LinkedIn ref body := by
  rcases linked with ⟨placed, content, found, held, stored, member⟩
  rcases grows.statements ref placed found with ⟨later, laterFound, -, kept⟩
  rcases grows.bodies body content stored with ⟨laterContent, laterStored, -, orderKept⟩
  exact ⟨later, laterContent, laterFound, kept body held, laterStored,
    orderKept ref member⟩

theorem reachable (grows : Grows before after) {roots more : List BodyRef}
    (kept : ∀ body ∈ roots, body ∈ more) {body : BodyRef}
    (reached : before.Reachable roots body) : after.Reachable more body := by
  induction reached with
  | root member => exact .root (kept _ member)
  | inner reached stored member found block induction =>
      rcases grows.bodies _ _ stored with ⟨laterContent, laterStored, -, orderKept⟩
      rcases grows.statements _ _ found with ⟨later, laterFound, same, -⟩
      exact .inner induction laterStored (orderKept _ member) laterFound
        (same ▸ block)

end Grows

/-! ## Operations -/

variable {layout linked : Layout}

theorem grows_addBody (layout : Layout) (scope : ScopeRef) :
    Grows layout (layout.addBody scope).2 where
  statements _ placed stored := ⟨placed, stored, rfl, fun _ same => same⟩
  bodies _ content stored :=
    ⟨content, Arena.get?_push_of_get? _ stored, rfl, fun _ member => member⟩

theorem grows_addStatement (layout : Layout) (statement : Statement) :
    Grows layout (layout.addStatement statement).2 where
  statements _ placed stored :=
    ⟨placed, Arena.get?_push_of_get? _ stored, rfl, fun _ same => same⟩
  bodies _ content stored := ⟨content, stored, rfl, fun _ member => member⟩

theorem bodyOf_eq_ok_iff {ref : StatementRef} {holder : Option BodyRef} :
    layout.bodyOf ref = .ok holder ↔
      ∃ statement, layout.statements.get? ref = some { statement, body := holder } := by
  simp only [bodyOf, bind, Except.bind, pure, Except.pure, Arena.get]
  cases found : layout.statements.get? ref with
  | none => simp
  | some placed =>
      cases placed
      simp

theorem scopeOf_eq_ok_iff {body : BodyRef} {scope : ScopeRef} :
    layout.scopeOf body = .ok scope ↔
      ∃ content, layout.bodies.get? body = some content ∧ content.scope = scope := by
  simp only [scopeOf, bind, Except.bind, pure, Except.pure, Arena.get]
  cases found : layout.bodies.get? body <;> simp

theorem order_eq_ok_iff {body : BodyRef} {order : List StatementRef} :
    layout.order body = .ok order ↔
      ∃ content, layout.bodies.get? body = some content ∧ content.order = order := by
  simp only [Layout.order, bind, Except.bind, pure, Except.pure, Arena.get]
  cases found : layout.bodies.get? body <;> simp

theorem statement_eq_ok_iff {ref : StatementRef} {statement : Statement} :
    layout.statement ref = .ok statement ↔
      ∃ body, layout.statements.get? ref = some { statement, body } := by
  simp only [Layout.statement, bind, Except.bind, pure, Except.pure, Arena.get]
  cases found : layout.statements.get? ref with
  | none => simp
  | some placed =>
      cases placed
      simp

theorem grows_link {body : BodyRef} {new : StatementRef}
    {place : List StatementRef → List StatementRef}
    (kept : ∀ order, ∀ ref ∈ order, ref ∈ place order)
    (placed : layout.link body new place = .ok linked) : Grows layout linked := by
  rcases link_eq_ok_iff.mp placed with ⟨free, ordered, held⟩
  rcases bodyOf_eq_ok_iff.mp free with ⟨statement, unplaced⟩
  constructor
  · intro ref old stored
    rw [Arena.get?_of_modify held]
    split
    · rename_i same
      subst same
      cases Option.mem_unique unplaced stored
      refine ⟨{ statement, body := some body }, ?_, rfl, by simp⟩
      rw [unplaced]
      rfl
    · exact ⟨old, stored, rfl, fun _ same => same⟩
  · intro target content stored
    rw [Arena.get?_of_modify ordered]
    split
    · refine ⟨{ content with order := place content.order }, ?_, rfl,
        kept content.order⟩
      rw [stored]
      rfl
    · exact ⟨content, stored, rfl, fun _ member => member⟩

theorem linkedIn_link {body : BodyRef} {new : StatementRef}
    {place : List StatementRef → List StatementRef}
    (added : ∀ content, layout.bodies.get? body = some content →
      new ∈ place content.order)
    (placed : layout.link body new place = .ok linked) : linked.LinkedIn new body := by
  rcases link_eq_ok_iff.mp placed with ⟨free, ordered, held⟩
  rcases bodyOf_eq_ok_iff.mp free with ⟨statement, unplaced⟩
  have inside : body.index < layout.bodies.size :=
    Arena.modify_isOk_iff.mp ⟨_, ordered⟩
  rcases Arena.exists_get?_of_lt_size inside with ⟨content, stored⟩
  refine ⟨{ statement, body := some body },
    { content with order := place content.order }, ?_, rfl, ?_, added content stored⟩
  · rw [Arena.get?_of_modify_same held, unplaced]
    rfl
  · rw [Arena.get?_of_modify_same ordered, stored]
    rfl

theorem anchorBody_eq_ok_iff {anchor : StatementRef} {body : BodyRef} :
    layout.anchorBody anchor = .ok body ↔ layout.bodyOf anchor = .ok (some body) := by
  simp only [anchorBody, bind, Except.bind]
  cases layout.bodyOf anchor with
  | error fault => simp
  | ok holder => cases holder <;>
      simp [pure, Except.pure, throw, throwThe, MonadExceptOf.throw]

theorem grows_append {body : BodyRef} {new : StatementRef}
    (placed : layout.append body new = .ok linked) : Grows layout linked :=
  grows_link (fun _ _ member => List.mem_append_left _ member) placed

theorem linkedIn_append {body : BodyRef} {new : StatementRef}
    (placed : layout.append body new = .ok linked) : linked.LinkedIn new body :=
  linkedIn_link (fun _ _ => by simp) placed

/-! What insertion next to an anchor does, whichever side it is on. -/

private theorem grows_of_anchored {anchor new : StatementRef}
    {place : List StatementRef → List StatementRef}
    (kept : ∀ order, ∀ ref ∈ order, ref ∈ place order)
    (placed : (do layout.link (← layout.anchorBody anchor) new place) = .ok linked) :
    Grows layout linked := by
  rw [Except.bind_eq_ok_iff] at placed
  rcases placed with ⟨_, -, placed⟩
  exact grows_link kept placed

private theorem linkedIn_of_anchored {anchor new : StatementRef}
    {place : List StatementRef → List StatementRef} {body : BodyRef}
    (added : ∀ order, anchor ∈ order → new ∈ place order)
    (anchored : layout.LinkedIn anchor body)
    (placed : (do layout.link (← layout.anchorBody anchor) new place) = .ok linked) :
    linked.LinkedIn new body := by
  rcases anchored with ⟨old, content, found, held, stored, member⟩
  rw [Except.bind_eq_ok_iff] at placed
  rcases placed with ⟨holder, anchorHeld, placed⟩
  rcases bodyOf_eq_ok_iff.mp (anchorBody_eq_ok_iff.mp anchorHeld) with ⟨statement, foundAgain⟩
  have sameBody : holder = body := by
    rw [found] at foundAgain
    rw [Option.some.inj foundAgain] at held
    exact Option.some.inj held
  subst sameBody
  refine linkedIn_link ?_ placed
  intro other otherStored
  cases Option.mem_unique stored otherStored
  exact added _ member

theorem grows_insertAfter {anchor new : StatementRef}
    (placed : layout.insertAfter anchor new = .ok linked) : Grows layout linked :=
  grows_of_anchored (fun _ _ member => mem_insertAfter member) placed

theorem grows_insertBefore {anchor new : StatementRef}
    (placed : layout.insertBefore anchor new = .ok linked) : Grows layout linked :=
  grows_of_anchored (fun _ _ member => mem_insertBefore member) placed

theorem linkedIn_insertAfter {anchor new : StatementRef} {body : BodyRef}
    (anchored : layout.LinkedIn anchor body)
    (placed : layout.insertAfter anchor new = .ok linked) : linked.LinkedIn new body :=
  linkedIn_of_anchored
    (fun _ member => (insertAfter_perm member).mem_iff.mpr List.mem_cons_self) anchored placed

theorem linkedIn_insertBefore {anchor new : StatementRef} {body : BodyRef}
    (anchored : layout.LinkedIn anchor body)
    (placed : layout.insertBefore anchor new = .ok linked) : linked.LinkedIn new body :=
  linkedIn_of_anchored
    (fun _ member => (insertBefore_perm member).mem_iff.mpr List.mem_cons_self) anchored
    placed

/-- The most recently synthesized statement of each body is linked there. -/
def TailsLinked (layout : Layout) : Prop :=
  ∀ body content last, layout.bodies.get? body = some content →
    content.lastSynthesized = some last → layout.LinkedIn last body

theorem tailsLinked_addBody (tails : layout.TailsLinked) (scope : ScopeRef) :
    (layout.addBody scope).2.TailsLinked := by
  intro body content last stored marked
  rcases Arena.eq_next_or_get?_of_push stored with ⟨-, rfl⟩ | old
  · simp at marked
  · exact (layout.grows_addBody scope).linkedIn (tails body content last old marked)

theorem tailsLinked_addStatement (tails : layout.TailsLinked) (statement : Statement) :
    (layout.addStatement statement).2.TailsLinked := fun body content last stored marked =>
  (layout.grows_addStatement statement).linkedIn (tails body content last stored marked)

theorem tailsLinked_link {body : BodyRef} {new : StatementRef}
    {place : List StatementRef → List StatementRef}
    (kept : ∀ order, ∀ ref ∈ order, ref ∈ place order)
    (placed : layout.link body new place = .ok linked) (tails : layout.TailsLinked) :
    linked.TailsLinked := by
  intro target content last stored marked
  rcases link_eq_ok_iff.mp placed with ⟨-, ordered, -⟩
  rcases Arena.get?_eq_some_of_modify ordered stored with ⟨old, oldStored, rfl⟩
  refine (grows_link kept placed).linkedIn (tails target old last oldStored ?_)
  split at marked <;> exact marked

theorem tailsLinked_append {body : BodyRef} {new : StatementRef}
    (tails : layout.TailsLinked) (placed : layout.append body new = .ok linked) :
    linked.TailsLinked :=
  tailsLinked_link (fun _ _ member => List.mem_append_left _ member) placed tails

private theorem tailsLinked_of_anchored {anchor new : StatementRef}
    {place : List StatementRef → List StatementRef}
    (kept : ∀ order, ∀ ref ∈ order, ref ∈ place order)
    (placed : (do layout.link (← layout.anchorBody anchor) new place) = .ok linked)
    (tails : layout.TailsLinked) : linked.TailsLinked := by
  rw [Except.bind_eq_ok_iff] at placed
  rcases placed with ⟨holder, -, placed⟩
  exact tailsLinked_link kept placed tails

theorem tailsLinked_insertAfter {anchor new : StatementRef}
    (tails : layout.TailsLinked) (placed : layout.insertAfter anchor new = .ok linked) :
    linked.TailsLinked :=
  tailsLinked_of_anchored (fun _ _ member => mem_insertAfter member) placed tails

theorem tailsLinked_insertBefore {anchor new : StatementRef}
    (tails : layout.TailsLinked) (placed : layout.insertBefore anchor new = .ok linked) :
    linked.TailsLinked :=
  tailsLinked_of_anchored (fun _ _ member => mem_insertBefore member) placed tails

/-- `after` is `before` with one more statement, the last of `body`. -/
structure Appended (before after : Layout) (body : BodyRef) (statement : Statement) :
    Prop where
  grows : Grows before after
  linked : after.LinkedIn before.statements.next body
  holder : ∃ content, before.bodies.get? body = some content
  tails : before.TailsLinked → after.TailsLinked
  statements : ∀ ref placed, after.statements.get? ref = some placed →
    (ref = before.statements.next ∧ placed.statement = statement) ∨
    ∃ old, before.statements.get? ref = some old ∧ old.statement = placed.statement
  bodies : ∀ body content, after.bodies.get? body = some content →
    ∃ old, before.bodies.get? body = some old ∧ old.scope = content.scope
  pushed : after.statements = before.statements.push { statement, body := some body }
  order : before.bodies.modify body (fun content =>
    { content with order := content.order ++ [before.statements.next] }) = .ok after.bodies

theorem appended_of_append {body : BodyRef} {statement : Statement}
    (placed : (layout.addStatement statement).2.append body layout.statements.next =
      .ok linked) :
    Appended layout linked body statement := by
  rcases link_eq_ok_iff.mp placed with ⟨-, ordered, held⟩
  refine ⟨(layout.grows_addStatement statement).trans (grows_append placed),
    linkedIn_append placed, ?_, ?_, ?_, ?_, ?_, ordered⟩
  · exact Arena.exists_get?_of_lt_size (Arena.modify_isOk_iff.mp ⟨_, ordered⟩)
  · intro tails
    exact tailsLinked_append (tailsLinked_addStatement tails statement) placed
  · intro ref after stored
    rcases Arena.get?_eq_some_of_modify held stored with ⟨old, oldStored, rfl⟩
    rcases Arena.eq_next_or_get?_of_push oldStored with ⟨isNew, rfl⟩ | older
    · exact .inl ⟨isNew, by split <;> rfl⟩
    · exact .inr ⟨old, older, by split <;> rfl⟩
  · intro target content stored
    rcases Arena.get?_eq_some_of_modify ordered stored with ⟨old, oldStored, rfl⟩
    exact ⟨old, oldStored, by split <;> rfl⟩
  · simp only [addStatement] at held
    rw [Arena.modify_push_next] at held
    exact (Except.ok.inj held).symm

theorem grows_mark {body : BodyRef} {new : StatementRef} {bodies : Arena .body Body}
    (marked : layout.bodies.modify body
      (fun content => { content with lastSynthesized := some new }) = .ok bodies) :
    Grows layout { layout with bodies } := by
  refine ⟨fun _ placed stored => ⟨placed, stored, rfl, fun _ same => same⟩, ?_⟩
  intro target old stored
  rw [Arena.get?_of_modify marked]
  split
  · exact ⟨{ old with lastSynthesized := some new }, by rw [stored]; rfl, rfl,
      fun _ member => member⟩
  · exact ⟨old, stored, rfl, fun _ member => member⟩

theorem placeSynthesized_eq_ok {body : BodyRef} {new : StatementRef}
    (placed : layout.placeSynthesized body new = .ok linked) :
    ∃ (between : Layout) (bodies : Arena .body Body),
      between.bodies.modify body
        (fun content => { content with lastSynthesized := some new }) = .ok bodies ∧
      { between with bodies } = linked ∧
      ((∃ content last, layout.bodies.get? body = some content ∧
          content.lastSynthesized = some last ∧
          layout.insertAfter last new = .ok between) ∨
        ∃ content, layout.bodies.get? body = some content ∧
          content.lastSynthesized = none ∧
          layout.link body new (new :: ·) = .ok between) := by
  simp only [placeSynthesized, Except.bind_eq_ok_iff, Arena.get_eq_ok_iff] at placed
  rcases placed with ⟨content, stored, placed⟩
  split at placed
  · rename_i last tail
    simp only [Except.bind_eq_ok_iff, Except.pure_eq_ok_iff] at placed
    rcases placed with ⟨between, chosen, bodies, marked, same⟩
    exact ⟨between, bodies, marked, same, .inl ⟨content, last, stored, tail, chosen⟩⟩
  · rename_i noTail
    simp only [Except.bind_eq_ok_iff, Except.pure_eq_ok_iff] at placed
    rcases placed with ⟨between, chosen, bodies, marked, same⟩
    exact ⟨between, bodies, marked, same, .inr ⟨content, stored, noTail, chosen⟩⟩

theorem grows_placeSynthesized {body : BodyRef} {new : StatementRef}
    (placed : layout.placeSynthesized body new = .ok linked) : Grows layout linked := by
  rcases placeSynthesized_eq_ok placed with
    ⟨between, bodies, marked, rfl, ⟨_, _, -, -, inserted⟩ | ⟨_, -, -, prepended⟩⟩
  · exact (grows_insertAfter inserted).trans (grows_mark marked)
  · exact (grows_link (fun _ _ member => List.mem_cons_of_mem _ member) prepended).trans
      (grows_mark marked)

theorem linkedIn_placeSynthesized {body : BodyRef} {new : StatementRef}
    (tails : layout.TailsLinked) (placed : layout.placeSynthesized body new = .ok linked) :
    linked.LinkedIn new body ∧ linked.TailsLinked := by
  rcases placeSynthesized_eq_ok placed with ⟨between, bodies, marked, rfl, chosen⟩
  obtain ⟨inside, tailsBetween⟩ : between.LinkedIn new body ∧ between.TailsLinked := by
    rcases chosen with ⟨content, last, stored, tail, inserted⟩ | ⟨_, -, -, prepended⟩
    · exact ⟨linkedIn_insertAfter (tails body content last stored tail) inserted,
        tailsLinked_insertAfter tails inserted⟩
    · exact ⟨linkedIn_link (fun _ _ => by simp) prepended,
        tailsLinked_link (fun _ _ member => List.mem_cons_of_mem _ member) prepended tails⟩
  have marking := grows_mark marked
  refine ⟨marking.linkedIn inside, ?_⟩
  intro target later last stored tail
  rcases Arena.get?_eq_some_of_modify marked stored with ⟨old, oldStored, rfl⟩
  split at tail
  · rename_i same
    subst same
    cases Option.some.inj tail
    exact marking.linkedIn inside
  · exact marking.linkedIn (tailsBetween target old last oldStored tail)

/-! Placing a statement adds no other one. -/

theorem exists_statement_of_link {body : BodyRef} {new : StatementRef}
    {place : List StatementRef → List StatementRef}
    (placed : layout.link body new place = .ok linked) {ref : StatementRef} {later : Placed}
    (stored : linked.statements.get? ref = some later) :
    ∃ old, layout.statements.get? ref = some old := by
  rcases link_eq_ok_iff.mp placed with ⟨-, -, held⟩
  rcases Arena.get?_eq_some_of_modify held stored with ⟨old, oldStored, -⟩
  exact ⟨old, oldStored⟩

theorem exists_statement_of_anchored {anchor new : StatementRef}
    {place : List StatementRef → List StatementRef}
    (placed : (do layout.link (← layout.anchorBody anchor) new place) = .ok linked)
    {ref : StatementRef} {later : Placed}
    (stored : linked.statements.get? ref = some later) :
    ∃ old, layout.statements.get? ref = some old := by
  rw [Except.bind_eq_ok_iff] at placed
  rcases placed with ⟨holder, -, placed⟩
  exact exists_statement_of_link placed stored

theorem exists_statement_of_placeSynthesized {body : BodyRef} {new : StatementRef}
    (placed : layout.placeSynthesized body new = .ok linked) {ref : StatementRef}
    {later : Placed} (stored : linked.statements.get? ref = some later) :
    ∃ old, layout.statements.get? ref = some old := by
  rcases placeSynthesized_eq_ok placed with
    ⟨between, bodies, -, rfl, ⟨_, _, -, -, inserted⟩ | ⟨_, -, -, prepended⟩⟩
  · exact exists_statement_of_anchored inserted stored
  · exact exists_statement_of_link prepended stored

/-! ## Reading order -/

theorem mem_withInner {inner : BodyRef → Except Fault (List StatementRef)}
    {ref : StatementRef} {segment : List StatementRef}
    (listed : layout.withInner inner ref = .ok segment) : ref ∈ segment := by
  simp only [withInner, Except.bind_eq_ok_iff] at listed
  rcases listed with ⟨statement, -, listed⟩
  split at listed
  · simp only [Except.bind_eq_ok_iff, Except.pure_eq_ok_iff] at listed
    rcases listed with ⟨rest, -, rfl⟩
    exact List.mem_cons_self
  · simp only [Except.pure_eq_ok_iff] at listed
    simp [← listed]

theorem segments_of_preorderWithin {depth : Nat} {body : BodyRef} {content : Body}
    {read : List StatementRef} (listed : layout.preorderWithin depth body = .ok read)
    (stored : layout.bodies.get? body = some content) :
    ∃ less segments,
      content.order.mapM (layout.withInner (layout.preorderWithin less)) = .ok segments ∧
      segments.flatten = read := by
  cases depth with
  | zero => simp [preorderWithin, Except.throw_eq_ok_iff] at listed
  | succ depth =>
      simp only [preorderWithin, Except.bind_eq_ok_iff, Except.pure_eq_ok_iff,
        order_eq_ok_iff] at listed
      rcases listed with ⟨order, ⟨other, otherStored, rfl⟩, segments, mapped, rfl⟩
      cases Option.mem_unique stored otherStored
      exact ⟨depth, segments, mapped, rfl⟩

theorem mem_preorderWithin {depth : Nat} {body : BodyRef} {content : Body}
    {ref : StatementRef} {read : List StatementRef}
    (listed : layout.preorderWithin depth body = .ok read)
    (stored : layout.bodies.get? body = some content) (member : ref ∈ content.order) :
    ref ∈ read := by
  rcases segments_of_preorderWithin listed stored with ⟨less, segments, mapped, rfl⟩
  rcases exists_of_mapM_eq_ok mapped member with ⟨segment, found, listed⟩
  exact List.mem_flatten_of_mem found (mem_withInner listed)

theorem preorderWithin_inner {depth : Nat} {outer inner : BodyRef} {content : Body}
    {ref : StatementRef} {placed : Placed} {read : List StatementRef}
    (listed : layout.preorderWithin depth outer = .ok read)
    (stored : layout.bodies.get? outer = some content) (member : ref ∈ content.order)
    (found : layout.statements.get? ref = some placed)
    (block : placed.statement.kind = .block inner) :
    ∃ less part, layout.preorderWithin less inner = .ok part ∧
      ∀ other ∈ part, other ∈ read := by
  rcases segments_of_preorderWithin listed stored with ⟨less, segments, mapped, rfl⟩
  rcases exists_of_mapM_eq_ok mapped member with ⟨segment, inSegments, segmentListed⟩
  simp only [withInner, Except.bind_eq_ok_iff, statement_eq_ok_iff] at segmentListed
  rcases segmentListed with ⟨statement, ⟨holder, again⟩, segmentListed⟩
  cases Option.mem_unique found again
  dsimp only at block
  simp only [block, Except.bind_eq_ok_iff, Except.pure_eq_ok_iff] at segmentListed
  rcases segmentListed with ⟨part, partListed, rfl⟩
  refine ⟨less, part, partListed, ?_⟩
  intro other inPart
  exact List.mem_flatten_of_mem inSegments (List.mem_cons_of_mem _ inPart)

theorem mem_preorder_of_reachable {roots : List BodyRef} {read : List StatementRef}
    (listed : layout.preorder roots = .ok read) {body : BodyRef}
    (reached : layout.Reachable roots body) {content : Body}
    (stored : layout.bodies.get? body = some content) {ref : StatementRef}
    (member : ref ∈ content.order) : ref ∈ read := by
  -- The part of the reading order that a reachable body contributes.
  have part : ∃ depth part, layout.preorderWithin depth body = .ok part ∧
      ∀ other ∈ part, other ∈ read := by
    clear stored member
    induction reached with
    | root inRoots =>
        simp only [preorder, Except.bind_eq_ok_iff, Except.pure_eq_ok_iff] at listed
        rcases listed with ⟨segments, mapped, rfl⟩
        rcases exists_of_mapM_eq_ok mapped inRoots with ⟨segment, found, segmentListed⟩
        exact ⟨layout.blockDepth, segment, segmentListed, fun other inSegment =>
          List.mem_flatten_of_mem found inSegment⟩
    | inner _ outerStored inOrder found block induction =>
        rcases induction with ⟨depth, outerPart, outerListed, outerRead⟩
        rcases preorderWithin_inner outerListed outerStored inOrder found block with
          ⟨less, innerPart, innerListed, innerRead⟩
        exact ⟨less, innerPart, innerListed,
          fun other inPart => outerRead other (innerRead other inPart)⟩
  rcases part with ⟨depth, part, partListed, partRead⟩
  exact partRead ref (mem_preorderWithin partListed stored member)

theorem reachable_of_mem_preorderWithin {roots : List BodyRef} {depth : Nat}
    {body : BodyRef} {read : List StatementRef} {ref : StatementRef}
    (listed : layout.preorderWithin depth body = .ok read)
    (reached : layout.Reachable roots body) (member : ref ∈ read) :
    (∃ placed, layout.statements.get? ref = some placed) ∧
      ∃ holder content, layout.Reachable roots holder ∧
        layout.bodies.get? holder = some content ∧ ref ∈ content.order := by
  induction depth generalizing body read with
  | zero => simp [preorderWithin, Except.throw_eq_ok_iff] at listed
  | succ depth induction =>
      simp only [preorderWithin, Except.bind_eq_ok_iff, Except.pure_eq_ok_iff,
        order_eq_ok_iff] at listed
      rcases listed with ⟨order, ⟨content, stored, rfl⟩, segments, mapped, rfl⟩
      rcases List.mem_flatten.mp member with ⟨segment, inSegments, inSegment⟩
      rcases exists_of_mem_mapM mapped inSegments with ⟨first, inOrder, segmentListed⟩
      simp only [withInner, Except.bind_eq_ok_iff, statement_eq_ok_iff]
        at segmentListed
      rcases segmentListed with ⟨statement, ⟨holder, found⟩, segmentListed⟩
      split at segmentListed
      · rename_i inner block
        simp only [Except.bind_eq_ok_iff, Except.pure_eq_ok_iff] at segmentListed
        rcases segmentListed with ⟨rest, innerListed, rfl⟩
        rcases List.mem_cons.mp inSegment with rfl | later
        · exact ⟨⟨_, found⟩, body, content, reached, stored, inOrder⟩
        · exact induction innerListed (.inner reached stored inOrder found block) later
      · simp only [Except.pure_eq_ok_iff] at segmentListed
        rw [← segmentListed, List.mem_singleton] at inSegment
        subst inSegment
        exact ⟨⟨_, found⟩, body, content, reached, stored, inOrder⟩

theorem reachable_of_mem_preorder {roots : List BodyRef} {read : List StatementRef}
    (listed : layout.preorder roots = .ok read) {ref : StatementRef}
    (member : ref ∈ read) :
    (∃ placed, layout.statements.get? ref = some placed) ∧
      ∃ body content, layout.Reachable roots body ∧
        layout.bodies.get? body = some content ∧ ref ∈ content.order := by
  simp only [preorder, Except.bind_eq_ok_iff, Except.pure_eq_ok_iff] at listed
  rcases listed with ⟨segments, mapped, rfl⟩
  rcases List.mem_flatten.mp member with ⟨segment, inSegments, inSegment⟩
  rcases exists_of_mem_mapM mapped inSegments with ⟨root, inRoots, segmentListed⟩
  exact reachable_of_mem_preorderWithin segmentListed (.root inRoots) inSegment

end Layout

namespace Program

def Linked (program : Program) (ref : StatementRef) : Prop :=
  ∃ body, program.layout.LinkedIn ref body ∧
    program.layout.Reachable program.roots body

theorem Linked.mem_preorder {program : Program} {ref : StatementRef}
    (linked : program.Linked ref) {order : List StatementRef}
    (listed : program.preorder = .ok order) : ref ∈ order := by
  rcases linked with ⟨body, ⟨_, content, -, -, stored, member⟩, reached⟩
  exact Layout.mem_preorder_of_reachable listed reached stored member

theorem Linked.of_grows {before after : Program} {ref : StatementRef}
    (linked : before.Linked ref) (grows : before.layout.Grows after.layout)
    (kept : ∀ body ∈ before.roots, body ∈ after.roots) : after.Linked ref := by
  rcases linked with ⟨body, inside, reached⟩
  exact ⟨body, grows.linkedIn inside, grows.reachable kept reached⟩

end Program

end StructuralTypes
