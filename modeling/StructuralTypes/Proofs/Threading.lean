import StructuralTypes.Proofs.Arrangement
import StructuralTypes.Threads

/-! Linked lists in place of lists. The links of a statement are determined by the order of
its body, and an operation on the links does to them what the same operation on the
layout does to the orders, so what holds of a layout can be read off the links. -/

namespace StructuralTypes

/-! ## Neighbours in a list -/

section

variable {α : Type} [DecidableEq α] {front back : List α} {element new : α}

theorem successor?_insert (unique : (front ++ new :: back).Nodup) (element : α) :
    successor? element (front ++ new :: back) =
      if element = new then back.head?
      else if front.getLast? = some element then some new
      else successor? element (front ++ back) := by
  induction front with
  | nil => simp [successor?, eq_comm]
  | cons head tail induction =>
      rw [List.cons_append, List.nodup_cons] at unique
      obtain ⟨alone, rest⟩ := unique
      simp only [List.mem_append, List.mem_cons, not_or] at alone
      obtain ⟨notInTail, notNew, -⟩ := alone
      by_cases same : head = element
      · subst same
        simp only [List.cons_append, successor?, if_true, if_neg notNew]
        cases tail with
        | nil => simp
        | cons second tail =>
            have notLast : (second :: tail).getLast? ≠ some head :=
              fun last => notInTail (List.mem_of_getLast? last)
            simp [notLast]
      · have last : (head :: tail).getLast? = some element ↔ tail.getLast? = some element := by
          cases tail <;> simp [same]
        simp only [List.cons_append, successor?, if_neg same, induction rest, last]

theorem predecessor?_insert (unique : (front ++ new :: back).Nodup) (element : α) :
    successor? element (front ++ new :: back).reverse =
      if element = new then front.getLast?
      else if back.head? = some element then some new
      else successor? element (front ++ back).reverse := by
  have reversed : (front ++ new :: back).reverse = back.reverse ++ new :: front.reverse := by
    simp
  have uniqueReversed := List.nodup_reverse.mpr unique
  rw [reversed] at uniqueReversed ⊢
  rw [successor?_insert uniqueReversed, List.head?_reverse, List.getLast?_reverse,
    List.reverse_append]

end

theorem Except.ok_bind {ε α β : Type} (value : α) (rest : α → Except ε β) :
    (Except.ok value >>= rest) = rest value := rfl

namespace Threads

variable {threads : Threads} {ref : StatementRef} {cell : Cell}

theorem bodyOf_of_get? (stored : threads.cells.get? ref = some cell) :
    threads.bodyOf ref = .ok cell.body := by
  rw [bodyOf, Arena.get_eq_ok_iff.mpr stored, Except.ok_bind]
  rfl

theorem next_of_get? (stored : threads.cells.get? ref = some cell) :
    threads.next ref = .ok cell.next := by
  rw [next, Arena.get_eq_ok_iff.mpr stored, Except.ok_bind]
  rfl

end Threads

theorem Arena.size_eq_of_map {entity : Entity} {α β : Type} {first : Arena entity α}
    {second : Arena entity β} {change : Ref entity → α → β}
    (maps : ∀ ref, second.get? ref = (first.get? ref).map (change ref)) :
    second.size = first.size := by
  have same : ∀ index, index < second.size ↔ index < first.size := fun index => by
    rw [← @Arena.get?_isSome_iff _ _ second ⟨index⟩, ← @Arena.get?_isSome_iff _ _ first ⟨index⟩,
      maps, Option.isSome_map]
  refine Nat.le_antisymm (Nat.le_of_not_lt fun less => ?_) (Nat.le_of_not_lt fun less => ?_)
  · exact Nat.lt_irrefl _ ((same first.size).mp less)
  · exact Nat.lt_irrefl _ ((same second.size).mpr less)

/-! ## Links that an order determines -/

def Body.thread (content : Body) : Thread :=
  { content with first := content.order.head?, last := content.order.getLast? }

namespace Layout

def listOf (layout : Layout) (body : BodyRef) : List StatementRef :=
  ((layout.bodies.get? body).map Body.order).getD []

def around (layout : Layout) (holder : Option BodyRef) : List StatementRef :=
  holder.elim [] layout.listOf

def cell (layout : Layout) (ref : StatementRef) (placed : Placed) : Cell :=
  { placed with
    previous := successor? ref (layout.around placed.body).reverse
    next := successor? ref (layout.around placed.body) }

end Layout

/-- The links spell out the orders of the layout. -/
structure Threads.Spells (threads : Threads) (layout : Layout) : Prop where
  cells : ∀ ref, threads.cells.get? ref = (layout.statements.get? ref).map (layout.cell ref)
  bodies : ∀ body, threads.bodies.get? body = (layout.bodies.get? body).map Body.thread

/-! ## Tying a statement in -/

namespace Direction

@[simp] theorem reverse_backward : Direction.backward.reverse = .forward := rfl

@[simp] theorem reverse_forward : Direction.forward.reverse = .backward := rfl

@[simp] def fore : Direction → Option StatementRef → Option StatementRef → Option StatementRef
  | .backward, _, beyond => beyond
  | .forward, near, _ => near

@[simp] def aft : Direction → Option StatementRef → Option StatementRef → Option StatementRef
  | .backward, near, _ => near
  | .forward, _, beyond => beyond

end Direction

def Cell.splice (cell : Cell) (body : BodyRef) (new : StatementRef)
    (prior following : Option StatementRef) (ref : StatementRef) : Cell :=
  if ref = new then { cell with body := some body, previous := prior, next := following }
  else
    { cell with
      previous := if following = some ref then some new else cell.previous
      next := if prior = some ref then some new else cell.next }

def Thread.splice (thread : Thread) (new : StatementRef)
    (prior following : Option StatementRef) : Thread :=
  { thread with
    first := if prior = none then some new else thread.first
    last := if following = none then some new else thread.last }

/-- `after` is `before` with `new` tied into `body` between `prior` and `following`. -/
structure Threads.Splices (before after : Threads) (body : BodyRef) (new : StatementRef)
    (prior following : Option StatementRef) : Prop where
  cells : ∀ ref, after.cells.get? ref =
    (before.cells.get? ref).map (·.splice body new prior following ref)
  bodies : ∀ other, after.bodies.get? other = (before.bodies.get? other).map fun thread =>
    if other = body then thread.splice new prior following else thread

namespace Layout

variable {layout : Layout} {body : BodyRef} {content : Body} {ref new : StatementRef}
  {front back : List StatementRef} {place : List StatementRef → List StatementRef}

theorem around_of_get? (stored : layout.bodies.get? body = some content) :
    layout.around (some body) = content.order := by
  simp [around, listOf, stored]

theorem cell_congr {other : Layout} (same : other.listOf = layout.listOf) :
    other.cell = layout.cell := by
  funext ref placed
  simp only [cell, around, same]

theorem cell_addBody {scope : ScopeRef} : (layout.addBody scope).2.cell = layout.cell := by
  refine cell_congr (funext fun body => ?_)
  simp only [listOf, addBody, Arena.get?_push]
  split
  · rename_i same
    simp [same, Arena.get?_next]
  · rfl

theorem cell_marking : (layout.marking body new).cell = layout.cell := by
  refine cell_congr (funext fun other => ?_)
  simp only [listOf, marking, Arena.get?_update]
  split <;> simp [Function.comp_def]

theorem Fits.around_putting (fits : layout.Fits body new content front back place)
    (holder : Option BodyRef) : (layout.putting body new place).around holder =
      if holder = some body then front ++ new :: back else layout.around holder := by
  cases holder with
  | none => simp [around]
  | some other =>
      by_cases same : other = body
      · subst same
        simp [around, listOf, bodies_putting, fits.stored, fits.placed]
      · simp [around, listOf, bodies_putting, same, Ne.symm same]

theorem Fits.cell_putting (fits : layout.Fits body new content front back place)
    (orderly : layout.Orderly) {placed : Placed}
    (stored : layout.statements.get? ref = some placed) (other : ref ≠ new) :
    (layout.putting body new place).cell ref placed =
      (layout.cell ref placed).splice body new front.getLast? back.head? ref := by
  have unique := fits.unique orderly
  by_cases here : placed.body = some body
  · simp only [cell, Cell.splice, fits.around_putting, here, if_true, if_neg other,
      around_of_get? fits.stored, successor?_insert unique, predecessor?_insert unique, fits.split]
  · have missing : ref ∉ front ++ back := fun member => by
      have lists : layout.Lists body ref := ⟨content, fits.stored, fits.split ▸ member⟩
      have held := (orderly.held ref body).mpr lists
      rw [bodyOf_of_get? stored] at held
      exact here (Except.ok.inj held)
    rw [List.mem_append, not_or] at missing
    have notPrior : front.getLast? ≠ some ref := fun last =>
      missing.1 (List.mem_of_getLast? last)
    have notFollowing : back.head? ≠ some ref := fun first =>
      missing.2 (List.mem_of_head? first)
    simp only [cell, Cell.splice, fits.around_putting, if_neg here, if_neg other,
      if_neg notPrior, if_neg notFollowing]

end Layout

namespace Threads

variable {layout : Layout} {before after : Threads} {body : BodyRef} {content : Body}
  {new : StatementRef} {front back : List StatementRef}
  {place : List StatementRef → List StatementRef}

theorem Splices.spells (splices : before.Splices after body new front.getLast? back.head?)
    (fits : layout.Fits body new content front back place) (orderly : layout.Orderly)
    (spells : before.Spells layout) : after.Spells (layout.putting body new place) where
  cells ref := by
    rw [splices.cells, spells.cells, Layout.statements_putting, Option.map_map]
    -- The new statement had no links; for any other one only a new neighbour counts.
    by_cases same : ref = new
    · subst same
      obtain ⟨statement, stored⟩ := Layout.bodyOf_eq_ok_iff.mp fits.free
      have unique := fits.unique orderly
      simp only [stored, if_true, Option.map_some, Function.comp_apply, Cell.splice, Layout.cell,
        fits.around_putting, successor?_insert unique, predecessor?_insert unique]
    · cases stored : layout.statements.get? ref with
      | none => simp
      | some placed =>
          have linked := fits.cell_putting orderly stored same
          simpa [Ne.symm same] using linked.symm
  bodies other := by
    rw [splices.bodies, spells.bodies, Layout.bodies_putting, Option.map_map]
    by_cases same : other = body
    · subst same
      simp only [fits.stored, if_true, Option.map_some, Function.comp_apply, Body.thread,
        Thread.splice, fits.placed, Option.some.injEq, Thread.mk.injEq, true_and, and_true]
      rw [fits.split]
      constructor
      · cases front <;> simp
      · cases back <;> simp
    · simp [same, Ne.symm same, Function.comp_def]

end Threads

/-! ## Writing links -/

namespace Threading

variable {threads : Threads} {body : BodyRef} {ref anchor new : StatementRef}

theorem ask_of_ok {α : Type} {question : Threads → Except Fault α} {answer : α}
    (answered : question threads = .ok answer) :
    ask question threads = .ok answer threads := by
  rw [ask, answered]

theorem ask_of_error {α : Type} {question : Threads → Except Fault α} {fault : Fault}
    (answered : question threads = .error fault) :
    ask question threads = .error fault threads := by
  rw [ask, answered]

theorem changeCell_of_lt {change : Cell → Cell} (inside : ref.index < threads.cells.size) :
    changeCell ref change threads =
      .ok () { threads with cells := threads.cells.update ref change } := by
  rw [changeCell, Arena.modify_of_lt inside]

theorem changeThread_of_lt {change : Thread → Thread}
    (inside : body.index < threads.bodies.size) :
    changeThread body change threads =
      .ok () { threads with bodies := threads.bodies.update body change } := by
  rw [changeThread, Arena.modify_of_lt inside]

def claimed (threads : Threads) (body : BodyRef) (new : StatementRef) : Threads :=
  { threads with cells := threads.cells.update new fun cell => { cell with body := some body } }

theorem claim_of_error {fault : Fault} (held : threads.bodyOf new = .error fault) :
    claim new body threads = .error fault threads := by
  have asked : ask (·.bodyOf new) threads = .error fault threads := ask_of_error held
  rw [claim, bind_of_error asked]

theorem claim_of_held {holder : BodyRef} (held : threads.bodyOf new = .ok (some holder)) :
    claim new body threads = .error (.alreadyLinked new holder) threads := by
  have asked : ask (·.bodyOf new) threads = .ok (some holder) threads := ask_of_ok held
  rw [claim, bind_of_ok asked]
  rfl

theorem claim_of_free (free : threads.bodyOf new = .ok none)
    (known : new.index < threads.cells.size) :
    claim new body threads = .ok () (claimed threads body new) := by
  have asked : ask (·.bodyOf new) threads = .ok none threads := ask_of_ok free
  rw [claim, bind_of_ok asked]
  exact changeCell_of_lt known

theorem anchorBody_of_error {fault : Fault} (held : threads.bodyOf anchor = .error fault) :
    anchorBody anchor threads = .error fault threads := by
  have asked : ask (·.bodyOf anchor) threads = .error fault threads := ask_of_error held
  rw [anchorBody, bind_of_error asked]

theorem anchorBody_of_ok {holder : Option BodyRef} (held : threads.bodyOf anchor = .ok holder) :
    anchorBody anchor threads = match holder with
      | some body => .ok body threads
      | none => .error (.anchorUnlinked anchor) threads := by
  have asked : ask (·.bodyOf anchor) threads = .ok holder threads := ask_of_ok held
  rw [anchorBody, bind_of_ok asked]
  cases holder <;> rfl

/-- `new` can be tied into `body` next to `anchor`, which has the links `cell`. -/
structure Ready (threads : Threads) (body : BodyRef) (anchor new : StatementRef) (cell : Cell) :
    Prop where
  stored : threads.cells.get? anchor = some cell
  apart : anchor ≠ new
  known : new.index < threads.cells.size
  inside : body.index < threads.bodies.size
  beyond : ∀ way ref, cell.neighbour way = some ref → ref ≠ new ∧ ref.index < threads.cells.size

/-- Tying a statement in next to an anchor puts it between the anchor and its neighbour. -/
theorem Ready.tie {cell : Cell} (ready : Ready threads body anchor new cell) (way : Direction) :
    ∃ after, tie way body anchor new (claimed threads body new) = .ok () after ∧
      threads.Splices after body new (way.fore (some anchor) (cell.neighbour way))
        (way.aft (some anchor) (cell.neighbour way)) := by
  obtain ⟨stored, apart, known, inside, beyond⟩ := ready
  have found : (claimed threads body new).cells.get? anchor = some cell := by
    simp [claimed, Arena.get?_update, apart.symm, stored]
  have anchorKnown := Arena.lt_size_of_get? stored
  rw [Threading.tie, bind_of_ok (ask_of_ok (Arena.get_eq_ok_iff.mpr found)),
    bind_of_ok (changeCell_of_lt (by simpa [claimed] using known)),
    bind_of_ok (changeCell_of_lt (by simpa [claimed] using known)),
    bind_of_ok (changeCell_of_lt (by simpa [claimed] using anchorKnown))]
  -- Without a neighbour it is an end of the body that moves to the new statement.
  cases neighbour : cell.neighbour way with
  | none =>
      refine ⟨_, changeThread_of_lt inside, fun ref => ?_, fun other => ?_⟩
      · simp only [claimed, Arena.get?_update, Cell.splice]
        by_cases isNew : ref = new
        · cases way <;> simp [isNew, apart, Cell.point, Function.comp_def]
        · by_cases isAnchor : anchor = ref <;> cases way <;>
            simp [isNew, Ne.symm isNew, isAnchor, Cell.point]
      · by_cases here : other = body
        · cases way <;> simp [claimed, Arena.get?_update, here, Thread.extend, Thread.splice]
        · simp [claimed, Arena.get?_update, here, Ne.symm here]
  | some next =>
      obtain ⟨old, nextKnown⟩ := beyond way next neighbour
      refine ⟨_, changeCell_of_lt (by simpa [claimed] using nextKnown), fun ref => ?_,
        fun other => ?_⟩
      · simp only [claimed, Arena.get?_update, Cell.splice]
        by_cases isNew : ref = new
        · cases way <;> simp [isNew, apart, old, Cell.point, Function.comp_def]
        · by_cases isAnchor : anchor = ref <;> by_cases isNext : next = ref <;> cases way <;>
            simp [isNew, Ne.symm isNew, isAnchor, isNext, Cell.point, Function.comp_def]
      · cases way <;> simp [claimed, Thread.splice]

theorem extend_both {statement : Statement} (stored : threads.cells.get? new = some { statement })
    (inside : body.index < threads.bodies.size) :
    ∃ after, changeThread body (fun thread => { thread with first := some new, last := some new })
        (claimed threads body new) = .ok () after ∧
      threads.Splices after body new none none := by
  refine ⟨_, changeThread_of_lt inside, fun ref => ?_, fun other => ?_⟩
  · simp only [claimed, Arena.get?_update, Cell.splice]
    by_cases isNew : ref = new
    · simp [isNew, stored]
    · simp [isNew, Ne.symm isNew]
  · by_cases here : other = body
    · simp [claimed, Arena.get?_update, Thread.splice, here]
    · simp [claimed, Arena.get?_update, here, Ne.symm here]

end Threading

/-! ## Reading links -/

namespace Threads.Spells

variable {threads : Threads} {layout : Layout} {body : BodyRef} {content : Body}
  {ref anchor new : StatementRef} {front back : List StatementRef}
  {place : List StatementRef → List StatementRef} (spells : threads.Spells layout)
include spells

theorem cells_size : threads.cells.size = layout.statements.size :=
  Arena.size_eq_of_map spells.cells

theorem bodies_size : threads.bodies.size = layout.bodies.size :=
  Arena.size_eq_of_map spells.bodies

theorem bodyOf_eq (ref : StatementRef) : threads.bodyOf ref = layout.bodyOf ref := by
  simp only [Threads.bodyOf, Layout.bodyOf, Arena.get, spells.cells]
  cases layout.statements.get? ref <;> rfl

theorem get_body (stored : layout.bodies.get? body = some content) :
    threads.bodies.get body = .ok content.thread := by
  rw [Arena.get_eq_ok_iff, spells.bodies, stored]
  rfl

theorem ask_body (stored : layout.bodies.get? body = some content) :
    Threading.ask (·.bodies.get body) threads = .ok content.thread threads :=
  Threading.ask_of_ok (spells.get_body stored)

theorem ask_body_of_none (missing : layout.bodies.get? body = none) :
    Threading.ask (·.bodies.get body) threads = .error .dangling threads := by
  refine Threading.ask_of_error (Arena.get_of_none ?_)
  rw [spells.bodies, missing]
  rfl

theorem get?_of_split (orderly : layout.Orderly) (stored : layout.bodies.get? body = some content)
    (split : content.order = front ++ ref :: back) :
    ∃ cell, threads.cells.get? ref = some cell ∧ cell.body = some body ∧
      cell.previous = front.getLast? ∧ cell.next = back.head? := by
  have lists : layout.Lists body ref :=
    ⟨content, stored, split ▸ List.mem_append_right _ List.mem_cons_self⟩
  obtain ⟨statement, found⟩ := Layout.bodyOf_eq_ok_iff.mp ((orderly.held ref body).mpr lists)
  have unique := split ▸ orderly.unique body content stored
  refine ⟨layout.cell ref { statement, body := some body }, ?_, rfl, ?_, ?_⟩
  · rw [spells.cells, found]
    rfl
  · simp only [Layout.cell, Layout.around_of_get? stored, split, predecessor?_insert unique,
      if_true]
  · simp only [Layout.cell, Layout.around_of_get? stored, split, successor?_insert unique,
      if_true]

theorem get?_of_free (free : layout.bodyOf ref = .ok none) :
    ∃ statement, threads.cells.get? ref = some { statement } := by
  obtain ⟨statement, found⟩ := Layout.bodyOf_eq_ok_iff.mp free
  exact ⟨statement, by
    simp [spells.cells, found, Layout.cell, Layout.around, successor?]⟩

end Threads.Spells

/-! ## Operations -/

/-- What changes the links ends as what changes the layout does: either in the same fault,
with nothing changed, or in links that spell out the new layout. -/
inductive Threads.Agrees (threads : Threads) :
    Except Fault Layout → EStateM.Result Fault Threads Unit → Prop
  | refused (fault : Fault) : Agrees threads (.error fault) (.error fault threads)
  | linked {layout : Layout} {after : Threads} (spells : after.Spells layout) :
      Agrees threads (.ok layout) (.ok () after)

namespace Threads.Spells

variable {threads : Threads} {layout : Layout} {body : BodyRef} {content : Body}
  {ref anchor new : StatementRef} {front back : List StatementRef}
  {place : List StatementRef → List StatementRef} (spells : threads.Spells layout)
  (orderly : layout.Orderly)
include spells orderly

theorem link {rest : Threading Unit} (stored : layout.bodies.get? body = some content)
    (split : content.order = front ++ back) (placed : place content.order = front ++ new :: back)
    (ties : layout.bodyOf new = .ok none →
      ∃ after, rest (Threading.claimed threads body new) = .ok () after ∧
        threads.Splices after body new front.getLast? back.head?) :
    threads.Agrees (layout.link body new place)
      ((do Threading.claim new body; rest : Threading Unit) threads) := by
  have inside := Arena.lt_size_of_get? stored
  have same := spells.bodyOf_eq new
  cases held : layout.bodyOf new with
  | error fault =>
      rw [Layout.link_of_error inside held,
        bind_of_error (Threading.claim_of_error (same.trans held))]
      exact .refused fault
  | ok holder =>
      cases holder with
      | some holder =>
          rw [Layout.link_of_held inside held,
            bind_of_error (Threading.claim_of_held (same.trans held))]
          exact .refused (.alreadyLinked new holder)
      | none =>
          have fits : layout.Fits body new content front back place := ⟨held, stored, split, placed⟩
          obtain ⟨statement, found⟩ := spells.get?_of_free held
          obtain ⟨after, ran, splices⟩ := ties held
          have claimed : Threading.claim new body threads = _ :=
            Threading.claim_of_free (same.trans held) (Arena.lt_size_of_get? found)
          rw [fits.link_eq, bind_of_ok claimed, ran]
          exact .linked (splices.spells fits orderly spells)

theorem ready (stored : layout.bodies.get? body = some content)
    (split : content.order = front ++ anchor :: back) (free : layout.bodyOf new = .ok none) :
    ∃ cell, Threading.Ready threads body anchor new cell ∧
      cell.previous = front.getLast? ∧ cell.next = back.head? := by
  obtain ⟨cell, found, -, previous, next⟩ := spells.get?_of_split orderly stored split
  obtain ⟨statement, foundNew⟩ := spells.get?_of_free free
  have others : ∀ ref ∈ content.order, ref ≠ new ∧ ref.index < threads.cells.size := by
    intro ref member
    have lists : layout.Lists body ref := ⟨content, stored, member⟩
    refine ⟨?_, spells.cells_size ▸ orderly.lt_size_of_lists lists⟩
    rintro rfl
    have held := (orderly.held ref body).mpr lists
    rw [free] at held
    cases held
  refine ⟨cell, ⟨found, ?_, ?_, ?_, ?_⟩, previous, next⟩
  · exact (others anchor (by simp [split])).1
  · exact Arena.lt_size_of_get? foundNew
  · exact spells.bodies_size ▸ Arena.lt_size_of_get? stored
  · intro way ref neighbour
    refine others ref ?_
    cases way with
    | backward =>
        have member := List.mem_of_getLast? (previous.symm.trans neighbour)
        simp [split, member]
    | forward =>
        have member := List.mem_of_head? (next.symm.trans neighbour)
        simp [split, member]

theorem insertBeside {way : Direction}
    (links : ∀ body content front back, layout.bodies.get? body = some content →
      content.order = front ++ anchor :: back → anchor ∉ front →
      threads.Agrees (layout.link body new place)
        ((do Threading.claim new body; Threading.tie way body anchor new) threads)) :
    threads.Agrees (do layout.link (← layout.anchorBody anchor) new place)
      (Threading.insertBeside way anchor new threads) := by
  have same := spells.bodyOf_eq anchor
  cases held : layout.bodyOf anchor with
  | error fault =>
      rw [Threading.insertBeside,
        bind_of_error (Threading.anchorBody_of_error (same.trans held)), Layout.anchorBody, held]
      exact .refused fault
  | ok holder =>
      have asked := Threading.anchorBody_of_ok (same.trans held)
      cases holder with
      | none =>
          rw [Threading.insertBeside, bind_of_error asked, Layout.anchorBody, held]
          exact .refused (.anchorUnlinked anchor)
      | some body =>
          obtain ⟨content, stored, member⟩ := (orderly.held anchor body).mp held
          obtain ⟨front, back, split, first⟩ := List.eq_append_cons_of_mem member
          rw [Threading.insertBeside, bind_of_ok asked, Layout.anchorBody_eq_ok_iff.mpr held]
          exact links body content front back stored split first

theorem insertAfter :
    threads.Agrees (layout.insertAfter anchor new) (Threading.insertAfter anchor new threads) := by
  refine spells.insertBeside orderly fun body content front back stored split first => ?_
  have splitBehind : content.order = (front ++ [anchor]) ++ back := by simp [split]
  have placed : StructuralTypes.insertAfter anchor new content.order =
      (front ++ [anchor]) ++ new :: back := by
    simp [split, insertAfter_append_cons new back first]
  refine spells.link orderly stored splitBehind placed fun free => ?_
  obtain ⟨cell, ready, -, next⟩ := spells.ready orderly stored split free
  rw [List.getLast?_concat, ← next]
  exact ready.tie .forward

theorem insertBefore :
    threads.Agrees (layout.insertBefore anchor new)
      (Threading.insertBefore anchor new threads) := by
  refine spells.insertBeside orderly fun body content front back stored split first => ?_
  have placed : StructuralTypes.insertBefore anchor new content.order =
      front ++ new :: anchor :: back := by
    rw [split, insertBefore_append_cons new back first]
  refine spells.link orderly stored split placed fun free => ?_
  obtain ⟨cell, ready, previous, -⟩ := spells.ready orderly stored split free
  rw [List.head?_cons, ← previous]
  exact ready.tie .backward

theorem append :
    threads.Agrees (layout.append body new) (Threading.append body new threads) := by
  cases stored : layout.bodies.get? body with
  | none =>
      rw [Layout.append, Layout.link_of_none stored, Threading.append,
        bind_of_error (spells.ask_body_of_none stored)]
      exact .refused .dangling
  | some content =>
      rw [Threading.append, bind_of_ok (spells.ask_body stored)]
      rcases List.eq_nil_or_concat' content.order with empty | ⟨front, last, split⟩
      · simp only [Body.thread, empty, List.getLast?_nil]
        have placed : content.order ++ [new] = [] ++ [new] := by rw [empty]
        refine spells.link orderly stored empty placed fun free => ?_
        obtain ⟨statement, found⟩ := spells.get?_of_free free
        exact Threading.extend_both found (spells.bodies_size ▸ Arena.lt_size_of_get? stored)
      · simp only [Body.thread, split, List.getLast?_concat]
        rw [orderly.append_eq_insertAfter stored split]
        exact spells.insertAfter orderly

theorem prepend :
    threads.Agrees (layout.prepend body new) (Threading.prepend body new threads) := by
  cases stored : layout.bodies.get? body with
  | none =>
      rw [Layout.prepend, Layout.link_of_none stored, Threading.prepend,
        bind_of_error (spells.ask_body_of_none stored)]
      exact .refused .dangling
  | some content =>
      rw [Threading.prepend, bind_of_ok (spells.ask_body stored)]
      cases split : content.order with
      | nil =>
          simp only [Body.thread, split, List.head?_nil]
          rw [Layout.prepend_eq_append stored split]
          exact spells.append orderly
      | cons first back =>
          simp only [Body.thread, split, List.head?_cons]
          rw [orderly.prepend_eq_insertBefore stored split]
          exact spells.insertBefore orderly

end Threads.Spells

section

variable {threads : Threads} {layout : Layout} {body : BodyRef} {content : Body}
  {new : StatementRef}

theorem Threads.Agrees.mark {result : Except Fault Layout} {action : Threading Unit}
    (agrees : threads.Agrees result (action threads))
    (kept : ∀ linked, result = .ok linked → ∃ content, linked.bodies.get? body = some content) :
    threads.Agrees
      (do
        let linked ← result
        let bodies ← linked.bodies.modify body
          fun content => { content with lastSynthesized := some new }
        return { linked with bodies })
      ((do
        action
        Threading.changeThread body fun thread =>
          { thread with lastSynthesized := some new } : Threading Unit) threads) := by
  generalize ran : action threads = outcome at agrees
  cases agrees with
  | refused fault =>
      rw [bind_of_error ran]
      exact .refused fault
  | @linked linked after spells =>
      obtain ⟨content, stored⟩ := kept linked rfl
      have inside := Arena.lt_size_of_get? stored
      rw [bind_of_ok ran, Threading.changeThread_of_lt (spells.bodies_size ▸ inside)]
      simp only [bind, Except.bind, Arena.modify_of_lt inside]
      refine .linked ⟨fun ref => ?_, fun other => ?_⟩
      · change after.cells.get? ref = (linked.statements.get? ref).map
          ((linked.marking body new).cell ref)
        rw [spells.cells, Layout.cell_marking]
      · change (after.bodies.update body _).get? other = _
        simp only [Arena.get?_update, spells.bodies]
        split
        · simp [Function.comp_def, Body.thread]
        · rfl

end

theorem Threads.Spells.placeSynthesized {threads : Threads} {layout : Layout} {body : BodyRef}
    {new : StatementRef} (spells : threads.Spells layout) (orderly : layout.Orderly) :
    threads.Agrees (layout.placeSynthesized body new)
      (Threading.placeSynthesized body new threads) := by
  cases stored : layout.bodies.get? body with
  | none =>
      rw [Layout.placeSynthesized, Arena.get_of_none stored, Threading.placeSynthesized,
        bind_of_error (spells.ask_body_of_none stored)]
      exact .refused .dangling
  | some content =>
      rw [Layout.placeSynthesized, Arena.get_eq_ok_iff.mpr stored, Except.ok_bind,
        Threading.placeSynthesized, bind_of_ok (spells.ask_body stored)]
      have kept : ∀ linked, layout.Grows linked →
          ∃ content, linked.bodies.get? body = some content := fun linked grows => by
        obtain ⟨later, found, -⟩ := grows.bodies body content stored
        exact ⟨later, found⟩
      simp only [Body.thread]
      cases recent : content.lastSynthesized with
      | none =>
          exact (spells.prepend orderly).mark fun linked placed =>
            kept linked (Layout.grows_link (fun _ _ => List.mem_cons_of_mem _) placed)
      | some last =>
          exact (spells.insertAfter orderly).mark fun linked placed =>
            kept linked (Layout.grows_insertAfter placed)

end StructuralTypes
