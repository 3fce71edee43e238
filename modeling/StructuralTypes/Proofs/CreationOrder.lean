import StructuralTypes.Proofs.Forest
import StructuralTypes.Proofs.Refinement

/-! The order in which synthesized statements stand. Whatever is linked in front of them, behind
them or in between, the statements that were placed as synthesized in a body stand there in the
order in which they were placed, and what was appended to the body stands behind all of them. -/

namespace StructuralTypes

/-! ## What is left of a list -/

section

variable {α : Type}

theorem sublist_parts {element : α} {left right front back : List α}
    (unique : (front ++ element :: back).Nodup)
    (sublist : (left ++ element :: right).Sublist (front ++ element :: back)) :
    left.Sublist front ∧ right.Sublist back := by
  obtain ⟨first, later, split, inFirst, inLater⟩ := List.append_sublist_iff.mp sublist
  obtain ⟨second, third, rfl, member, inThird⟩ := List.cons_sublist_iff.mp inLater
  obtain ⟨before, after, rfl⟩ := List.append_of_mem member
  have alone := not_mem_of_nodup unique
  have same : front ++ element :: back = (first ++ before) ++ element :: (after ++ third) := by
    simp [split]
  obtain ⟨rfl, -, rfl⟩ := (List.append_cons_inj_of_notMem alone.1 alone.2).mp same
  exact ⟨inFirst.trans (List.sublist_append_left ..), inThird.trans (List.sublist_append_right ..)⟩

theorem eq_of_sublist_of_subset {elements more : List α} (sublist : elements.Sublist more)
    (unique : more.Nodup) (complete : more ⊆ elements) : elements = more :=
  sublist.eq_of_length_le (unique.subperm complete).length_le

end

/-! ## What requests place -/

namespace Request

def placedIn? (body : BodyRef) : Request → Option StatementRef
  | .placeSynthesized target new => if target = body then some new else none
  | _ => none

def appendedTo? (body : BodyRef) : Request → Option StatementRef
  | .append target new => if target = body then some new else none
  | _ => none

end Request

def placements (body : BodyRef) (requests : List Request) : List StatementRef :=
  requests.filterMap (·.placedIn? body)

def appendings (body : BodyRef) (requests : List Request) : List StatementRef :=
  requests.filterMap (·.appendedTo? body)

@[simp] theorem placements_concat (body : BodyRef) (history : List Request) (request : Request) :
    placements body (history ++ [request]) =
      placements body history ++ (request.placedIn? body).toList := by
  cases placed : request.placedIn? body <;> simp [placements, placed]

@[simp] theorem appendings_concat (body : BodyRef) (history : List Request) (request : Request) :
    appendings body (history ++ [request]) =
      appendings body history ++ (request.appendedTo? body).toList := by
  cases appended : request.appendedTo? body <;> simp [appendings, appended]

def Threads.accepted (threads : Threads) : List Request → List Request
  | [] => []
  | request :: rest =>
      match request.onThreads threads with
      | .ok _ after => request :: after.accepted rest
      | .error _ after => after.accepted rest

namespace Arrangement

variable {arrangement : Arrangement} {body target : BodyRef} {content : Body}
  {place : List StatementRef → List StatementRef} {history : List Request}

def order (arrangement : Arrangement) (body : BodyRef) : List StatementRef :=
  (arrangement.bodies[body.index]?).elim [] Body.order

def recent? (arrangement : Arrangement) (body : BodyRef) : Option StatementRef :=
  (arrangement.bodies[body.index]?).bind Body.lastSynthesized

theorem order_of_stored (stored : arrangement.bodies[body.index]? = some content) :
    arrangement.order body = content.order := by
  rw [order, stored]
  rfl

theorem order_change (index : Nat) (stored : arrangement.bodies[index]? = some content) :
    (arrangement.change index place).order body =
      if index = body.index then place content.order else arrangement.order body := by
  simp only [order, change, List.getElem?_modify]
  split
  · rename_i same
    simp [← same, stored]
  · simp

@[simp] theorem recent?_change (index : Nat) :
    (arrangement.change index place).recent? body = arrangement.recent? body := by
  simp only [recent?, change, List.getElem?_modify]
  split <;> cases arrangement.bodies[body.index]? <;> rfl

theorem sublist_order_change (keeps : ∀ order, List.Sublist order (place order)) (index : Nat) :
    (arrangement.order body).Sublist ((arrangement.change index place).order body) := by
  simp only [order, change, List.getElem?_modify]
  split <;> cases arrangement.bodies[body.index]? <;> first | exact .refl _ | exact keeps _

/-! ## Lists and the history of their requests -/

/-- In the list of each body, what the history has placed as synthesized stands in the order of the
requests, what it has appended stands behind that in the order of the requests, and the statement
placed most recently is the last one that the history has placed. -/
structure Records (arrangement : Arrangement) (history : List Request) : Prop where
  sublist : ∀ body, (placements body history ++ appendings body history).Sublist
    (arrangement.order body)
  recent : ∀ body, arrangement.recent? body = (placements body history).getLast?

theorem Records.widen {next : Arrangement} {request : Request}
    (records : arrangement.Records history) (notPlaced : ∀ body, request.placedIn? body = none)
    (notAppended : ∀ body, request.appendedTo? body = none)
    (keeps : ∀ body, (arrangement.order body).Sublist (next.order body))
    (recent : ∀ body, next.recent? body = arrangement.recent? body) :
    next.Records (history ++ [request]) where
  sublist body := by
    simpa [notPlaced, notAppended] using (records.sublist body).trans (keeps body)
  recent body := by simpa [notPlaced, recent] using records.recent body

theorem Records.append {new : StatementRef} (records : arrangement.Records history)
    (stored : arrangement.bodies[target.index]? = some content) :
    (arrangement.change target.index (· ++ [new])).Records (history ++ [.append target new]) where
  sublist body := by
    rw [order_change _ stored]
    by_cases same : target = body
    · subst same
      have sublist := records.sublist target
      rw [order_of_stored stored] at sublist
      simpa [Request.placedIn?, Request.appendedTo?] using sublist.append_right [new]
    · simpa [Request.placedIn?, Request.appendedTo?, same, ← Ref.eq_iff_index_eq] using
        records.sublist body
  recent body := by simpa [Request.placedIn?] using records.recent body

theorem Records.placeSynthesized {new : StatementRef} (records : arrangement.Records history)
    (stored : arrangement.bodies[target.index]? = some content) (unique : content.order.Nodup) :
    ((Request.placeSynthesized target new).act arrangement).Records
      (history ++ [.placeSynthesized target new]) where
  sublist body := by
    by_cases same : target = body
    · subst same
      have sublist := records.sublist target
      have recent := records.recent target
      simp only [order, recent?, stored, Option.elim_some, Option.bind_some] at sublist recent
      simp only [order, Request.act, List.getElem?_modify_eq, stored, Option.map_eq_map,
        Option.map_some, Option.elim_some, placements_concat, appendings_concat,
        Request.placedIn?, Request.appendedTo?, if_true, Option.toList_some, Option.toList_none,
        List.append_nil]
      cases marked : content.lastSynthesized with
      | none =>
          -- Nothing has been placed here yet, so the front of the list is the right place.
          rw [marked, eq_comm, List.getLast?_eq_none_iff] at recent
          rw [recent] at sublist ⊢
          exact sublist.cons_cons new
      | some last =>
          -- The statement placed last parts both lists, and the new one goes right behind it.
          rw [marked, eq_comm, List.getLast?_eq_some_iff] at recent
          obtain ⟨earlier, isLast⟩ := recent
          rw [isLast, List.append_assoc, List.singleton_append] at sublist
          have member : last ∈ content.order := sublist.subset (by simp)
          obtain ⟨front, back, split, first⟩ := List.eq_append_cons_of_mem member
          rw [split] at sublist unique
          obtain ⟨inFront, inBack⟩ := sublist_parts unique sublist
          rw [isLast, split]
          dsimp only
          rw [insertAfter_append_cons new back first]
          simpa using inFront.append ((inBack.cons_cons new).cons_cons last)
    · simpa [order, Request.act, List.getElem?_modify, Request.placedIn?, Request.appendedTo?, same,
        ← Ref.eq_iff_index_eq] using records.sublist body
  recent body := by
    by_cases same : target = body
    · simp [recent?, Request.act, same ▸ stored, Request.placedIn?, same]
    · simpa [recent?, Request.act, List.getElem?_modify, Request.placedIn?, same,
        ← Ref.eq_iff_index_eq] using records.recent body

@[simp] theorem order_addBody (scope : ScopeRef) :
    ((Request.addBody scope).act arrangement).order body = arrangement.order body := by
  simp only [order, Request.act, List.getElem?_append]
  split
  · rfl
  · rename_i outside
    rw [List.getElem?_eq_none (Nat.le_of_not_lt outside), List.getElem?_singleton]
    split <;> rfl

@[simp] theorem recent?_addBody (scope : ScopeRef) :
    ((Request.addBody scope).act arrangement).recent? body = arrangement.recent? body := by
  simp only [recent?, Request.act, List.getElem?_append]
  split
  · rfl
  · rename_i outside
    rw [List.getElem?_eq_none (Nat.le_of_not_lt outside), List.getElem?_singleton]
    split <;> rfl

theorem Records.act {request : Request} (records : arrangement.Records history)
    (unique : ∀ content ∈ arrangement.bodies, content.order.Nodup)
    (inRange : request.InRange arrangement) :
    (request.act arrangement).Records (history ++ [request]) := by
  -- Two requests add to the history; the others must only keep what it says in order.
  cases request with
  | addBody scope =>
      exact records.widen (fun _ => rfl) (fun _ => rfl) (fun _ => by simp) fun _ => by simp
  | addStatement statement =>
      exact records.widen (fun _ => rfl) (fun _ => rfl) (fun _ => .refl _) fun _ => rfl
  | append body new => exact records.append (List.getElem?_eq_getElem inRange.1)
  | prepend body new =>
      exact records.widen (fun _ => rfl) (fun _ => rfl)
        (fun _ => sublist_order_change (fun _ => List.sublist_cons_self ..) _)
        fun _ => recent?_change _
  | insertAfter anchor new =>
      exact records.widen (fun _ => rfl) (fun _ => rfl)
        (fun _ => sublist_order_change
          (fun order => (supplements_insertAfter anchor new order).sublist) _)
        fun _ => recent?_change _
  | insertBefore anchor new =>
      exact records.widen (fun _ => rfl) (fun _ => rfl)
        (fun _ => sublist_order_change
          (fun order => (supplements_insertBefore anchor new order).sublist) _)
        fun _ => recent?_change _
  | placeSynthesized body new =>
      exact records.placeSynthesized (List.getElem?_eq_getElem inRange.1)
        (unique _ (List.getElem_mem inRange.1))

end Arrangement

/-! ## Requests that are accepted -/

theorem Layout.inRange_of_request {layout linked : Layout} {request : Request}
    (granted : request.onLayout layout = .ok linked) : request.InRange layout.arrangement := by
  have statements : layout.arrangement.statements.length = layout.statements.size := by
    simp [arrangement]
  cases request with
  | addBody | addStatement => trivial
  | append body new =>
      obtain ⟨inside, known⟩ := known_of_link (show layout.append body new = _ from granted)
      exact ⟨inside, statements ▸ known⟩
  | prepend body new =>
      obtain ⟨inside, known⟩ := known_of_link (show layout.prepend body new = _ from granted)
      exact ⟨inside, statements ▸ known⟩
  | insertAfter anchor new =>
      have puts := puts_of_position (show (Position.after anchor).link new layout = _ from granted)
      exact ⟨statements ▸ anchor_lt_size granted, statements ▸ puts.lt_size⟩
  | insertBefore anchor new =>
      have puts := puts_of_position (show (Position.before anchor).link new layout = _ from granted)
      exact ⟨statements ▸ anchor_lt_size granted, statements ▸ puts.lt_size⟩
  | placeSynthesized body new =>
      obtain ⟨-, -, -, -, ⟨content, -, stored, -⟩ | ⟨content, stored, -⟩⟩ :=
        placeSynthesized_eq_ok granted
      all_goals
        exact ⟨Arena.lt_size_of_get? stored,
          statements ▸ (puts_of_placeSynthesized granted).lt_size⟩

namespace Threads

variable {threads : Threads} {arrangement : Arrangement} {history : List Request}

theorem Follows.request (follows : threads.Follows arrangement) (request : Request) :
    (∃ fault, request.onThreads threads = .error fault threads) ∨
      ∃ after, request.onThreads threads = .ok () after ∧ request.InRange arrangement ∧
        after.Follows (request.act arrangement) := by
  obtain ⟨layout, spells, orderly, rfl⟩ := follows
  have agrees := spells.onThreads orderly request
  generalize request.onThreads threads = outcome at agrees
  cases granted : request.onLayout layout with
  | error fault =>
      rw [granted] at agrees
      cases agrees
      exact .inl ⟨fault, rfl⟩
  | ok linked =>
      rw [granted] at agrees
      cases agrees with
      | linked spelled =>
          have inRange := Layout.inRange_of_request granted
          rcases orderly.onLayout inRange with ⟨-, fault, refused⟩ | ⟨-, same, isSame, still, acted⟩
          · cases granted.symm.trans refused
          · cases granted.symm.trans isSame
            exact .inr ⟨_, rfl, inRange, linked, spelled, still, acted⟩

theorem Follows.records (follows : threads.Follows arrangement)
    (records : arrangement.Records history) (requests : List Request) :
    ∃ later, (requests.foldl Threads.step threads).Follows later ∧
      later.Records (history ++ threads.accepted requests) := by
  induction requests generalizing threads arrangement history with
  | nil => exact ⟨arrangement, follows, by simpa [accepted] using records⟩
  | cons request rest induction =>
      rcases follows.request request with ⟨fault, ended⟩ | ⟨after, ended, inRange, next⟩
      · have stays : threads.step request = threads := by rw [Threads.step, ended]
        simpa [accepted, ended, stays] using induction follows records
      · have goes : threads.step request = after := by rw [Threads.step, ended]
        simpa [accepted, ended, goes] using
          induction next (records.act follows.shows.unique inRange)

theorem records_empty : Arrangement.Records {} [] where
  sublist _ := .slnil
  recent _ := rfl

/-- Synthesized statements keep the order in which they were placed. After any requests, whatever
they are and whichever of them are refused, reading a body finds the statements that were placed in
it as synthesized in the order of those requests. If all of its statements were placed in it so or
appended to it, it finds first those placed and then those appended, in the order of the
requests. -/
theorem reads_in_creation_order (requests : List Request) {body : BodyRef}
    (inside : body.index < (requests.foldl step {}).bodies.size) :
    let threads := requests.foldl step {}
    let placed := placements body (accepted {} requests)
    let appended := appendings body (accepted {} requests)
    ∃ order, (∀ steps, threads.readBody steps body =
        .ok (order.take steps, (order.drop steps).head?)) ∧
      order.filter (· ∈ placed) = placed ∧
      ((∀ ref ∈ order, ref ∈ placed ∨ ref ∈ appended) → order = placed ++ appended) := by
  intro threads placed appended
  obtain ⟨arrangement, follows, records⟩ := follows_empty.records records_empty requests
  obtain ⟨thread, stored⟩ := Arena.exists_get?_of_lt_size inside
  have listed := follows.shows.scopes body
  rw [stored, Option.map_some, eq_comm, Option.map_eq_some_iff] at listed
  obtain ⟨content, found, -⟩ := listed
  have unique := follows.shows.unique content (List.mem_of_getElem? found)
  have sublist : (placed ++ appended).Sublist content.order := by
    simpa [Arrangement.order_of_stored found] using records.sublist body
  refine ⟨content.order, follows.shows.reads body content found, ?_, fun complete => ?_⟩
  · have kept := ((List.sublist_append_left placed appended).trans sublist).filter (· ∈ placed)
    rw [List.filter_eq_self.mpr (by simp)] at kept
    refine (eq_of_sublist_of_subset kept (unique.filter _) fun ref member => ?_).symm
    simpa using (List.mem_filter.mp member).2
  · exact (eq_of_sublist_of_subset sublist unique fun ref member =>
      List.mem_append.mpr (complete ref member)).symm

/-- Two bodies in turns. The first one has other statements in front of, between and behind those
placed as synthesized, one of which is refused a second place; the second one has none. -/
theorem reads_in_creation_order_of_two_bodies :
    let requests : List Request :=
      [.addBody ⟨0⟩, .addBody ⟨1⟩] ++
        List.replicate 8 (.addStatement { kind := .expression ⟨0⟩ }) ++
        [.append ⟨0⟩ ⟨0⟩, .placeSynthesized ⟨0⟩ ⟨1⟩, .insertAfter ⟨1⟩ ⟨2⟩,
          .placeSynthesized ⟨1⟩ ⟨3⟩, .prepend ⟨0⟩ ⟨4⟩, .append ⟨1⟩ ⟨7⟩, .placeSynthesized ⟨0⟩ ⟨5⟩,
          .placeSynthesized ⟨1⟩ ⟨5⟩, .placeSynthesized ⟨1⟩ ⟨6⟩]
    let threads := requests.foldl step {}
    placements ⟨0⟩ (accepted {} requests) = [⟨1⟩, ⟨5⟩] ∧
      threads.readBody 9 ⟨0⟩ = .ok ([⟨4⟩, ⟨1⟩, ⟨5⟩, ⟨2⟩, ⟨0⟩], none) ∧
      threads.readBody 9 ⟨1⟩ = .ok (placements ⟨1⟩ (accepted {} requests) ++
        appendings ⟨1⟩ (accepted {} requests), none) := by
  intro requests threads
  have inside : (⟨1⟩ : BodyRef).index < threads.bodies.size := by decide
  refine ⟨by decide, by decide, ?_⟩
  obtain ⟨order, reads, -, sorted⟩ := reads_in_creation_order requests inside
  have found : threads.readBody 9 ⟨1⟩ = .ok ([⟨3⟩, ⟨6⟩, ⟨7⟩], none) := by decide
  have isOrder : order = [⟨3⟩, ⟨6⟩, ⟨7⟩] := by
    have read := (reads 9).symm.trans found
    simp only [Except.ok.injEq, Prod.mk.injEq, List.head?_eq_none_iff] at read
    rw [← List.take_append_drop 9 order, read.1, read.2, List.append_nil]
  rw [found, ← isOrder, ← sorted (by rw [isOrder]; decide)]

end Threads

end StructuralTypes
