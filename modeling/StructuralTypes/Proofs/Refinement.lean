import StructuralTypes.Proofs.Threading

/-! Runs of requests on linked lists. Whatever is requested, in whatever order, the links show
the lists that the requests make, and a request is refused just if the lists say so. -/

namespace StructuralTypes

namespace Request

def onThreads : Request → Threading Unit
  | .addBody scope => discard (Threading.addBody scope)
  | .addStatement statement => discard (Threading.addStatement statement)
  | .append body new => Threading.append body new
  | .prepend body new => Threading.prepend body new
  | .insertAfter anchor new => Threading.insertAfter anchor new
  | .insertBefore anchor new => Threading.insertBefore anchor new
  | .placeSynthesized body new => Threading.placeSynthesized body new

end Request

theorem mapM_of_forall₂ {ε α β : Type} {answer : α → Except ε β} {elements : List α}
    {values : List β}
    (answers : List.Forall₂ (fun element value => answer element = .ok value) elements values) :
    elements.mapM answer = .ok values := by
  induction answers with
  | nil => rfl
  | cons answered _ induction =>
      rw [List.mapM_cons, answered, Except.ok_bind, induction]
      rfl

namespace Threads

variable {threads : Threads} {layout : Layout} {body : BodyRef} {content : Body}
  {ref new : StatementRef} {front back : List StatementRef}

theorem Spells.addBody (spells : threads.Spells layout) (scope : ScopeRef) :
    threads.Agrees (.ok (layout.addBody scope).2)
      ((Request.addBody scope).onThreads threads) := by
  have same : threads.bodies.next = layout.bodies.next := congrArg Ref.mk spells.bodies_size
  refine .linked ⟨fun ref => ?_, fun body => ?_⟩
  · rw [Layout.cell_addBody]
    exact spells.cells ref
  · simp only [Layout.addBody, Arena.get?_push, same, spells.bodies]
    split <;> rfl

theorem Spells.addStatement (spells : threads.Spells layout) (statement : Statement) :
    threads.Agrees (.ok (layout.addStatement statement).2)
      ((Request.addStatement statement).onThreads threads) := by
  have same : threads.cells.next = layout.statements.next := congrArg Ref.mk spells.cells_size
  refine .linked ⟨fun ref => ?_, spells.bodies⟩
  simp only [Layout.addStatement, Arena.get?_push, same, spells.cells]
  split <;> rfl

theorem Spells.onThreads (spells : threads.Spells layout) (orderly : layout.Orderly)
    (request : Request) :
    threads.Agrees (request.onLayout layout) (request.onThreads threads) := by
  cases request with
  | addBody scope => exact spells.addBody scope
  | addStatement statement => exact spells.addStatement statement
  | append body new => exact spells.append orderly
  | prepend body new => exact spells.prepend orderly
  | insertAfter anchor new => exact spells.insertAfter orderly
  | insertBefore anchor new => exact spells.insertBefore orderly
  | placeSynthesized body new => exact spells.placeSynthesized orderly

/-! ## Reading the links back -/

section

variable (spells : threads.Spells layout) (orderly : layout.Orderly)
include spells orderly

theorem Spells.read (stored : layout.bodies.get? body = some content) (steps : Nat)
    (split : content.order = front ++ back) :
    threads.read steps back.head? = .ok (back.take steps, (back.drop steps).head?) := by
  induction steps generalizing front back with
  | zero => rfl
  | succ steps induction =>
      cases back with
      | nil => rfl
      | cons ref back =>
          obtain ⟨cell, found, -, -, next⟩ := spells.get?_of_split orderly stored split
          have later : content.order = (front ++ [ref]) ++ back := by simp [split]
          have follows : threads.next ref = .ok back.head? := next ▸ next_of_get? found
          simp [Threads.read, advance, follows, induction later, bind, Except.bind, pure,
            Except.pure]

theorem Spells.readBody (stored : layout.bodies.get? body = some content) (steps : Nat) :
    threads.readBody steps body =
      .ok (content.order.take steps, (content.order.drop steps).head?) := by
  rw [Threads.readBody, spells.get_body stored, Except.ok_bind]
  exact spells.read orderly stored steps (List.nil_append _).symm

theorem Spells.order (stored : layout.bodies.get? body = some content) :
    threads.order body = .ok content.order := by
  have fits := spells.cells_size ▸ orderly.length_order_le stored
  rw [Threads.order, spells.readBody orderly stored, Except.ok_bind, List.take_of_length_le fits]
  rfl

theorem Spells.layout_eq : threads.layout = .ok layout := by
  have content : ∀ body content, layout.bodies.get? body = some content →
      threads.content body = .ok content := fun body content stored => by
    rw [Threads.content, spells.get_body stored, Except.ok_bind, spells.order orderly stored]
    rfl
  have bodies : threads.bodies.refs.mapM threads.content = .ok layout.bodies.toList := by
    refine mapM_of_forall₂ (List.forall₂_iff_get.mpr ⟨?_, fun index _ inside => ?_⟩)
    · simp [Arena.refs, spells.bodies_size]
    · refine content _ _ ?_
      simp only [Arena.refs, List.get_eq_getElem, List.getElem_map, List.getElem_range]
      rw [← Arena.getElem?_toList, List.getElem?_eq_getElem inside]
  have statements : threads.cells.entries.map (fun cell =>
      ({ statement := cell.statement, body := cell.body } : Placed)) =
        layout.statements.entries := by
    refine Array.ext_getElem? fun index => ?_
    have cell := spells.cells ⟨index⟩
    simp only [Arena.get?] at cell
    rw [Array.getElem?_map, cell, Option.map_map]
    exact Option.map_id'
  rw [Threads.layout, bodies, Except.ok_bind, statements]
  rfl

end

/-- The lists of the arrangement are disjoint and without duplicates, and the links show
them: reading a body finds its list and then ends, and each statement knows its successor
and the body whose list has it. -/
structure Shows (threads : Threads) (arrangement : Arrangement) : Prop where
  disjoint : arrangement.bodies.Pairwise fun first second => first.order.Disjoint second.order
  unique : ∀ content ∈ arrangement.bodies, content.order.Nodup
  statements : ∀ ref : StatementRef,
    (threads.cells.get? ref).map Cell.statement = arrangement.statements[ref.index]?
  scopes : ∀ body : BodyRef,
    (threads.bodies.get? body).map Thread.scope = (arrangement.bodies[body.index]?).map Body.scope
  reads : ∀ (body : BodyRef) content, arrangement.bodies[body.index]? = some content →
    ∀ steps, threads.readBody steps body =
      .ok (content.order.take steps, (content.order.drop steps).head?)
  orders : ∀ (body : BodyRef) content, arrangement.bodies[body.index]? = some content →
    threads.order body = .ok content.order
  linked : ∀ (body : BodyRef) content front ref back,
    arrangement.bodies[body.index]? = some content → content.order = front ++ ref :: back →
      threads.bodyOf ref = .ok (some body) ∧ threads.next ref = .ok back.head?
  unlinked : ∀ ref : StatementRef, ref.index < arrangement.statements.length →
    ¬arrangement.Listed ref → threads.bodyOf ref = .ok none ∧ threads.next ref = .ok none

/-- The links spell out an orderly layout that has these lists. -/
def Follows (threads : Threads) (arrangement : Arrangement) : Prop :=
  ∃ layout, threads.Spells layout ∧ layout.Orderly ∧ layout.arrangement = arrangement

def step (threads : Threads) (request : Request) : Threads :=
  match request.onThreads threads with
  | .ok _ after | .error _ after => after

variable {threads : Threads} {arrangement : Arrangement}

theorem Follows.onThreads (follows : threads.Follows arrangement) {request : Request}
    (inRange : request.InRange arrangement) :
    request.Refused arrangement ∧ (∃ fault, request.onThreads threads = .error fault threads) ∨
      ¬request.Refused arrangement ∧ ∃ after, request.onThreads threads = .ok () after ∧
        after.Follows (request.act arrangement) := by
  obtain ⟨layout, spells, orderly, rfl⟩ := follows
  have agrees := spells.onThreads orderly request
  generalize request.onThreads threads = outcome at agrees
  rcases orderly.onLayout inRange with
    ⟨refused, fault, ended⟩ | ⟨accepted, linked, ended, still, acted⟩
  · rw [ended] at agrees
    cases agrees
    exact .inl ⟨refused, fault, rfl⟩
  · rw [ended] at agrees
    cases agrees with
    | linked spells => exact .inr ⟨accepted, _, rfl, linked, spells, still, acted⟩

theorem Follows.step (follows : threads.Follows arrangement) {request : Request}
    (inRange : request.InRange arrangement) :
    (threads.step request).Follows (arrangement.step request) := by
  rcases follows.onThreads inRange with ⟨refused, fault, ended⟩ | ⟨accepted, after, ended, next⟩
  · simpa only [Threads.step, Arrangement.step, ended, if_pos refused] using follows
  · simpa only [Threads.step, Arrangement.step, ended, if_neg accepted] using next

theorem Follows.run (follows : threads.Follows arrangement) {requests : List Request}
    (inRange : arrangement.AllInRange requests) :
    (requests.foldl Threads.step threads).Follows
      (requests.foldl Arrangement.step arrangement) := by
  induction requests generalizing threads arrangement with
  | nil => exact follows
  | cons request rest induction => exact induction (follows.step inRange.1) inRange.2

theorem Follows.shows (follows : threads.Follows arrangement) : threads.Shows arrangement := by
  obtain ⟨layout, spells, orderly, rfl⟩ := follows
  have stored : ∀ {body : BodyRef} {content : Body},
      layout.arrangement.bodies[body.index]? = some content →
        layout.bodies.get? body = some content := fun found => by
    rwa [Layout.arrangement, Arena.getElem?_toList] at found
  refine ⟨orderly.disjoint, ?_, ?_, ?_, ?_, ?_, ?_, ?_⟩
  · intro content member
    obtain ⟨index, found⟩ := List.mem_iff_getElem?.mp member
    exact orderly.unique ⟨index⟩ content (@stored ⟨index⟩ content found)
  · intro ref
    rw [spells.cells, Layout.arrangement, List.getElem?_map, Arena.getElem?_toList, Option.map_map]
    rfl
  · intro body
    rw [spells.bodies, Layout.arrangement, Arena.getElem?_toList, Option.map_map]
    rfl
  · intro body content found
    exact spells.readBody orderly (stored found)
  · intro body content found
    exact spells.order orderly (stored found)
  · intro body content front ref back found split
    obtain ⟨cell, foundCell, holder, -, next⟩ := spells.get?_of_split orderly (stored found) split
    exact ⟨holder ▸ bodyOf_of_get? foundCell, next ▸ next_of_get? foundCell⟩
  · intro ref inside alone
    have free := (orderly.not_listed_iff (by simpa [Layout.arrangement] using inside)).mp alone
    obtain ⟨statement, foundCell⟩ := spells.get?_of_free free
    exact ⟨bodyOf_of_get? foundCell, next_of_get? foundCell⟩

theorem follows_empty : Threads.Follows {} {} :=
  ⟨{}, ⟨fun _ => rfl, fun _ => rfl⟩, Layout.orderly_empty, rfl⟩

/-- Links refine lists. After any requests the links show what the requests make of the lists.
A request is then refused just if the lists say so, with nothing changed, and otherwise acts on
the links as it does on the lists, all but one of which it leaves alone. -/
theorem shows_after (requests : List Request) (inRange : Arrangement.AllInRange {} requests) :
    (requests.foldl step {}).Shows (requests.foldl Arrangement.step {}) ∧
      ∀ request : Request, request.InRange (requests.foldl Arrangement.step {}) →
        request.Refused (requests.foldl Arrangement.step {}) ∧
          (∃ fault, request.onThreads (requests.foldl step {}) =
            .error fault (requests.foldl step {})) ∨
        ¬request.Refused (requests.foldl Arrangement.step {}) ∧
          (∃ after, request.onThreads (requests.foldl step {}) = .ok () after ∧
            after.Shows (request.act (requests.foldl Arrangement.step {}))) ∧
          ∀ index ≠ request.target (requests.foldl Arrangement.step {}),
            (request.act (requests.foldl Arrangement.step {})).bodies[index]? =
              (requests.foldl Arrangement.step {}).bodies[index]? := by
  have follows := follows_empty.run inRange
  refine ⟨follows.shows, fun request known => ?_⟩
  rcases follows.onThreads known with refused | ⟨accepted, after, ran, next⟩
  · exact .inl refused
  · exact .inr ⟨accepted, ⟨after, ran, next.shows⟩, fun _ => request.act_elsewhere _⟩

/-- Synthesized declarations keep their creation order, ahead of what was appended before them,
and one that has its place is not linked again. -/
theorem shows_after_placing :
    let requests : List Request :=
      [.addBody ⟨0⟩, .addStatement { kind := .expression ⟨0⟩ }, .append ⟨0⟩ ⟨0⟩,
        .addStatement (.synthesizedType ⟨0⟩), .placeSynthesized ⟨0⟩ ⟨1⟩,
        .addStatement (.synthesizedType ⟨1⟩), .placeSynthesized ⟨0⟩ ⟨2⟩]
    Arrangement.AllInRange {} requests ∧
      (requests.foldl step {}).order ⟨0⟩ = .ok [⟨1⟩, ⟨2⟩, ⟨0⟩] ∧
      ∃ fault, (Request.append ⟨0⟩ ⟨1⟩).onThreads (requests.foldl step {}) =
        .error fault (requests.foldl step {}) := by
  intro requests
  have inRange : Arrangement.AllInRange {} requests := by decide
  have refined := shows_after requests inRange
  refine ⟨inRange, refined.1.orders ⟨0⟩ _ rfl, ?_⟩
  rcases refined.2 (.append ⟨0⟩ ⟨1⟩) (by decide) with ⟨-, refused⟩ | ⟨accepted, -⟩
  · exact refused
  · exact absurd (by decide) accepted

end Threads

end StructuralTypes
