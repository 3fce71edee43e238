import StructuralTypes.Proofs.Arrangement

/-! Blocks as a forest. A block is linked into a body that is older than its own, no two blocks have
the same body, and what is no block's body is a root. So reading the roots comes to an end and finds
each linked statement once, with the statements of a block right behind it. -/

namespace StructuralTypes

namespace Layout

variable {layout linked before after : Layout} {roots : List BodyRef}

/-! ## Orders stay orderly -/

theorem Outcome.orderly {refused : Prop} {next : Arrangement} {result : Except Fault Layout}
    (outcome : Outcome refused next result) (succeeded : result = .ok linked) :
    linked.Orderly := by
  subst succeeded
  rcases outcome with ⟨-, fault, never⟩ | ⟨-, same, isSame, orderly, -⟩
  · cases never
  · cases isSame
    exact orderly

theorem Puts.lt_size {new : StatementRef} (puts : layout.Puts new linked) :
    new.index < layout.statements.size := by
  obtain ⟨body, placed⟩ := puts.statements
  exact Arena.modify_isOk_iff.mp ⟨_, placed⟩

theorem known_of_link {body : BodyRef} {new : StatementRef}
    {place : List StatementRef → List StatementRef}
    (placed : layout.link body new place = .ok linked) :
    body.index < layout.bodies.size ∧ new.index < layout.statements.size := by
  obtain ⟨free, ordered, -⟩ := link_eq_ok_iff.mp placed
  obtain ⟨statement, known⟩ := bodyOf_eq_ok_iff.mp free
  exact ⟨Arena.modify_isOk_iff.mp ⟨_, ordered⟩, Arena.lt_size_of_get? known⟩

theorem Orderly.of_append (orderly : layout.Orderly) {body : BodyRef} {new : StatementRef}
    (placed : layout.append body new = .ok linked) : linked.Orderly := by
  obtain ⟨inside, known⟩ := known_of_link placed
  exact (orderly.append inside known).orderly placed

theorem Orderly.of_prepend (orderly : layout.Orderly) {body : BodyRef} {new : StatementRef}
    (placed : layout.prepend body new = .ok linked) : linked.Orderly := by
  obtain ⟨inside, known⟩ := known_of_link placed
  exact (orderly.prepend inside known).orderly placed

theorem anchor_lt_size {anchor new : StatementRef} {place : List StatementRef → List StatementRef}
    (placed : (do layout.link (← layout.anchorBody anchor) new place) = .ok linked) :
    anchor.index < layout.statements.size := by
  obtain ⟨body, held, -⟩ := Except.bind_eq_ok_iff.mp placed
  obtain ⟨statement, known⟩ := bodyOf_eq_ok_iff.mp (anchorBody_eq_ok_iff.mp held)
  exact Arena.lt_size_of_get? known

theorem Orderly.of_placeSynthesized (orderly : layout.Orderly) {body : BodyRef} {new : StatementRef}
    (placed : layout.placeSynthesized body new = .ok linked) : linked.Orderly := by
  have known := (puts_of_placeSynthesized placed).lt_size
  have inside : body.index < layout.bodies.size := by
    obtain ⟨-, -, -, -, ⟨content, -, stored, -⟩ | ⟨content, stored, -⟩⟩ :=
      placeSynthesized_eq_ok placed
    all_goals exact Arena.lt_size_of_get? stored
  exact (orderly.placeSynthesized inside known).orderly placed

theorem Orderly.of_position (orderly : layout.Orderly) {position : Position} {new : StatementRef}
    (placed : position.link new layout = .ok linked) : linked.Orderly := by
  have known := (puts_of_position placed).lt_size
  cases position with
  | after anchor => exact (orderly.insertAfter (anchor_lt_size placed) known).orderly placed
  | before anchor => exact (orderly.insertBefore (anchor_lt_size placed) known).orderly placed
  | shared => exact orderly.of_placeSynthesized placed

theorem Orderly.of_request (orderly : layout.Orderly) {request : Request}
    (granted : request.onLayout layout = .ok linked) : linked.Orderly := by
  cases request with
  | addBody scope =>
      cases granted
      exact orderly.addBody scope
  | addStatement statement =>
      cases granted
      exact orderly.addStatement statement
  | append body new => exact orderly.of_append granted
  | prepend body new => exact orderly.of_prepend granted
  | insertAfter anchor new =>
      exact orderly.of_position (show (Position.after anchor).link new layout = _ from granted)
  | insertBefore anchor new =>
      exact orderly.of_position (show (Position.before anchor).link new layout = _ from granted)
  | placeSynthesized body new => exact orderly.of_placeSynthesized granted

/-- Requests make the layout of an empty one. -/
def Made (layout : Layout) : Prop :=
  ∃ requests : List Request, requests.foldlM Request.onLayout {} = .ok layout

theorem Made.orderly (made : layout.Made) : layout.Orderly := by
  obtain ⟨requests, ran⟩ := made
  suffices ∀ start : Layout, start.Orderly → requests.foldlM Request.onLayout start = .ok layout →
      layout.Orderly from this {} orderly_empty ran
  clear ran
  induction requests with
  | nil =>
      intro start orderly ran
      exact Except.ok.inj ran ▸ orderly
  | cons request rest induction =>
      intro start orderly ran
      rw [List.foldlM_cons, Except.bind_eq_ok_iff] at ran
      obtain ⟨next, granted, ran⟩ := ran
      exact induction next (orderly.of_request granted) ran

/-! ## Forests -/

def Opens (layout : Layout) (ref : StatementRef) (inner : BodyRef) : Prop :=
  ∃ placed, layout.statements.get? ref = some placed ∧ placed.statement.kind = .block inner

/-- Every body is a root or that of one block, which is linked into an older body. -/
structure Forest (layout : Layout) (roots : List BodyRef) : Prop where
  orderly : layout.Orderly
  descends : ∀ ref inner, layout.Opens ref inner → ∃ outer, layout.Lists outer ref ∧
    outer.index < inner.index ∧ inner.index < layout.bodies.size
  sole : ∀ first second inner, layout.Opens first inner → layout.Opens second inner →
    first = second
  owned : ∀ body, body.index < layout.bodies.size → body ∈ roots ∨ ∃ ref, layout.Opens ref body
  rooted : ∀ root ∈ roots, root.index < layout.bodies.size ∧ ∀ ref, ¬layout.Opens ref root
  distinct : roots.Nodup

theorem Forest.insert (forest : before.Forest roots) {statement : Statement} {body : BodyRef}
    (plain : ∀ inner, statement.kind ≠ .block inner)
    (pushed : after.statements = before.statements.push { statement, body := some body })
    (size : after.bodies.size = before.bodies.size) (grows : before.Grows after)
    (orderly : after.Orderly) : after.Forest roots := by
  have opens : ∀ ref inner, after.Opens ref inner ↔ before.Opens ref inner := by
    intro ref inner
    constructor
    · rintro ⟨placed, stored, block⟩
      rw [pushed] at stored
      rcases Arena.eq_next_or_get?_of_push stored with ⟨-, rfl⟩ | old
      · exact (plain inner block).elim
      · exact ⟨placed, old, block⟩
    · rintro ⟨placed, stored, block⟩
      exact ⟨placed, pushed ▸ Arena.get?_push_of_get? _ stored, block⟩
  refine
    { orderly, distinct := forest.distinct, descends := ?_, sole := ?_, owned := ?_, rooted := ?_ }
  · intro ref inner opened
    obtain ⟨outer, ⟨content, stored, member⟩, older, inside⟩ :=
      forest.descends ref inner ((opens ref inner).mp opened)
    obtain ⟨later, found, -, kept⟩ := grows.bodies outer content stored
    exact ⟨outer, ⟨later, found, kept ref member⟩, older, size ▸ inside⟩
  · intro first second inner opensFirst opensSecond
    exact forest.sole first second inner ((opens _ _).mp opensFirst) ((opens _ _).mp opensSecond)
  · intro body inside
    exact (forest.owned body (size ▸ inside)).imp_right
      fun ⟨ref, opened⟩ => ⟨ref, (opens _ _).mpr opened⟩
  · intro root isRoot
    obtain ⟨inside, closed⟩ := forest.rooted root isRoot
    exact ⟨size ▸ inside, fun ref opened => closed ref ((opens _ _).mp opened)⟩

theorem Forest.appended (forest : before.Forest roots) {statement : Statement} {body : BodyRef}
    (plain : ∀ inner, statement.kind ≠ .block inner)
    (placed : (before.addStatement statement).2.append body before.statements.next = .ok after) :
    after.Forest roots := by
  have appended := appended_of_append placed
  exact forest.insert plain appended.pushed (Arena.size_of_modify appended.order) appended.grows
    ((forest.orderly.addStatement statement).of_append placed)

theorem Forest.position (forest : before.Forest roots) {statement : Statement} {position : Position}
    (plain : ∀ inner, statement.kind ≠ .block inner)
    (placed : position.link before.statements.next (before.addStatement statement).2 = .ok after) :
    after.Forest roots := by
  have puts := puts_of_position placed
  obtain ⟨body, held⟩ := puts.statements
  have pushed := (Arena.modify_push_next _ _ _).symm.trans held
  exact forest.insert plain (Except.ok.inj pushed).symm puts.size
    ((before.grows_addStatement statement).trans (Program.grows_position placed))
    ((forest.orderly.addStatement statement).of_position placed)

theorem Forest.inner_ne_next (forest : layout.Forest roots) {ref : StatementRef} {inner : BodyRef}
    (opened : layout.Opens ref inner) : inner ≠ layout.bodies.next := by
  rintro rfl
  obtain ⟨outer, -, -, inside⟩ := forest.descends ref _ opened
  exact Nat.lt_irrefl _ inside

theorem Forest.addRoot (forest : layout.Forest roots) (scope : ScopeRef) :
    (layout.addBody scope).2.Forest (roots ++ [layout.bodies.next]) where
  orderly := forest.orderly.addBody scope
  descends ref inner opened := by
    obtain ⟨outer, lists, older, inside⟩ := forest.descends ref inner opened
    exact ⟨outer, lists_addBody.mpr lists, older, Nat.lt_trans inside (by simp [addBody])⟩
  sole := forest.sole
  owned body inside := by
    rw [addBody, Arena.size_push, Nat.lt_succ_iff_lt_or_eq] at inside
    rcases inside with inside | isNew
    · exact (forest.owned body inside).imp_left (List.mem_append_left _)
    · exact .inl (List.mem_append_right _ (List.mem_singleton.mpr (Ref.eq_iff_index_eq.mpr isNew)))
  rooted root isRoot := by
    rcases List.mem_append.mp isRoot with isOld | isNew
    · obtain ⟨inside, closed⟩ := forest.rooted root isOld
      exact ⟨Nat.lt_trans inside (by simp [addBody]), closed⟩
    · rw [List.mem_singleton] at isNew
      subst isNew
      exact ⟨by simp [addBody, Arena.next], fun ref opened => forest.inner_ne_next opened rfl⟩
  distinct := by
    rw [List.nodup_append]
    refine ⟨forest.distinct, List.nodup_singleton _, ?_⟩
    intro root isRoot other isNew same
    rw [List.mem_singleton] at isNew
    subst isNew same
    exact Nat.lt_irrefl _ (forest.rooted _ isRoot).1

theorem opens_addBlock {scope : ScopeRef} {body : BodyRef}
    (appended : (before.addBody scope).2.Appended after body { kind := .block before.bodies.next })
    (ref : StatementRef) (inner : BodyRef) :
    after.Opens ref inner ↔ before.Opens ref inner ∨
      ref = before.statements.next ∧ inner = before.bodies.next := by
  have pushed : after.statements = before.statements.push
    { statement := { kind := .block before.bodies.next }, body := some body } := appended.pushed
  constructor
  · rintro ⟨placed, stored, block⟩
    rw [pushed] at stored
    rcases Arena.eq_next_or_get?_of_push stored with ⟨isNew, rfl⟩ | old
    · exact .inr ⟨isNew, (StatementKind.block.inj block).symm⟩
    · exact .inl ⟨placed, old, block⟩
  · rintro (⟨placed, stored, block⟩ | ⟨rfl, rfl⟩)
    · exact ⟨placed, pushed ▸ Arena.get?_push_of_get? _ stored, block⟩
    · exact ⟨_, pushed ▸ Arena.get?_push_next .., rfl⟩

theorem Forest.addBlock (forest : before.Forest roots) {scope : ScopeRef} {body : BodyRef}
    (known : body.index < before.bodies.size)
    (placed : ((before.addBody scope).2.addStatement { kind := .block before.bodies.next }).2.append
      body before.statements.next = .ok after) : after.Forest roots := by
  have appended :
      (before.addBody scope).2.Appended after body { kind := .block before.bodies.next } :=
    appended_of_append placed
  have size : after.bodies.size = before.bodies.size + 1 :=
    (Arena.size_of_modify appended.order).trans (Arena.size_push ..)
  have grows := (before.grows_addBody scope).trans appended.grows
  have opens := opens_addBlock appended
  refine
    { orderly := ((forest.orderly.addBody scope).addStatement _).of_append placed
      distinct := forest.distinct, descends := ?_, sole := ?_, owned := ?_, rooted := ?_ }
  · intro ref inner opened
    rcases (opens ref inner).mp opened with old | ⟨rfl, rfl⟩
    · obtain ⟨outer, ⟨content, stored, member⟩, older, inside⟩ := forest.descends ref inner old
      obtain ⟨later, found, -, kept⟩ := grows.bodies outer content stored
      exact ⟨outer, ⟨later, found, kept ref member⟩, older, by omega⟩
    · obtain ⟨placed, content, -, -, stored, member⟩ := appended.linked
      exact ⟨body, ⟨content, stored, member⟩, known, size ▸ Nat.lt_succ_self _⟩
  · intro first second inner opensFirst opensSecond
    rcases (opens first inner).mp opensFirst with oldFirst | ⟨rfl, isNew⟩
    · rcases (opens second inner).mp opensSecond with oldSecond | ⟨-, isNew⟩
      · exact forest.sole first second inner oldFirst oldSecond
      · exact (forest.inner_ne_next oldFirst isNew).elim
    · rcases (opens second inner).mp opensSecond with oldSecond | ⟨rfl, -⟩
      · exact (forest.inner_ne_next oldSecond isNew).elim
      · rfl
  · intro other inside
    rw [size, Nat.lt_succ_iff_lt_or_eq] at inside
    rcases inside with inside | isNew
    · exact (forest.owned other inside).imp_right
        fun ⟨ref, opened⟩ => ⟨ref, (opens _ _).mpr (.inl opened)⟩
    · exact .inr ⟨_, (opens _ _).mpr (.inr ⟨rfl, Ref.eq_iff_index_eq.mpr isNew⟩)⟩
  · intro root isRoot
    obtain ⟨inside, closed⟩ := forest.rooted root isRoot
    refine ⟨by omega, fun ref opened => ?_⟩
    rcases (opens ref root).mp opened with old | ⟨-, rfl⟩
    · exact closed ref old
    · exact Nat.lt_irrefl _ inside

/-! ## Reading comes to an end -/

theorem preorderWithin_mono {depth more : Nat} (deeper : depth ≤ more) {body : BodyRef}
    {read : List StatementRef} (listed : layout.preorderWithin depth body = .ok read) :
    layout.preorderWithin more body = .ok read := by
  induction depth generalizing more body read with
  | zero => simp [preorderWithin, Except.throw_eq_ok_iff] at listed
  | succ depth induction =>
      obtain ⟨more, rfl⟩ : ∃ less, more = less + 1 := ⟨more - 1, by omega⟩
      simp only [preorderWithin, Except.bind_eq_ok_iff, Except.pure_eq_ok_iff] at listed ⊢
      obtain ⟨order, ordered, segments, mapped, rfl⟩ := listed
      refine ⟨order, ordered, segments, ?_, rfl⟩
      clear ordered
      induction order generalizing segments with
      | nil => exact mapped
      | cons head tail each =>
          simp only [List.mapM_cons, Except.bind_eq_ok_iff, Except.pure_eq_ok_iff] at mapped ⊢
          obtain ⟨first, headListed, rest, tailListed, rfl⟩ := mapped
          refine ⟨first, ?_, rest, each rest tailListed, rfl⟩
          simp only [withInner, Except.bind_eq_ok_iff] at headListed ⊢
          obtain ⟨statement, found, headListed⟩ := headListed
          refine ⟨statement, found, ?_⟩
          split at headListed
          · simp only [Except.bind_eq_ok_iff, Except.pure_eq_ok_iff] at headListed ⊢
            obtain ⟨inner, innerListed, rfl⟩ := headListed
            exact ⟨inner, induction (by omega) innerListed, rfl⟩
          · exact headListed

def Nests (layout : Layout) (inner outer : BodyRef) : Prop :=
  ∃ ref, layout.Lists outer ref ∧ layout.Opens ref inner

/-- A body can be read within a depth that is enough for it, where one level less is enough for the
bodies of its blocks. -/
theorem Orderly.exists_preorderWithin_of_enough (orderly : layout.Orderly)
    {enough : Nat → BodyRef → Prop}
    (inside : ∀ depth body, enough depth body → 0 < depth ∧ body.index < layout.bodies.size)
    (inward : ∀ depth outer inner, enough (depth + 1) outer → layout.Nests inner outer →
      enough depth inner)
    {depth : Nat} {body : BodyRef} (here : enough depth body) :
    ∃ read, layout.preorderWithin depth body = .ok read := by
  induction depth generalizing body with
  | zero => exact absurd (inside 0 body here).1 (Nat.lt_irrefl 0)
  | succ depth induction =>
      obtain ⟨content, stored⟩ := Arena.exists_get?_of_lt_size (inside _ body here).2
      have each : ∀ ref ∈ content.order, ∃ segment,
          layout.withInner (layout.preorderWithin depth) ref = .ok segment ∧ True := by
        intro ref member
        have lists : layout.Lists body ref := ⟨content, stored, member⟩
        obtain ⟨statement, found⟩ := bodyOf_eq_ok_iff.mp ((orderly.held ref body).mpr lists)
        simp only [withInner, statement_eq_ok_iff.mpr ⟨_, found⟩, bind, Except.bind]
        split
        · rename_i inner block
          obtain ⟨rest, restListed⟩ :=
            induction (inward depth body inner here ⟨ref, lists, _, found, block⟩)
          exact ⟨ref :: rest, by rw [restListed]; rfl, trivial⟩
        · exact ⟨_, rfl, trivial⟩
      obtain ⟨segments, mapped, -⟩ := exists_mapM_eq_ok each
      refine ⟨segments.flatten, ?_⟩
      simp only [preorderWithin, Except.bind_eq_ok_iff, Except.pure_eq_ok_iff, order_eq_ok_iff]
      exact ⟨_, ⟨content, stored, rfl⟩, segments, mapped, rfl⟩

theorem exists_preorder_of_roots
    (each : ∀ root ∈ roots, ∃ read, layout.preorderWithin layout.blockDepth root = .ok read) :
    ∃ read, layout.preorder roots = .ok read := by
  obtain ⟨segments, mapped, -⟩ := exists_mapM_eq_ok fun root isRoot =>
    (each root isRoot).imp fun _ listed => ⟨listed, trivial⟩
  exact ⟨segments.flatten, by simp [preorder, mapped, bind, Except.bind, pure, Except.pure]⟩

section

variable {rank : BodyRef → Nat} (orderly : layout.Orderly)
  (narrows : ∀ inner outer, layout.Nests inner outer →
    inner.index < layout.bodies.size ∧ rank inner < rank outer)
include orderly narrows

theorem Orderly.exists_preorderWithin {depth : Nat} {body : BodyRef}
    (inside : body.index < layout.bodies.size) (deep : rank body < depth) :
    ∃ read, layout.preorderWithin depth body = .ok read := by
  refine orderly.exists_preorderWithin_of_enough
    (fun depth body (here : rank body < depth ∧ body.index < layout.bodies.size) =>
      ⟨Nat.zero_lt_of_lt here.1, here.2⟩) ?_ ⟨deep, inside⟩
  intro depth outer inner here nests
  obtain ⟨innerInside, lower⟩ := narrows inner outer nests
  exact ⟨Nat.lt_of_lt_of_le lower (Nat.le_of_lt_succ here.1), innerInside⟩

theorem Orderly.exists_preorder (bounded : ∀ body, rank body ≤ layout.bodies.size)
    (inside : ∀ root ∈ roots, root.index < layout.bodies.size) :
    ∃ read, layout.preorder roots = .ok read :=
  exists_preorder_of_roots fun root isRoot =>
    orderly.exists_preorderWithin narrows (inside root isRoot) (Nat.lt_succ_of_le (bounded root))

end

def Under (layout : Layout) (roots : List BodyRef) (ref : StatementRef) : Prop :=
  ∃ body, layout.Reachable roots body ∧ layout.Lists body ref

theorem mem_preorder_iff_under {read : List StatementRef}
    (listed : layout.preorder roots = .ok read) {ref : StatementRef} :
    ref ∈ read ↔ layout.Under roots ref := by
  constructor
  · intro member
    obtain ⟨-, body, content, reached, stored, inOrder⟩ := reachable_of_mem_preorder listed member
    exact ⟨body, reached, content, stored, inOrder⟩
  · rintro ⟨body, reached, content, stored, inOrder⟩
    exact mem_preorder_of_reachable listed reached stored inOrder

namespace Forest

variable (forest : layout.Forest roots)
include forest

theorem nests_older {inner outer : BodyRef} (nests : layout.Nests inner outer) :
    outer.index < inner.index ∧ inner.index < layout.bodies.size := by
  obtain ⟨ref, lists, opened⟩ := nests
  obtain ⟨holder, held, older⟩ := forest.descends ref inner opened
  cases forest.orderly.lists_unique held lists
  exact older

theorem unfolded : WellFounded layout.Nests := by
  refine Subrelation.wf ?_ (measure fun body => layout.bodies.size - body.index).wf
  intro inner outer nests
  obtain ⟨older, inside⟩ := forest.nests_older nests
  exact Nat.sub_lt_sub_left (Nat.lt_trans older inside) older

/-- Bodies get younger on the way down, so their number bounds the depth. -/
theorem exists_preorder : ∃ read, layout.preorder roots = .ok read := by
  have narrows : ∀ inner outer, layout.Nests inner outer → inner.index < layout.bodies.size ∧
      layout.bodies.size - inner.index < layout.bodies.size - outer.index := by
    intro inner outer nests
    have older := forest.nests_older nests
    omega
  exact forest.orderly.exists_preorder narrows (fun _ => Nat.sub_le ..)
    fun root isRoot => (forest.rooted root isRoot).1

/-! ## Every linked statement is read -/

theorem reachable {body : BodyRef} (inside : body.index < layout.bodies.size) :
    layout.Reachable roots body := by
  induction h : body.index using Nat.strongRecOn generalizing body with
  | _ index induction =>
      subst h
      rcases forest.owned body inside with isRoot | ⟨ref, opened⟩
      · exact .root isRoot
      · obtain ⟨outer, ⟨content, stored, member⟩, older, -⟩ := forest.descends ref body opened
        obtain ⟨placed, found, block⟩ := opened
        exact .inner (induction outer.index older (by omega) rfl) stored member found block

theorem mem_preorder_iff {read : List StatementRef} (listed : layout.preorder roots = .ok read)
    {ref : StatementRef} :
    ref ∈ read ↔ ∃ body, layout.bodyOf ref = .ok (some body) := by
  rw [mem_preorder_iff_under listed]
  simp only [forest.orderly.held]
  constructor
  · rintro ⟨body, -, lists⟩
    exact ⟨body, lists⟩
  · rintro ⟨body, content, stored, inOrder⟩
    exact ⟨body, forest.reachable (Arena.lt_size_of_get? stored), content, stored, inOrder⟩

/-! ## No statement is read twice -/

theorem index_le_of_reachable {outer inner : BodyRef} (reached : layout.Reachable [outer] inner) :
    outer.index ≤ inner.index := by
  induction reached with
  | root member => exact Nat.le_of_eq (congrArg Ref.index (List.mem_singleton.mp member)).symm
  | @inner middle inner content ref placed _ stored member found block induction =>
      obtain ⟨holder, lists, older, -⟩ := forest.descends ref inner ⟨placed, found, block⟩
      cases forest.orderly.lists_unique lists ⟨content, stored, member⟩
      omega

theorem reachable_total {first second inner : BodyRef}
    (reachedFirst : layout.Reachable [first] inner)
    (reachedSecond : layout.Reachable [second] inner) :
    layout.Reachable [first] second ∨ layout.Reachable [second] first := by
  induction reachedFirst with
  | root member => exact .inr (List.mem_singleton.mp member ▸ reachedSecond)
  | @inner outer inner content ref placed reached stored member found block induction =>
      cases reachedSecond with
      | root isSecond =>
          rw [List.mem_singleton] at isSecond
          exact .inl (isSecond ▸ .inner reached stored member found block)
      | @inner other _ otherContent otherRef otherPlaced otherReached otherStored otherMember
          otherFound otherBlock =>
          cases forest.sole ref otherRef inner ⟨placed, found, block⟩
            ⟨otherPlaced, otherFound, otherBlock⟩
          cases forest.orderly.lists_unique ⟨content, stored, member⟩
            ⟨otherContent, otherStored, otherMember⟩
          exact induction otherReached

theorem disjoint_of_apart {first second : BodyRef} {depth : Nat}
    {readFirst readSecond : List StatementRef}
    (listedFirst : layout.preorderWithin depth first = .ok readFirst)
    (listedSecond : layout.preorderWithin depth second = .ok readSecond)
    (notUnder : ¬layout.Reachable [first] second) (notOver : ¬layout.Reachable [second] first) :
    readFirst.Disjoint readSecond := by
  intro ref inFirst inSecond
  obtain ⟨-, holder, content, reached, stored, member⟩ :=
    reachable_of_mem_preorderWithin listedFirst (.root List.mem_cons_self) inFirst
  obtain ⟨-, other, otherContent, otherReached, otherStored, otherMember⟩ :=
    reachable_of_mem_preorderWithin listedSecond (.root List.mem_cons_self) inSecond
  cases forest.orderly.lists_unique ⟨content, stored, member⟩
    ⟨otherContent, otherStored, otherMember⟩
  exact (forest.reachable_total reached otherReached).elim notUnder notOver

theorem not_reachable_outer {ref : StatementRef} {outer inner : BodyRef}
    (lists : layout.Lists outer ref) (opened : layout.Opens ref inner) :
    ¬layout.Reachable [inner] outer := by
  intro reached
  obtain ⟨holder, held, older, -⟩ := forest.descends ref inner opened
  cases forest.orderly.lists_unique lists held
  have := forest.index_le_of_reachable reached
  omega

theorem not_reachable_beside {first second : StatementRef} {outer innerFirst innerSecond : BodyRef}
    (listsSecond : layout.Lists outer second) (opensFirst : layout.Opens first innerFirst)
    (opensSecond : layout.Opens second innerSecond) (different : first ≠ second)
    (notOver : ¬layout.Reachable [innerFirst] outer) :
    ¬layout.Reachable [innerFirst] innerSecond := by
  intro reached
  cases reached with
  | root member =>
      rw [List.mem_singleton] at member
      exact different (forest.sole first second innerFirst opensFirst (member ▸ opensSecond))
  | @inner middle _ content ref placed above stored member found block =>
      cases forest.sole ref second innerSecond ⟨placed, found, block⟩ opensSecond
      cases forest.orderly.lists_unique listsSecond ⟨content, stored, member⟩
      exact notOver above

theorem not_lists_of_mem_inner {ref other : StatementRef} {outer inner : BodyRef} {depth : Nat}
    {read : List StatementRef} (lists : layout.Lists outer ref) (opened : layout.Opens ref inner)
    (listed : layout.preorderWithin depth inner = .ok read) (member : other ∈ read) :
    ¬layout.Lists outer other := by
  intro listsOther
  obtain ⟨-, holder, content, reached, stored, inOrder⟩ :=
    reachable_of_mem_preorderWithin listed (.root List.mem_cons_self) member
  cases forest.orderly.lists_unique listsOther ⟨content, stored, inOrder⟩
  exact forest.not_reachable_outer lists opened reached

theorem disjoint_segments {body : BodyRef} {depth : Nat} {first second : StatementRef}
    {partFirst partSecond : List StatementRef} (listsFirst : layout.Lists body first)
    (listsSecond : layout.Lists body second) (different : first ≠ second)
    (listedFirst : layout.withInner (layout.preorderWithin depth) first = .ok partFirst)
    (listedSecond : layout.withInner (layout.preorderWithin depth) second = .ok partSecond) :
    partFirst.Disjoint partSecond := by
  rcases eq_cons_of_withInner listedFirst with
    ⟨placedFirst, storedFirst, ⟨innerFirst, restFirst, blockFirst, readFirst, rfl⟩ | ⟨-, rfl⟩⟩
  · have opensFirst : layout.Opens first innerFirst := ⟨placedFirst, storedFirst, blockFirst⟩
    have firstAway : second ∉ restFirst := fun member =>
      forest.not_lists_of_mem_inner listsFirst opensFirst readFirst member listsSecond
    rcases eq_cons_of_withInner listedSecond with
      ⟨placedSecond, storedSecond, ⟨innerSecond, restSecond, blockSecond, readSecond, rfl⟩ |
        ⟨-, rfl⟩⟩
    · have opensSecond : layout.Opens second innerSecond :=
        ⟨placedSecond, storedSecond, blockSecond⟩
      have secondAway : first ∉ restSecond := fun member =>
        forest.not_lists_of_mem_inner listsSecond opensSecond readSecond member listsFirst
      have apart := forest.disjoint_of_apart readFirst readSecond
        (forest.not_reachable_beside listsSecond opensFirst opensSecond different
          (forest.not_reachable_outer listsFirst opensFirst))
        (forest.not_reachable_beside listsFirst opensSecond opensFirst different.symm
          (forest.not_reachable_outer listsSecond opensSecond))
      simp only [List.disjoint_cons_left, List.disjoint_cons_right, List.mem_cons, not_or]
      exact ⟨⟨different.symm, firstAway⟩, secondAway, apart⟩
    · simp only [List.disjoint_singleton, List.mem_cons, not_or]
      exact ⟨different.symm, firstAway⟩
  · rcases eq_cons_of_withInner listedSecond with
      ⟨placedSecond, storedSecond, ⟨innerSecond, restSecond, blockSecond, readSecond, rfl⟩ |
        ⟨-, rfl⟩⟩
    · simp only [List.singleton_disjoint, List.mem_cons, not_or]
      exact ⟨different, fun member => forest.not_lists_of_mem_inner listsSecond
        ⟨placedSecond, storedSecond, blockSecond⟩ readSecond member listsFirst⟩
    · simpa using different.symm

theorem nodup_preorderWithin {depth : Nat} {body : BodyRef} {read : List StatementRef}
    (listed : layout.preorderWithin depth body = .ok read) : read.Nodup := by
  induction depth generalizing body read with
  | zero => simp [preorderWithin, Except.throw_eq_ok_iff] at listed
  | succ depth induction =>
      obtain ⟨less, content, isDepth, stored, rfl, each⟩ := eq_flatMap_segment listed
      cases isDepth
      have lists : ∀ ref ∈ content.order, layout.Lists body ref :=
        fun ref member => ⟨content, stored, member⟩
      rw [List.nodup_flatMap]
      constructor
      · intro ref member
        rcases eq_cons_of_withInner (each ref member) with
          ⟨placed, found, ⟨inner, rest, block, restListed, same⟩ | ⟨-, same⟩⟩
        · rw [same, List.nodup_cons]
          exact ⟨fun inRest => forest.not_lists_of_mem_inner (lists ref member)
            ⟨placed, found, block⟩ restListed inRest (lists ref member), induction restListed⟩
        · exact same ▸ List.nodup_singleton ref
      · refine (forest.orderly.unique body content stored).imp_of_mem ?_
        intro first second inOrder inOrderToo different
        exact forest.disjoint_segments (lists first inOrder) (lists second inOrderToo) different
          (each first inOrder) (each second inOrderToo)

theorem nodup_preorder {read : List StatementRef} (listed : layout.preorder roots = .ok read) :
    read.Nodup := by
  simp only [preorder, Except.bind_eq_ok_iff, Except.pure_eq_ok_iff] at listed
  obtain ⟨segments, mapped, rfl⟩ := listed
  rw [flatten_of_mapM mapped, List.nodup_flatMap]
  have each : ∀ root ∈ roots, ∃ part, layout.preorderWithin layout.blockDepth root = .ok part := by
    intro root isRoot
    obtain ⟨part, -, partListed⟩ := exists_of_mapM_eq_ok mapped isRoot
    exact ⟨part, partListed⟩
  -- Blocks lead to no root.
  have apart : ∀ first ∈ roots, ∀ second ∈ roots, first ≠ second →
      ¬layout.Reachable [first] second := by
    intro first _ second isRoot different reached
    cases reached with
    | root member => exact different (List.mem_singleton.mp member).symm
    | inner _ _ _ found block => exact (forest.rooted second isRoot).2 _ ⟨_, found, block⟩
  constructor
  · intro root isRoot
    obtain ⟨part, partListed⟩ := each root isRoot
    rw [partListed]
    exact forest.nodup_preorderWithin partListed
  · refine forest.distinct.imp_of_mem ?_
    intro first second isRoot isRootToo different
    obtain ⟨partFirst, listedFirst⟩ := each first isRoot
    obtain ⟨partSecond, listedSecond⟩ := each second isRootToo
    simp only [Function.onFun, listedFirst, listedSecond]
    exact forest.disjoint_of_apart listedFirst listedSecond
      (apart first isRoot second isRootToo different)
      (apart second isRootToo first isRoot different.symm)

end Forest

/-! ## Blocks are read in one piece -/

/-- Right behind a block comes what its body reads as. -/
theorem exists_segment_of_block {depth : Nat} {body : BodyRef} {read : List StatementRef}
    (listed : layout.preorderWithin depth body = .ok read) {ref : StatementRef}
    (member : ref ∈ read) {inner : BodyRef} (opened : layout.Opens ref inner) :
    ∃ less front part back, less ≤ depth ∧ layout.preorderWithin less inner = .ok part ∧
      read = front ++ ref :: (part ++ back) := by
  induction depth generalizing body read with
  | zero => simp [preorderWithin, Except.throw_eq_ok_iff] at listed
  | succ depth induction =>
      obtain ⟨less, content, isDepth, stored, rfl, each⟩ := eq_flatMap_segment listed
      cases isDepth
      obtain ⟨holder, inOrder, inSegment⟩ := List.mem_flatMap.mp member
      obtain ⟨front, back, split⟩ := List.append_of_mem inOrder
      simp only [split, List.flatMap_append, List.flatMap_cons]
      obtain ⟨placed, found, block⟩ := opened
      rcases eq_cons_of_withInner (each holder inOrder) with
        ⟨other, otherFound, ⟨outer, rest, otherBlock, restListed, same⟩ | ⟨plain, same⟩⟩
      · rw [same] at inSegment ⊢
        rcases List.mem_cons.mp inSegment with rfl | inRest
        · cases Option.mem_unique found otherFound
          cases StatementKind.block.inj (block.symm.trans otherBlock)
          exact ⟨depth, front.flatMap (layout.segment depth), rest,
            back.flatMap (layout.segment depth), Nat.le_succ depth, restListed, by simp⟩
        · obtain ⟨less, frontInner, part, backInner, shallower, partListed, rfl⟩ :=
            induction restListed inRest
          exact ⟨less, front.flatMap (layout.segment depth) ++ holder :: frontInner, part,
            backInner ++ back.flatMap (layout.segment depth), Nat.le_succ_of_le shallower,
            partListed, by simp⟩
      · rw [same, List.mem_singleton] at inSegment
        subst inSegment
        cases Option.mem_unique found otherFound
        exact (plain inner block).elim

theorem exists_preorder_of_block {read : List StatementRef}
    (listed : layout.preorder roots = .ok read) {ref : StatementRef} (member : ref ∈ read)
    {inner : BodyRef} (opened : layout.Opens ref inner) :
    ∃ front part back, layout.preorder [inner] = .ok part ∧
      read = front ++ ref :: (part ++ back) := by
  simp only [preorder, Except.bind_eq_ok_iff, Except.pure_eq_ok_iff] at listed
  obtain ⟨segments, mapped, rfl⟩ := listed
  obtain ⟨segment, inSegments, inSegment⟩ := List.mem_flatten.mp member
  obtain ⟨root, -, segmentListed⟩ := exists_of_mem_mapM mapped inSegments
  obtain ⟨less, front, part, back, shallower, partListed, rfl⟩ :=
    exists_segment_of_block segmentListed inSegment opened
  obtain ⟨before, after, rfl⟩ := List.append_of_mem inSegments
  refine ⟨before.flatten ++ front, part, back ++ after.flatten, ?_, by simp⟩
  simp [preorder, preorderWithin_mono shallower partListed, bind, Except.bind, pure, Except.pure]

end Layout

end StructuralTypes
