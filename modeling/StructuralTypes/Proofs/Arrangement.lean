import Mathlib.Data.List.Perm.Subperm
import StructuralTypes.Proofs.Ordering

/-! A layout as a family of lists. In an orderly layout every statement is in at most one
list, that of the body it is linked into, and every operation that links a statement
puts it into one gap of one list, unless the statement is listed already or its anchor is not. -/

namespace StructuralTypes

/-! ## Changing a stored entry -/

namespace Arena

variable {entity : Entity} {α : Type} {arena : Arena entity α} {ref target : Ref entity}
  {change : α → α}

def toList (arena : Arena entity α) : List α :=
  arena.entries.toList

def update (arena : Arena entity α) (target : Ref entity) (change : α → α) : Arena entity α :=
  ⟨arena.entries.modify target.index change⟩

theorem modify_of_lt (inside : target.index < arena.size) :
    arena.modify target change = .ok (arena.update target change) := by
  simp only [size] at inside
  simp [modify, update, inside, Array.modify, Array.modifyM]

theorem modify_of_none (missing : arena.get? target = none) :
    arena.modify target change = .error .dangling := by
  rw [get?, Array.getElem?_eq_none_iff] at missing
  simp [modify, Nat.not_lt.mpr missing]

theorem get_of_none (missing : arena.get? target = none) : arena.get target = .error .dangling := by
  simp [get, missing]

theorem modify_congr {entry : α} (stored : arena.get? target = some entry) {other : α → α}
    (same : change entry = other entry) :
    arena.modify target change = arena.modify target other := by
  have inside := lt_size_of_get? stored
  obtain ⟨_, isEntry⟩ := Array.getElem?_eq_some_iff.mp stored
  simp only [size] at inside
  simp [modify, inside, isEntry, same]

@[simp] theorem size_update : (arena.update target change).size = arena.size := by
  simp [size, update]

theorem get?_update :
    (arena.update target change).get? ref =
      if target = ref then (arena.get? ref).map change else arena.get? ref := by
  simp only [get?, update, Array.getElem?_modify, Ref.eq_iff_index_eq]

theorem get?_eq_some_of_update {entry : α}
    (stored : (arena.update target change).get? ref = some entry) :
    ∃ old, arena.get? ref = some old ∧ entry = if target = ref then change old else old := by
  rw [get?_update] at stored
  split at stored
  · rename_i same
    obtain ⟨old, found, rfl⟩ := Option.map_eq_some_iff.mp stored
    exact ⟨old, found, (if_pos same).symm⟩
  · rename_i other
    exact ⟨entry, stored, (if_neg other).symm⟩

@[simp] theorem toList_update :
    (arena.update target change).toList = arena.toList.modify target.index change := by
  simp [toList, update]

@[simp] theorem toList_push (entry : α) : (arena.push entry).toList = arena.toList ++ [entry] := by
  simp [toList, push]

@[simp] theorem length_toList : arena.toList.length = arena.size := rfl

@[simp] theorem getElem?_toList : arena.toList[ref.index]? = arena.get? ref := by
  simp [toList, get?]

end Arena

/-! ## The list model -/

/-- Statements, and the lists that the bodies are. -/
structure Arrangement where
  statements : List Statement := []
  bodies : List Body := []
  deriving DecidableEq, Repr

namespace Arrangement

def Listed (arrangement : Arrangement) (ref : StatementRef) : Prop :=
  ∃ content ∈ arrangement.bodies, ref ∈ content.order

instance (arrangement : Arrangement) (ref : StatementRef) : Decidable (arrangement.Listed ref) :=
  inferInstanceAs (Decidable (∃ content ∈ arrangement.bodies, ref ∈ content.order))

def holder (arrangement : Arrangement) (ref : StatementRef) : Nat :=
  arrangement.bodies.findIdx fun content => ref ∈ content.order

def change (arrangement : Arrangement) (index : Nat)
    (place : List StatementRef → List StatementRef) : Arrangement :=
  { arrangement with
    bodies := arrangement.bodies.modify index fun content =>
      { content with order := place content.order } }

end Arrangement

/-- A call that adds a body or a statement or links a statement. -/
inductive Request where
  | addBody (scope : ScopeRef)
  | addStatement (statement : Statement)
  | append (body : BodyRef) (new : StatementRef)
  | prepend (body : BodyRef) (new : StatementRef)
  | insertAfter (anchor new : StatementRef)
  | insertBefore (anchor new : StatementRef)
  | placeSynthesized (body : BodyRef) (new : StatementRef)
  deriving DecidableEq, Repr

namespace Request

def InRange (arrangement : Arrangement) : Request → Prop
  | .addBody _ | .addStatement _ => True
  | .append body new | .prepend body new | .placeSynthesized body new =>
      body.index < arrangement.bodies.length ∧ new.index < arrangement.statements.length
  | .insertAfter anchor new | .insertBefore anchor new =>
      anchor.index < arrangement.statements.length ∧
        new.index < arrangement.statements.length

/-- The statement to link is in a list already, or its anchor is in none. -/
def Refused (arrangement : Arrangement) : Request → Prop
  | .addBody _ | .addStatement _ => False
  | .append _ new | .prepend _ new | .placeSynthesized _ new => arrangement.Listed new
  | .insertAfter anchor new | .insertBefore anchor new =>
      arrangement.Listed new ∨ ¬arrangement.Listed anchor

/-- What the request does to the lists. -/
def act (arrangement : Arrangement) : Request → Arrangement
  | .addBody scope => { arrangement with bodies := arrangement.bodies ++ [{ scope }] }
  | .addStatement statement =>
      { arrangement with statements := arrangement.statements ++ [statement] }
  | .append body new => arrangement.change body.index (· ++ [new])
  | .prepend body new => arrangement.change body.index (new :: ·)
  | .insertAfter anchor new =>
      arrangement.change (arrangement.holder anchor) (StructuralTypes.insertAfter anchor new)
  | .insertBefore anchor new =>
      arrangement.change (arrangement.holder anchor) (StructuralTypes.insertBefore anchor new)
  | .placeSynthesized body new =>
      { arrangement with
        bodies := arrangement.bodies.modify body.index fun content =>
          { content with
            order := match content.lastSynthesized with
              | some last => StructuralTypes.insertAfter last new content.order
              | none => new :: content.order
            lastSynthesized := some new } }

def target (arrangement : Arrangement) : Request → Nat
  | .addBody _ | .addStatement _ => arrangement.bodies.length
  | .append body _ | .prepend body _ | .placeSynthesized body _ => body.index
  | .insertAfter anchor _ | .insertBefore anchor _ => arrangement.holder anchor

theorem act_elsewhere (arrangement : Arrangement) (request : Request) {index : Nat}
    (other : index ≠ request.target arrangement) :
    (request.act arrangement).bodies[index]? = arrangement.bodies[index]? := by
  cases request with
  | addBody scope =>
      simp only [target] at other
      simp only [act, List.getElem?_append]
      split
      · rfl
      · rename_i outside
        rw [List.getElem?_eq_none (by simp; omega), List.getElem?_eq_none (by omega)]
  | addStatement statement => rfl
  | append body new | prepend body new | placeSynthesized body new =>
      exact List.getElem?_modify_ne _ _ (Ne.symm other)
  | insertAfter anchor new | insertBefore anchor new =>
      exact List.getElem?_modify_ne _ _ (Ne.symm other)

instance (arrangement : Arrangement) (request : Request) :
    Decidable (request.InRange arrangement) :=
  match request with
  | .addBody _ | .addStatement _ => inferInstanceAs (Decidable True)
  | .append _ _ | .prepend _ _ | .insertAfter _ _ | .insertBefore _ _ | .placeSynthesized _ _ =>
      inferInstanceAs (Decidable (_ ∧ _))

instance (arrangement : Arrangement) (request : Request) :
    Decidable (request.Refused arrangement) :=
  match request with
  | .addBody _ | .addStatement _ => inferInstanceAs (Decidable False)
  | .append _ new | .prepend _ new | .placeSynthesized _ new =>
      inferInstanceAs (Decidable (arrangement.Listed new))
  | .insertAfter _ _ | .insertBefore _ _ => inferInstanceAs (Decidable (_ ∨ _))

def onLayout (layout : Layout) : Request → Except Fault Layout
  | .addBody scope => return (layout.addBody scope).2
  | .addStatement statement => return (layout.addStatement statement).2
  | .append body new => layout.append body new
  | .prepend body new => layout.prepend body new
  | .insertAfter anchor new => layout.insertAfter anchor new
  | .insertBefore anchor new => layout.insertBefore anchor new
  | .placeSynthesized body new => layout.placeSynthesized body new

end Request

namespace Arrangement

def step (arrangement : Arrangement) (request : Request) : Arrangement :=
  if request.Refused arrangement then arrangement else request.act arrangement

def AllInRange (arrangement : Arrangement) : List Request → Prop
  | [] => True
  | request :: rest => request.InRange arrangement ∧ (arrangement.step request).AllInRange rest

instance decidableAllInRange (arrangement : Arrangement) :
    (requests : List Request) → Decidable (arrangement.AllInRange requests)
  | [] => inferInstanceAs (Decidable True)
  | request :: rest =>
      have := (arrangement.step request).decidableAllInRange rest
      inferInstanceAs (Decidable (_ ∧ _))

end Arrangement

namespace Layout

variable {layout : Layout} {body other : BodyRef} {content : Body} {ref new : StatementRef}
  {front back : List StatementRef} {place : List StatementRef → List StatementRef}

theorem bodyOf_of_get? {placed : Placed} (stored : layout.statements.get? ref = some placed) :
    layout.bodyOf ref = .ok placed.body :=
  bodyOf_eq_ok_iff.mpr ⟨placed.statement, stored⟩

/-! ## Orderly layouts -/

def Lists (layout : Layout) (body : BodyRef) (ref : StatementRef) : Prop :=
  ∃ content, layout.bodies.get? body = some content ∧ ref ∈ content.order

/-- Statements are listed once, where they say that they are, and the synthesized statement
placed most recently in a body is listed there. -/
structure Orderly (layout : Layout) : Prop where
  held : ∀ ref body, layout.bodyOf ref = .ok (some body) ↔ layout.Lists body ref
  unique : ∀ body content, layout.bodies.get? body = some content → content.order.Nodup
  recalled : ∀ body content last, layout.bodies.get? body = some content →
    content.lastSynthesized = some last → last ∈ content.order

/-- `new` is not linked yet, and `place` puts it between the `front` and the `back` of
a body. -/
structure Fits (layout : Layout) (body : BodyRef) (new : StatementRef) (content : Body)
    (front back : List StatementRef) (place : List StatementRef → List StatementRef) : Prop where
  free : layout.bodyOf new = .ok none
  stored : layout.bodies.get? body = some content
  split : content.order = front ++ back
  placed : place content.order = front ++ new :: back

def putting (layout : Layout) (body : BodyRef) (new : StatementRef)
    (place : List StatementRef → List StatementRef) : Layout where
  statements := layout.statements.update new fun placed => { placed with body := some body }
  bodies := layout.bodies.update body fun content => { content with order := place content.order }

theorem statements_putting : (layout.putting body new place).statements.get? ref =
    if new = ref then (layout.statements.get? ref).map fun placed =>
      { placed with body := some body }
    else layout.statements.get? ref :=
  Arena.get?_update

theorem bodies_putting : (layout.putting body new place).bodies.get? other =
    if body = other then (layout.bodies.get? other).map fun content =>
      { content with order := place content.order }
    else layout.bodies.get? other :=
  Arena.get?_update

namespace Fits

variable (fits : layout.Fits body new content front back place)
include fits

theorem link_eq : layout.link body new place = .ok (layout.putting body new place) := by
  obtain ⟨statement, stored⟩ := bodyOf_eq_ok_iff.mp fits.free
  refine link_eq_ok_iff.mpr ⟨fits.free, ?_, ?_⟩
  · exact Arena.modify_of_lt (Arena.lt_size_of_get? fits.stored)
  · exact Arena.modify_of_lt (Arena.lt_size_of_get? stored)

theorem bodyOf_putting : (layout.putting body new place).bodyOf ref =
    if ref = new then .ok (some body) else layout.bodyOf ref := by
  obtain ⟨statement, stored⟩ := bodyOf_eq_ok_iff.mp fits.free
  split
  · rename_i same
    rw [same]
    exact bodyOf_eq_ok_iff.mpr ⟨statement, by simp [statements_putting, stored]⟩
  · rename_i different
    simp [bodyOf, Arena.get, statements_putting, Ne.symm different]

theorem mem_place : ref ∈ place content.order ↔ ref = new ∨ ref ∈ content.order := by
  rw [fits.placed, fits.split]
  simp only [List.mem_append, List.mem_cons]
  exact or_left_comm

theorem lists_putting : (layout.putting body new place).Lists other ref ↔
    other = body ∧ ref = new ∨ layout.Lists other ref := by
  simp only [Lists, bodies_putting]
  by_cases same : body = other
  · subst same
    simp [fits.stored, fits.mem_place]
  · simp [same, Ne.symm same]

theorem unique (orderly : layout.Orderly) : (front ++ new :: back).Nodup := by
  have missing : new ∉ content.order := fun member => by
    have held := (orderly.held new body).mpr ⟨content, fits.stored, member⟩
    rw [fits.free] at held
    cases held
  rw [List.nodup_middle, ← fits.split]
  exact List.nodup_cons.mpr ⟨missing, orderly.unique body content fits.stored⟩

theorem orderly (orderly : layout.Orderly) : (layout.putting body new place).Orderly where
  held ref other := by
    rw [fits.bodyOf_putting, fits.lists_putting, ← orderly.held]
    by_cases same : ref = new
    · simp [same, fits.free, eq_comm]
    · simp [same]
  unique other later stored := by
    obtain ⟨old, found, rfl⟩ := Arena.get?_eq_some_of_update stored
    split
    · rename_i same
      subst same
      cases Option.mem_unique fits.stored found
      exact fits.placed ▸ fits.unique orderly
    · exact orderly.unique other old found
  recalled other later last stored marked := by
    obtain ⟨old, found, rfl⟩ := Arena.get?_eq_some_of_update stored
    have member : last ∈ old.order := by
      refine orderly.recalled other old last found ?_
      split at marked <;> exact marked
    split
    · rename_i same
      subst same
      cases Option.mem_unique fits.stored found
      exact fits.mem_place.mpr (.inr member)
    · exact member

end Fits

theorem link_of_none (missing : layout.bodies.get? body = none) :
    layout.link body new place = .error .dangling := by
  simp [link, Arena.modify_of_none missing, bind, Except.bind]

theorem link_congr (stored : layout.bodies.get? body = some content)
    {elsewhere : List StatementRef → List StatementRef}
    (same : place content.order = elsewhere content.order) :
    layout.link body new place = layout.link body new elsewhere := by
  simp only [link]
  rw [Arena.modify_congr stored]
  simp [same]

theorem link_of_error {fault : Fault} (inside : body.index < layout.bodies.size)
    (held : layout.bodyOf new = .error fault) : layout.link body new place = .error fault := by
  simp [link, Arena.modify_of_lt inside, held, bind, Except.bind]

theorem link_of_held {holder : BodyRef} (inside : body.index < layout.bodies.size)
    (held : layout.bodyOf new = .ok (some holder)) :
    layout.link body new place = .error (.alreadyLinked new holder) := by
  simp [link, Arena.modify_of_lt inside, held, bind, Except.bind, throw, throwThe,
    MonadExceptOf.throw]

end Layout

/-! ## A layout as an arrangement -/

namespace Layout

def arrangement (layout : Layout) : Arrangement where
  statements := layout.statements.toList.map Placed.statement
  bodies := layout.bodies.toList

variable {layout : Layout} {body : BodyRef} {content : Body} {ref anchor new : StatementRef}
  {front back : List StatementRef} {place : List StatementRef → List StatementRef}

theorem arrangement_putting : (layout.putting body new place).arrangement =
    layout.arrangement.change body.index place := by
  have same : (layout.statements.toList.modify new.index fun placed =>
      { placed with body := some body }).map Placed.statement =
        layout.statements.toList.map Placed.statement := by
    refine List.ext_getElem? fun index => ?_
    simp only [List.getElem?_map, List.getElem?_modify]
    split <;> simp [Function.comp_def]
  simp [arrangement, putting, Arrangement.change, same]

theorem lists_of_mem {index : Nat} (inside : index < layout.bodies.toList.length)
    (member : ref ∈ (layout.bodies.toList[index]).order) : layout.Lists ⟨index⟩ ref :=
  ⟨_, by rw [← Arena.getElem?_toList, List.getElem?_eq_getElem inside], member⟩

theorem listed_iff : layout.arrangement.Listed ref ↔ ∃ body, layout.Lists body ref := by
  simp only [Arrangement.Listed, arrangement, Lists, List.mem_iff_getElem?]
  constructor
  · rintro ⟨content, ⟨index, stored⟩, member⟩
    exact ⟨⟨index⟩, content, by rwa [← Arena.getElem?_toList], member⟩
  · rintro ⟨body, content, stored, member⟩
    exact ⟨content, ⟨body.index, by rwa [Arena.getElem?_toList]⟩, member⟩

theorem prepend_eq_append (stored : layout.bodies.get? body = some content)
    (empty : content.order = []) : layout.prepend body new = layout.append body new :=
  link_congr stored (by rw [empty]; rfl)

def marking (layout : Layout) (body : BodyRef) (new : StatementRef) : Layout :=
  { layout with
    bodies := layout.bodies.update body fun content =>
      { content with lastSynthesized := some new } }

theorem lists_addBody {scope : ScopeRef} :
    (layout.addBody scope).2.Lists body ref ↔ layout.Lists body ref := by
  simp only [Lists, addBody, Arena.get?_push]
  split
  · rename_i same
    simp [same, Arena.get?_next]
  · rfl

theorem lists_marking {other : BodyRef} :
    (layout.marking body new).Lists other ref ↔ layout.Lists other ref := by
  simp only [Lists, marking, Arena.get?_update]
  split <;> simp

/-- What linking comes to, where the lists say whether it is refused and what is next. -/
def Outcome (refused : Prop) (next : Arrangement) (result : Except Fault Layout) : Prop :=
  refused ∧ (∃ fault, result = .error fault) ∨
    ¬refused ∧ ∃ linked, result = .ok linked ∧ linked.Orderly ∧ linked.arrangement = next

namespace Orderly

variable (orderly : layout.Orderly)
include orderly

theorem lt_size_of_lists (lists : layout.Lists body ref) :
    ref.index < layout.statements.size := by
  obtain ⟨statement, stored⟩ := bodyOf_eq_ok_iff.mp ((orderly.held ref body).mpr lists)
  exact Arena.lt_size_of_get? stored

theorem not_listed_iff (inside : ref.index < layout.statements.size) :
    ¬layout.arrangement.Listed ref ↔ layout.bodyOf ref = .ok none := by
  obtain ⟨placed, stored⟩ := Arena.exists_get?_of_lt_size inside
  simp only [listed_iff, ← orderly.held, bodyOf_of_get? stored, Except.ok.injEq, not_exists]
  exact Option.eq_none_iff_forall_ne_some.symm

theorem append_eq_insertAfter (stored : layout.bodies.get? body = some content)
    {last : StatementRef} (split : content.order = front ++ [last]) :
    layout.append body new = layout.insertAfter last new := by
  have unique := split ▸ orderly.unique body content stored
  have lists : layout.Lists body last := ⟨content, stored, by simp [split]⟩
  rw [Layout.insertAfter, anchorBody_eq_ok_iff.mpr ((orderly.held last body).mpr lists)]
  refine link_congr stored ?_
  rw [split, insertAfter_append_cons new [] (not_mem_of_nodup unique).1]
  simp

theorem prepend_eq_insertBefore (stored : layout.bodies.get? body = some content)
    {first : StatementRef} (split : content.order = first :: back) :
    layout.prepend body new = layout.insertBefore first new := by
  have lists : layout.Lists body first := ⟨content, stored, by simp [split]⟩
  rw [Layout.insertBefore, anchorBody_eq_ok_iff.mpr ((orderly.held first body).mpr lists)]
  refine link_congr stored ?_
  simp [split, StructuralTypes.insertBefore]

theorem lists_unique {other : BodyRef} (lists : layout.Lists body ref)
    (elsewhere : layout.Lists other ref) : body = other := by
  have same := ((orderly.held ref body).mpr lists).symm.trans
    ((orderly.held ref other).mpr elsewhere)
  exact Option.some.inj (Except.ok.inj same)

theorem length_order_le (stored : layout.bodies.get? body = some content) :
    content.order.length ≤ layout.statements.size := by
  have known : content.order ⊆ layout.statements.refs := fun ref member =>
    Arena.mem_refs_iff.mpr (orderly.lt_size_of_lists ⟨content, stored, member⟩)
  have shorter := ((orderly.unique body content stored).subperm known).length_le
  simpa [Arena.refs] using shorter

theorem disjoint : layout.arrangement.bodies.Pairwise fun first second =>
    first.order.Disjoint second.order := by
  refine List.pairwise_iff_getElem.mpr fun first second here there less ref member inOther => ?_
  have same := orderly.lists_unique (lists_of_mem here member) (lists_of_mem there inOther)
  exact Nat.ne_of_lt less (congrArg Ref.index same)

theorem holder_eq (lists : layout.Lists body ref) :
    layout.arrangement.holder ref = body.index := by
  obtain ⟨content, stored, member⟩ := lists
  have inside : body.index < layout.bodies.toList.length := Arena.lt_size_of_get? stored
  have here := stored
  rw [← Arena.getElem?_toList, List.getElem?_eq_getElem inside] at here
  refine (List.findIdx_eq inside).mpr ⟨?_, fun index before => ?_⟩
  · simpa only [Option.some.inj here, decide_eq_true_eq] using member
  · refine decide_eq_false fun listed => ?_
    have same := orderly.lists_unique (lists_of_mem (Nat.lt_trans before inside) listed)
      ⟨content, stored, member⟩
    exact Nat.ne_of_lt before (congrArg Ref.index same)

theorem link (inside : body.index < layout.bodies.size)
    (known : new.index < layout.statements.size)
    (gap : ∀ content, layout.bodies.get? body = some content →
      ∃ front back, content.order = front ++ back ∧ place content.order = front ++ new :: back) :
    Outcome (layout.arrangement.Listed new) (layout.arrangement.change body.index place)
      (layout.link body new place) := by
  by_cases listed : layout.arrangement.Listed new
  · obtain ⟨holder, lists⟩ := listed_iff.mp listed
    exact .inl ⟨listed, _, link_of_held inside ((orderly.held new holder).mpr lists)⟩
  · obtain ⟨content, stored⟩ := Arena.exists_get?_of_lt_size inside
    obtain ⟨front, back, split, placed⟩ := gap content stored
    have fits : layout.Fits body new content front back place :=
      ⟨(orderly.not_listed_iff known).mp listed, stored, split, placed⟩
    exact .inr ⟨listed, _, fits.link_eq, fits.orderly orderly, arrangement_putting⟩

theorem anchored (anchorKnown : anchor.index < layout.statements.size)
    (known : new.index < layout.statements.size)
    (gap : ∀ order, anchor ∈ order →
      ∃ front back, order = front ++ back ∧ place order = front ++ new :: back) :
    Outcome (layout.arrangement.Listed new ∨ ¬layout.arrangement.Listed anchor)
      (layout.arrangement.change (layout.arrangement.holder anchor) place)
      (do layout.link (← layout.anchorBody anchor) new place) := by
  by_cases listed : layout.arrangement.Listed anchor
  · obtain ⟨body, lists⟩ := listed_iff.mp listed
    have anchored : layout.anchorBody anchor = .ok body :=
      anchorBody_eq_ok_iff.mpr ((orderly.held anchor body).mpr lists)
    obtain ⟨content, stored, member⟩ := lists
    rw [orderly.holder_eq ⟨content, stored, member⟩, anchored]
    simp only [listed, not_true_eq_false, or_false]
    refine orderly.link (Arena.lt_size_of_get? stored) known fun found storedAgain => ?_
    cases Option.mem_unique stored storedAgain
    exact gap content.order member
  · have unlinked := (orderly.not_listed_iff anchorKnown).mp listed
    refine .inl ⟨.inr listed, .anchorUnlinked anchor, ?_⟩
    simp [anchorBody, unlinked, bind, Except.bind, throw, throwThe, MonadExceptOf.throw]

theorem append (inside : body.index < layout.bodies.size)
    (known : new.index < layout.statements.size) :
    Outcome (layout.arrangement.Listed new)
      (layout.arrangement.change body.index (· ++ [new])) (layout.append body new) :=
  orderly.link inside known fun content _ =>
    ⟨content.order, [], (List.append_nil _).symm, rfl⟩

theorem prepend (inside : body.index < layout.bodies.size)
    (known : new.index < layout.statements.size) :
    Outcome (layout.arrangement.Listed new)
      (layout.arrangement.change body.index (new :: ·)) (layout.prepend body new) :=
  orderly.link inside known fun content _ => ⟨[], content.order, rfl, rfl⟩

theorem insertAfter (anchorKnown : anchor.index < layout.statements.size)
    (known : new.index < layout.statements.size) :
    Outcome (layout.arrangement.Listed new ∨ ¬layout.arrangement.Listed anchor)
      (layout.arrangement.change (layout.arrangement.holder anchor)
        (StructuralTypes.insertAfter anchor new)) (layout.insertAfter anchor new) := by
  refine orderly.anchored anchorKnown known fun order member => ?_
  obtain ⟨front, back, rfl, first⟩ := List.eq_append_cons_of_mem member
  exact ⟨front ++ [anchor], back, by simp, by simp [insertAfter_append_cons _ _ first]⟩

theorem insertBefore (anchorKnown : anchor.index < layout.statements.size)
    (known : new.index < layout.statements.size) :
    Outcome (layout.arrangement.Listed new ∨ ¬layout.arrangement.Listed anchor)
      (layout.arrangement.change (layout.arrangement.holder anchor)
        (StructuralTypes.insertBefore anchor new)) (layout.insertBefore anchor new) := by
  refine orderly.anchored anchorKnown known fun order member => ?_
  obtain ⟨front, back, rfl, first⟩ := List.eq_append_cons_of_mem member
  exact ⟨front, anchor :: back, rfl, insertBefore_append_cons _ _ first⟩

theorem mark (lists : layout.Lists body new) : (layout.marking body new).Orderly where
  held ref other := by
    rw [lists_marking]
    exact orderly.held ref other
  unique other later stored := by
    obtain ⟨old, found, rfl⟩ := Arena.get?_eq_some_of_update stored
    have once := orderly.unique other old found
    split <;> exact once
  recalled other later last stored marked := by
    obtain ⟨old, found, rfl⟩ := Arena.get?_eq_some_of_update stored
    split at marked
    · rename_i same
      cases marked
      obtain ⟨content, storedHere, member⟩ := lists
      rw [same] at storedHere
      cases Option.mem_unique storedHere found
      simpa [same] using member
    · rename_i other
      simpa [other] using orderly.recalled _ old last found marked

end Orderly

theorem Outcome.mark {refused : Prop} {result : Except Fault Layout}
    (outcome : Outcome refused (layout.arrangement.change body.index place) result)
    (stored : layout.bodies.get? body = some content) (member : new ∈ place content.order) :
    Outcome refused
      { layout.arrangement with
        bodies := layout.arrangement.bodies.modify body.index fun content =>
          { content with order := place content.order, lastSynthesized := some new } }
      (do
        let linked ← result
        let bodies ← linked.bodies.modify body
          fun content => { content with lastSynthesized := some new }
        return { linked with bodies }) := by
  rcases outcome with ⟨refused, fault, rfl⟩ | ⟨accepted, linked, rfl, orderly, arranged⟩
  · exact .inl ⟨refused, fault, rfl⟩
  · have found : linked.bodies.get? body = some { content with order := place content.order } := by
      rw [← Arena.getElem?_toList]
      change linked.arrangement.bodies[body.index]? = _
      rw [arranged]
      simp [Arrangement.change, arrangement, stored]
    refine .inr ⟨accepted, linked.marking body new, ?_, orderly.mark ⟨_, found, member⟩, ?_⟩
    · simp [Arena.modify_of_lt (Arena.lt_size_of_get? found), marking, bind, Except.bind, pure,
        Except.pure]
    · have marked : (linked.marking body new).arrangement =
          { linked.arrangement with
            bodies := linked.arrangement.bodies.modify body.index fun content =>
              { content with lastSynthesized := some new } } := by
        simp [arrangement, marking]
      rw [marked, arranged]
      simp [Arrangement.change, List.modify_modify_eq, Function.comp_def]

theorem act_placeSynthesized (place : List StatementRef → List StatementRef)
    (stored : layout.bodies.get? body = some content)
    (placed : place content.order = match content.lastSynthesized with
      | some last => StructuralTypes.insertAfter last new content.order
      | none => new :: content.order) :
    (Request.placeSynthesized body new).act layout.arrangement =
      { layout.arrangement with
        bodies := layout.arrangement.bodies.modify body.index fun content =>
          { content with order := place content.order, lastSynthesized := some new } } := by
  simp only [Request.act, Arrangement.mk.injEq, true_and]
  refine List.ext_getElem? fun index => ?_
  simp only [List.getElem?_modify]
  split
  · rename_i same
    rw [← same, arrangement, Arena.getElem?_toList, stored]
    simp [placed]
  · rfl

theorem Orderly.placeSynthesized (orderly : layout.Orderly)
    (inside : body.index < layout.bodies.size) (known : new.index < layout.statements.size) :
    Outcome (layout.arrangement.Listed new)
      ((Request.placeSynthesized body new).act layout.arrangement)
      (layout.placeSynthesized body new) := by
  obtain ⟨content, stored⟩ := Arena.exists_get?_of_lt_size inside
  simp only [Layout.placeSynthesized, Arena.get_eq_ok_iff.mpr stored]
  cases recent : content.lastSynthesized with
  | none =>
      rw [act_placeSynthesized (new :: ·) stored (by rw [recent])]
      simp only [bind, Except.bind, recent]
      exact (orderly.prepend inside known).mark stored List.mem_cons_self
  | some last =>
      have member := orderly.recalled body content last stored recent
      have lists : layout.Lists body last := ⟨content, stored, member⟩
      have outcome := orderly.insertAfter (orderly.lt_size_of_lists lists) known
      rw [orderly.holder_eq lists] at outcome
      simp only [listed_iff.mpr ⟨body, lists⟩, not_true_eq_false, or_false] at outcome
      rw [act_placeSynthesized (StructuralTypes.insertAfter last new) stored (by rw [recent])]
      simp only [bind, Except.bind, recent]
      exact outcome.mark stored ((insertAfter_perm member).mem_iff.mpr List.mem_cons_self)

/-! ## Requests -/

theorem orderly_empty : Orderly {} where
  held ref body := by
    constructor
    · intro held
      cases held
    · rintro ⟨content, stored, -⟩
      cases stored
  unique body content stored := by cases stored
  recalled body content last stored := by cases stored

theorem Orderly.addBody (orderly : layout.Orderly) (scope : ScopeRef) :
    (layout.addBody scope).2.Orderly where
  held ref body := by
    rw [lists_addBody]
    exact orderly.held ref body
  unique body content stored := by
    rcases Arena.eq_next_or_get?_of_push stored with ⟨-, rfl⟩ | stored
    · exact List.nodup_nil
    · exact orderly.unique body content stored
  recalled body content last stored marked := by
    rcases Arena.eq_next_or_get?_of_push stored with ⟨-, rfl⟩ | stored
    · cases marked
    · exact orderly.recalled body content last stored marked

theorem Orderly.addStatement (orderly : layout.Orderly) (statement : Statement) :
    (layout.addStatement statement).2.Orderly where
  held ref body := by
    refine Iff.trans ?_ (orderly.held ref body)
    simp only [bodyOf_eq_ok_iff, Layout.addStatement, Arena.get?_push]
    split
    · rename_i same
      simp [same, Arena.get?_next]
    · rfl
  unique := orderly.unique
  recalled := orderly.recalled

theorem Orderly.onLayout (orderly : layout.Orderly) {request : Request}
    (inRange : request.InRange layout.arrangement) :
    Outcome (request.Refused layout.arrangement) (request.act layout.arrangement)
      (request.onLayout layout) := by
  have statements : layout.arrangement.statements.length = layout.statements.size := by
    simp [arrangement]
  cases request with
  | addBody scope =>
      refine .inr ⟨id, _, rfl, orderly.addBody scope, ?_⟩
      simp [arrangement, Layout.addBody, Request.act]
  | addStatement statement =>
      refine .inr ⟨id, _, rfl, orderly.addStatement statement, ?_⟩
      simp [arrangement, Layout.addStatement, Request.act]
  | append body new =>
      obtain ⟨inside, known⟩ := inRange
      exact orderly.append inside (statements ▸ known)
  | prepend body new =>
      obtain ⟨inside, known⟩ := inRange
      exact orderly.prepend inside (statements ▸ known)
  | insertAfter anchor new =>
      obtain ⟨anchorKnown, known⟩ := inRange
      exact orderly.insertAfter (statements ▸ anchorKnown) (statements ▸ known)
  | insertBefore anchor new =>
      obtain ⟨anchorKnown, known⟩ := inRange
      exact orderly.insertBefore (statements ▸ anchorKnown) (statements ▸ known)
  | placeSynthesized body new =>
      obtain ⟨inside, known⟩ := inRange
      exact orderly.placeSynthesized inside (statements ▸ known)

end Layout

end StructuralTypes
