import StructuralTypes.Proofs.Completion

/-! Canonicalization only adds to a program. What was stored is stored still, with the same
names, bindings and statements; a type that has a declaration keeps it; and the order of each
body is the old one with synthesized declarations put in. The only things that change are the
types of variables and, in the forms of types, elements, recorded domains, the way ranks are
written, and companions. -/

namespace StructuralTypes

/-! ## Lists with additions -/

/-- The second list is the first with `added` elements put in. -/
inductive Supplements {α : Type} (added : α → Prop) : List α → List α → Prop
  | nil : Supplements added [] []
  | keep {element : α} {elements more : List α} (rest : Supplements added elements more) :
      Supplements added (element :: elements) (element :: more)
  | put {element : α} {elements more : List α} (new : added element)
      (rest : Supplements added elements more) : Supplements added elements (element :: more)

namespace Supplements

variable {α : Type} {added : α → Prop} {elements more : List α}

theorem refl (elements : List α) : Supplements added elements elements := by
  induction elements with
  | nil => exact .nil
  | cons head tail induction => exact .keep induction

theorem trans {other all : α → Prop} {most : List α} (first : Supplements added elements more)
    (second : Supplements other more most) (addedAll : ∀ element, added element → all element)
    (otherAll : ∀ element, other element → all element) : Supplements all elements most := by
  induction second generalizing elements with
  | nil =>
      cases first
      exact .nil
  | keep _ induction =>
      cases first with
      | keep rest => exact .keep (induction rest)
      | put new rest => exact .put (addedAll _ new) (induction rest)
  | put new _ induction => exact .put (otherAll _ new) (induction first)

theorem mono {all : α → Prop} (supplements : Supplements added elements more)
    (addedAll : ∀ element, added element → all element) : Supplements all elements more := by
  have same : Supplements all more more := refl more
  exact supplements.trans same addedAll fun _ => id

theorem mem (supplements : Supplements added elements more) {element : α}
    (member : element ∈ elements) : element ∈ more := by
  induction supplements with
  | nil => exact member
  | keep _ induction =>
      rcases List.mem_cons.mp member with rfl | later
      · exact List.mem_cons_self
      · exact List.mem_cons_of_mem _ (induction later)
  | put _ _ induction => exact List.mem_cons_of_mem _ (induction member)

theorem mem_or_added (supplements : Supplements added elements more) {element : α}
    (member : element ∈ more) : element ∈ elements ∨ added element := by
  induction supplements with
  | nil => exact .inl member
  | keep _ induction =>
      rcases List.mem_cons.mp member with rfl | later
      · exact .inl List.mem_cons_self
      · exact (induction later).imp_left (List.mem_cons_of_mem _)
  | put new _ induction =>
      rcases List.mem_cons.mp member with rfl | later
      · exact .inr new
      · exact induction later

theorem append {others longer : List α} (first : Supplements added elements more)
    (second : Supplements added others longer) :
    Supplements added (elements ++ others) (more ++ longer) := by
  induction first with
  | nil => exact second
  | keep _ induction => exact .keep induction
  | put new _ induction => exact .put new induction

theorem flatten_mapM {ε β : Type} {before after : α → Except ε (List β)} {all : β → Prop}
    (supplements : Supplements added elements more)
    (keep : ∀ element ∈ elements, ∀ part, before element = .ok part →
      ∃ longer, after element = .ok longer ∧ Supplements all part longer)
    (put : ∀ element, added element →
      ∃ part, after element = .ok part ∧ Supplements all [] part)
    {parts : List (List β)} (mapped : elements.mapM before = .ok parts) :
    ∃ longer, more.mapM after = .ok longer ∧ Supplements all parts.flatten longer.flatten := by
  induction supplements generalizing parts with
  | nil =>
      simp only [List.mapM_nil, Except.pure_eq_ok_iff] at mapped ⊢
      subst mapped
      exact ⟨[], rfl, .nil⟩
  | keep _ induction =>
      simp only [List.mapM_cons, Except.bind_eq_ok_iff, Except.pure_eq_ok_iff] at mapped ⊢
      rcases mapped with ⟨part, first, rest, later, rfl⟩
      rcases keep _ List.mem_cons_self part first with ⟨here, hereRead, supplementsHere⟩
      rcases induction (fun element member => keep element (List.mem_cons_of_mem _ member))
        later with ⟨longer, laterRead, supplementsLater⟩
      exact ⟨_, ⟨here, hereRead, longer, laterRead, rfl⟩,
        supplementsHere.append supplementsLater⟩
  | put new _ induction =>
      rcases put _ new with ⟨part, partRead, supplementsPart⟩
      rcases induction keep mapped with ⟨longer, laterRead, supplementsLater⟩
      simp only [List.mapM_cons, Except.bind_eq_ok_iff, Except.pure_eq_ok_iff]
      exact ⟨_, ⟨part, partRead, longer, laterRead, rfl⟩, supplementsPart.append supplementsLater⟩

end Supplements

theorem supplements_insertAfter {α : Type} [DecidableEq α] (anchor new : α)
    (elements : List α) : Supplements (· = new) elements (insertAfter anchor new elements) := by
  induction elements with
  | nil => exact .nil
  | cons head tail induction =>
      unfold insertAfter
      split
      · exact .keep (.put rfl (.refl tail))
      · exact .keep induction

theorem supplements_insertBefore {α : Type} [DecidableEq α] (anchor new : α)
    (elements : List α) : Supplements (· = new) elements (insertBefore anchor new elements) := by
  induction elements with
  | nil => exact .nil
  | cons head tail induction =>
      unfold insertBefore
      split
      · exact .put rfl (.refl _)
      · exact .keep induction

namespace Layout

variable {layout linked before middle after : Layout}

/-! ## Placing a statement -/

/-- `linked` is `layout` with a place for `new`, which is put into the orders of bodies. -/
structure Puts (layout : Layout) (new : StatementRef) (linked : Layout) : Prop where
  statements : ∃ body, layout.statements.modify new
    (fun placed => { placed with body := some body }) = .ok linked.statements
  size : linked.bodies.size = layout.bodies.size
  orders : ∀ body content, layout.bodies.get? body = some content →
    ∃ later, linked.bodies.get? body = some later ∧ later.scope = content.scope ∧
      Supplements (· = new) content.order later.order

theorem puts_of_link {body : BodyRef} {new : StatementRef}
    {place : List StatementRef → List StatementRef}
    (puts : ∀ order, Supplements (· = new) order (place order))
    (placed : layout.link body new place = .ok linked) : layout.Puts new linked := by
  rcases link_eq_ok_iff.mp placed with ⟨-, ordered, held⟩
  refine ⟨⟨body, held⟩, Arena.size_of_modify ordered, ?_⟩
  intro target content stored
  rw [Arena.get?_of_modify ordered, stored]
  split
  · exact ⟨_, rfl, rfl, puts content.order⟩
  · exact ⟨content, rfl, rfl, .refl _⟩

private theorem puts_of_anchored {anchor new : StatementRef}
    {place : List StatementRef → List StatementRef}
    (puts : ∀ order, Supplements (· = new) order (place order))
    (placed : (do layout.link (← layout.anchorBody anchor) new place) = .ok linked) :
    layout.Puts new linked := by
  rw [Except.bind_eq_ok_iff] at placed
  rcases placed with ⟨_, -, placed⟩
  exact puts_of_link puts placed

theorem puts_of_placeSynthesized {body : BodyRef} {new : StatementRef}
    (placed : layout.placeSynthesized body new = .ok linked) : layout.Puts new linked := by
  rcases placeSynthesized_eq_ok placed with ⟨between, bodies, marked, rfl, chosen⟩
  have puts : layout.Puts new between := by
    rcases chosen with ⟨_, last, -, -, inserted⟩ | ⟨_, -, -, prepended⟩
    · exact puts_of_anchored (supplements_insertAfter last new) inserted
    · exact puts_of_link (fun order => .put rfl (.refl order)) prepended
  refine ⟨puts.statements, (Arena.size_of_modify marked).trans puts.size, ?_⟩
  intro target content stored
  rcases puts.orders target content stored with ⟨later, found, sameScope, supplements⟩
  rw [Arena.get?_of_modify marked, found]
  split
  · exact ⟨_, rfl, sameScope, supplements⟩
  · exact ⟨later, rfl, sameScope, supplements⟩

theorem puts_of_position {position : Position} {new : StatementRef}
    (placed : position.link new layout = .ok linked) : layout.Puts new linked := by
  cases position with
  | after anchor => exact puts_of_anchored (supplements_insertAfter anchor new) placed
  | before anchor => exact puts_of_anchored (supplements_insertBefore anchor new) placed
  | shared => exact puts_of_placeSynthesized placed

/-! ## Layouts with additions -/

def Added (before after : Layout) (ref : StatementRef) : Prop :=
  before.statements.get? ref = none ∧ ∃ placed, after.statements.get? ref = some placed

structure Extends (before after : Layout) : Prop where
  statements : ∀ ref placed, before.statements.get? ref = some placed →
    after.statements.get? ref = some placed
  synthesized : ∀ ref placed, after.statements.get? ref = some placed →
    before.statements.get? ref = some placed ∨
      ∃ symbol body, placed = { statement := .synthesizedType symbol, body := some body }
  size : after.bodies.size = before.bodies.size
  orders : ∀ body content, before.bodies.get? body = some content →
    ∃ later, after.bodies.get? body = some later ∧ later.scope = content.scope ∧
      Supplements (before.Added after) content.order later.order

namespace Extends

theorem refl (layout : Layout) : Extends layout layout where
  statements _ _ stored := stored
  synthesized _ _ stored := .inl stored
  size := rfl
  orders _ content stored := ⟨content, stored, rfl, .refl _⟩

theorem trans (first : Extends before middle) (second : Extends middle after) :
    Extends before after where
  statements ref placed stored := second.statements ref placed (first.statements ref placed stored)
  synthesized ref placed stored := by
    rcases second.synthesized ref placed stored with between | new
    · exact first.synthesized ref placed between
    · exact .inr new
  size := second.size.trans first.size
  orders body content stored := by
    rcases first.orders body content stored with ⟨between, found, same, supplements⟩
    rcases second.orders body between found with ⟨later, laterFound, sameLater, supplementsLater⟩
    refine ⟨later, laterFound, sameLater.trans same, supplements.trans supplementsLater ?_ ?_⟩
    · intro ref added
      rcases added with ⟨new, placed, placedStored⟩
      exact ⟨new, placed, second.statements ref placed placedStored⟩
    · intro ref added
      refine ⟨?_, added.2⟩
      cases old : before.statements.get? ref with
      | none => rfl
      | some placed =>
          have kept := first.statements ref placed old
          rw [added.1] at kept
          contradiction

theorem grows (extension : Extends before after) : Grows before after where
  statements ref placed stored :=
    ⟨placed, extension.statements ref placed stored, rfl, fun _ same => same⟩
  bodies body content stored := by
    rcases extension.orders body content stored with ⟨later, found, same, supplements⟩
    exact ⟨later, found, same, fun ref member => supplements.mem member⟩

/-- What can be read before can be read after, with nothing but new statements put in. -/
theorem supplements_preorderWithin (extension : Extends before after) {depth : Nat}
    {body : BodyRef} {read : List StatementRef}
    (listed : before.preorderWithin depth body = .ok read) :
    ∃ more, after.preorderWithin depth body = .ok more ∧
      Supplements (before.Added after) read more := by
  induction depth generalizing body read with
  | zero => simp [Layout.preorderWithin, Except.throw_eq_ok_iff] at listed
  | succ depth induction =>
      simp only [Layout.preorderWithin, Except.bind_eq_ok_iff, Except.pure_eq_ok_iff,
        order_eq_ok_iff] at listed ⊢
      rcases listed with ⟨order, ⟨content, stored, rfl⟩, segments, mapped, rfl⟩
      rcases extension.orders body content stored with ⟨later, laterStored, -, supplements⟩
      have keep : ∀ ref ∈ content.order, ∀ segment,
          before.withInner (before.preorderWithin depth) ref = .ok segment →
          ∃ longer, after.withInner (after.preorderWithin depth) ref = .ok longer ∧
            Supplements (before.Added after) segment longer := by
        intro ref _ segment segmentListed
        simp only [withInner, Except.bind_eq_ok_iff, statement_eq_ok_iff] at segmentListed ⊢
        rcases segmentListed with ⟨statement, ⟨holder, found⟩, segmentListed⟩
        have still := extension.statements ref _ found
        split at segmentListed
        · rename_i inner block
          simp only [Except.bind_eq_ok_iff, Except.pure_eq_ok_iff] at segmentListed
          rcases segmentListed with ⟨part, partListed, rfl⟩
          rcases induction partListed with ⟨more, moreListed, supplementsPart⟩
          refine ⟨ref :: more, ⟨statement, ⟨holder, still⟩, ?_⟩, .keep supplementsPart⟩
          simp only [block, moreListed, bind, Except.bind, pure, Except.pure]
        · rename_i notBlock
          simp only [Except.pure_eq_ok_iff] at segmentListed
          subst segmentListed
          refine ⟨[ref], ⟨statement, ⟨holder, still⟩, ?_⟩, .refl _⟩
          split
          · rename_i inner block
            exact absurd block (notBlock inner)
          · rfl
      -- What is new declares a type, so nothing else is read with it.
      have put : ∀ ref, before.Added after ref → ∃ part,
          after.withInner (after.preorderWithin depth) ref = .ok part ∧
            Supplements (before.Added after) [] part := by
        intro ref added
        rcases added.2 with ⟨placed, placedStored⟩
        refine ⟨[ref], ?_, .put added .nil⟩
        rcases extension.synthesized ref placed placedStored with old | ⟨symbol, holder, rfl⟩
        · rw [added.1] at old
          contradiction
        · simp only [withInner, Except.bind_eq_ok_iff, statement_eq_ok_iff]
          exact ⟨_, ⟨_, placedStored⟩, rfl⟩
      rcases supplements.flatten_mapM keep put mapped with ⟨answers, answered, supplementsAll⟩
      exact ⟨_, ⟨_, ⟨later, laterStored, rfl⟩, answers, answered, rfl⟩, supplementsAll⟩

theorem supplements_preorder (extension : Extends before after) {roots : List BodyRef}
    {read : List StatementRef} (listed : before.preorder roots = .ok read) :
    ∃ more, after.preorder roots = .ok more ∧ Supplements (before.Added after) read more := by
  simp only [Layout.preorder, Except.bind_eq_ok_iff, Except.pure_eq_ok_iff] at listed ⊢
  rcases listed with ⟨segments, mapped, rfl⟩
  have sameDepth : after.blockDepth = before.blockDepth := by
    rw [blockDepth, blockDepth, extension.size]
  rw [sameDepth]
  have same : Supplements (fun _ => False) roots roots := .refl roots
  rcases same.flatten_mapM (fun _ _ _ partListed => extension.supplements_preorderWithin partListed)
    (fun _ never => never.elim) mapped with ⟨answers, answered, supplements⟩
  exact ⟨_, ⟨answers, answered, rfl⟩, supplements⟩

theorem preorder (extension : Extends before after) {roots : List BodyRef}
    {read : List StatementRef} (listed : before.preorder roots = .ok read) :
    ∃ more, after.preorder roots = .ok more ∧
      ∀ ref ∈ more, ref ∈ read ∨ before.Added after ref := by
  rcases extension.supplements_preorder listed with ⟨more, moreListed, supplements⟩
  exact ⟨more, moreListed, fun _ member => supplements.mem_or_added member⟩

end Extends

end Layout

namespace TypeForm

/-- The second form is the first with another element and recorded domain, or with its rank
written in another way and another companion in the place of its own. -/
inductive Rewrites : TypeForm → TypeForm → Prop
  | same (form : TypeForm) : Rewrites form form
  | array {element inner : TypeRef} {range : ExpressionRef} {before after : Option TypeRef} :
      Rewrites (.array element range before) (.array inner range after)
  | sequence {element inner : TypeRef} : Rewrites (.sequence element) (.sequence inner)
  | domain {rank explicit : Nat} {parent before after : Option TypeRef}
      (ranks : explicit = rank ∨ explicit = effectiveRank rank)
      (slots : after.isSome = before.isSome) :
      Rewrites (.domain rank parent before) (.domain explicit parent after)

/-- The second form is the first with another companion in the place of its own. -/
inductive Recompanions : TypeForm → TypeForm → Prop
  | same (form : TypeForm) : Recompanions form form
  | domain {rank : Nat} {parent : Option TypeRef} {before after : TypeRef} :
      Recompanions (.domain rank parent (some before)) (.domain rank parent (some after))

variable {first second third : TypeForm}

theorem Rewrites.trans (once : first.Rewrites second) (again : second.Rewrites third) :
    first.Rewrites third := by
  cases once with
  | same => exact again
  | array => cases again <;> exact .array
  | sequence => cases again <;> exact .sequence
  | domain ranks slots =>
      cases again with
      | same => exact .domain ranks slots
      | domain ranksAgain slotsAgain =>
          refine .domain ?_ (slotsAgain.trans slots)
          rcases ranks with rfl | rfl
          · exact ranksAgain
          · rw [effectiveRank_effectiveRank, or_self] at ranksAgain
            exact .inr ranksAgain

theorem Recompanions.trans (once : first.Recompanions second)
    (again : second.Recompanions third) : first.Recompanions third := by
  cases once with
  | same => exact again
  | domain => cases again <;> exact .domain

theorem Rewrites.withElement (inner : TypeRef) (form : TypeForm) :
    form.Rewrites (form.withElement inner) := by
  cases form with
  | array => exact .array
  | sequence => exact .sequence
  | _ => exact .same _

theorem effectiveRank_of_rewritten {rank explicit : Nat}
    (ranks : explicit = rank ∨ explicit = effectiveRank rank) :
    effectiveRank explicit = effectiveRank rank := by
  rcases ranks with rfl | rfl
  · rfl
  · exact effectiveRank_effectiveRank rank

theorem Rewrites.of_domain {rank : Nat} {parent companion : Option TypeRef}
    (rewrites : (TypeForm.domain rank parent companion).Rewrites second) :
    ∃ explicit other, second = .domain explicit parent other ∧
      effectiveRank explicit = effectiveRank rank ∧ other.isSome = companion.isSome := by
  cases rewrites with
  | same => exact ⟨rank, companion, rfl, rfl, rfl⟩
  | domain ranks slots => exact ⟨_, _, rfl, effectiveRank_of_rewritten ranks, slots⟩

theorem Rewrites.to_domain {explicit : Nat} {parent companion : Option TypeRef}
    (rewrites : first.Rewrites (.domain explicit parent companion)) :
    ∃ rank other, first = .domain rank parent other ∧ effectiveRank explicit = effectiveRank rank ∧
      companion.isSome = other.isSome := by
  cases rewrites with
  | same => exact ⟨explicit, companion, rfl, rfl, rfl⟩
  | domain ranks slots => exact ⟨_, _, rfl, effectiveRank_of_rewritten ranks, slots⟩

theorem Rewrites.shape_eq (rewrites : first.Rewrites second) : second.shape = first.shape := by
  cases rewrites <;> rfl

theorem Rewrites.element?_ne_none (rewrites : first.Rewrites second)
    (composite : first.element? ≠ none) : second.element? ≠ none := by
  cases rewrites with
  | same => exact composite
  | array | sequence => exact nofun
  | domain => exact absurd rfl composite

theorem Rewrites.element?_eq_none (rewrites : first.Rewrites second)
    (bare : first.element? = none) : second.element? = none := by
  cases rewrites with
  | same => exact bare
  | array | sequence => cases bare
  | domain => rfl

end TypeForm

namespace Program

/-! ## Programs with additions -/

structure Extends (before after : Program) : Prop where
  expressions : after.expressions = before.expressions
  modules : after.modules = before.modules
  names : ∀ name text, before.names.get? name = some text → after.names.get? name = some text
  types : ∀ type form symbol, before.types.get? type = some { form, symbol } →
    ∃ later holder, after.types.get? type = some { form := later, symbol := holder } ∧
      form.Rewrites later ∧
      ∀ ref, symbol = some ref → holder = some ref ∧ form.Recompanions later
  elements : ∀ type form element, after.types.get? type = some { form, symbol := none } →
    form.element? = some element → after.Named element ∨
      ∃ old, before.types.get? type = some { form := old, symbol := none } ∧
        old.element? = some element
  size : after.types.size = before.types.size
  symbols : ∀ ref symbol, before.symbols.get? ref = some symbol →
    ∃ type, after.symbols.get? ref = some { symbol with type }
  binds : ∀ scope name ref, before.Binds scope name ref → after.Binds scope name ref
  layout : before.layout.Extends after.layout

variable {before middle after : Program}

namespace Extends

theorem refl (program : Program) : Extends program program where
  expressions := rfl
  modules := rfl
  names _ _ named := named
  types _ form symbol stored :=
    ⟨form, symbol, stored, .same form, fun _ same => ⟨same, .same form⟩⟩
  elements _ form _ stored found := .inr ⟨form, stored, found⟩
  size := rfl
  symbols _ symbol stored := ⟨symbol.type, stored⟩
  binds _ _ _ binds := binds
  layout := .refl _

theorem named (extension : Extends before after) {type : TypeRef} (named : before.Named type) :
    after.Named type := by
  rcases named with ⟨form, ref, stored⟩
  rcases extension.types type form _ stored with ⟨later, holder, found, -, kept⟩
  rcases kept ref rfl with ⟨rfl, -⟩
  exact ⟨later, ref, found⟩

theorem trans (first : Extends before middle) (second : Extends middle after) :
    Extends before after where
  expressions := second.expressions.trans first.expressions
  modules := second.modules.trans first.modules
  names name text named := second.names name text (first.names name text named)
  types type form symbol stored := by
    rcases first.types type form symbol stored with ⟨between, holder, found, once, kept⟩
    rcases second.types type between holder found with ⟨later, last, laterFound, again, keptAgain⟩
    refine ⟨later, last, laterFound, once.trans again, ?_⟩
    intro ref declared
    rcases kept ref declared with ⟨declaredStill, recompanions⟩
    rcases keptAgain ref declaredStill with ⟨declaredLater, recompanionsAgain⟩
    exact ⟨declaredLater, recompanions.trans recompanionsAgain⟩
  elements type form element stored found := by
    rcases second.elements type form element stored found with named | ⟨old, between, same⟩
    · exact .inl named
    · exact (first.elements type old element between same).imp_left second.named
  size := second.size.trans first.size
  symbols ref symbol stored := by
    rcases first.symbols ref symbol stored with ⟨_, found⟩
    rcases second.symbols ref _ found with ⟨type, again⟩
    exact ⟨type, again⟩
  binds scope name ref binds := second.binds scope name ref (first.binds scope name ref binds)
  layout := first.layout.trans second.layout

section

variable (extension : Extends before after)
include extension

theorem typeName? {type : TypeRef} {text : String}
    (named : before.typeName? type = .ok (some text)) :
    after.typeName? type = .ok (some text) := by
  rcases typeName?_eq_some_iff.mp named with ⟨form, ref, symbol, stored, symbolStored, isText⟩
  rcases extension.types type form _ stored with ⟨later, holder, found, -, kept⟩
  rcases kept ref rfl with ⟨rfl, -⟩
  rcases extension.symbols ref symbol symbolStored with ⟨other, symbolFound⟩
  exact typeName?_eq_some_iff.mpr
    ⟨later, ref, _, found, symbolFound, extension.names _ _ isText⟩

theorem rank? {type : TypeRef} {rank : Nat} (ranked : before.rank? type = some rank) :
    ∃ explicit, after.rank? type = some explicit ∧
      effectiveRank explicit = effectiveRank rank := by
  rcases rank?_eq_some_iff.mp ranked with ⟨parent, companion, symbol, stored⟩
  rcases extension.types type _ symbol stored with ⟨later, holder, found, rewrites, -⟩
  rcases rewrites.of_domain with ⟨explicit, other, rfl, ranks, -⟩
  exact ⟨explicit, rank?_eq_some_iff.mpr ⟨_, _, _, found⟩, ranks⟩

theorem supplements_preorder {order : List StatementRef} (listed : before.preorder = .ok order) :
    ∃ more, after.preorder = .ok more ∧
      Supplements (before.layout.Added after.layout) order more := by
  have sameRoots : after.roots = before.roots := by rw [roots, roots, extension.modules]
  rw [Program.preorder, sameRoots]
  exact extension.layout.supplements_preorder listed

theorem mem_preorder {order more : List StatementRef} (listed : before.preorder = .ok order)
    (moreListed : after.preorder = .ok more) {ref : StatementRef} (member : ref ∈ order) :
    ref ∈ more := by
  obtain ⟨_, again, supplements⟩ := extension.supplements_preorder listed
  cases Except.ok.inj (moreListed.symm.trans again)
  exact supplements.mem member

theorem stored_before {type : TypeRef} {node : TypeNode}
    (stored : after.types.get? type = some node) :
    ∃ old, before.types.get? type = some old :=
  Arena.exists_get?_of_lt_size (extension.size ▸ Arena.lt_size_of_get? stored)

end

/-! ## Single changes -/

theorem intern (before : Program) (text : String) :
    Extends before { before with names := (before.names.intern text).2 } :=
  { refl before with names := fun _ _ named => NameTable.get?_intern_of_get? text named }

theorem changeForm {type : TypeRef} {form : TypeForm} {symbol : Option SymbolRef}
    {change : TypeForm → TypeForm} {types : Arena .type TypeNode}
    (stored : before.types.get? type = some { form, symbol })
    (rewrites : form.Rewrites (change form))
    (recompanions : symbol ≠ none → form.Recompanions (change form))
    (elements : ∀ element, (change form).element? = some element →
      before.Named element ∨ form.element? = some element)
    (modified : before.types.modify type (fun node => { node with form := change node.form }) =
      .ok types) : Extends before { before with types } := by
  have here : types.get? type = some { form := change form, symbol } := by
    rw [Arena.get?_of_modify_same modified, stored]
    rfl
  refine { refl before with types := ?_, elements := ?_, size := Arena.size_of_modify modified }
  · intro other otherForm holder found
    by_cases same : type = other
    · subst same
      rcases node_unique stored found with ⟨rfl, rfl⟩
      refine ⟨_, symbol, here, rewrites, ?_⟩
      intro ref declared
      exact ⟨declared, recompanions (by simp [declared])⟩
    · exact ⟨otherForm, holder, (Arena.get?_of_modify_of_ne modified same).trans found, .same _,
        fun _ same => ⟨same, .same _⟩⟩
  · intro other otherForm element found isElement
    by_cases same : type = other
    · subst same
      rcases node_unique here found with ⟨rfl, rfl⟩
      rcases elements element isElement with named | old
      · exact .inl ((advances_of_changeForm modified).named element named)
      · exact .inr ⟨form, stored, old⟩
    · exact .inr ⟨otherForm, (Arena.get?_of_modify_of_ne modified same).symm.trans found, isElement⟩

theorem setSymbolType {ref : SymbolRef} {type : TypeRef} {symbols : Arena .symbol Symbol}
    (modified : before.symbols.modify ref (fun symbol => { symbol with type }) = .ok symbols) :
    Extends before { before with symbols } := by
  refine { refl before with symbols := ?_ }
  intro other symbol found
  dsimp only
  rw [Arena.get?_of_modify modified, found]
  split
  · exact ⟨type, rfl⟩
  · exact ⟨symbol.type, rfl⟩

end Extends

theorem Introduces.new_statement {scope : ScopeRef} {text : String} {fresh : TypeRef}
    {finish : TypeForm → TypeForm} {position : Position}
    (introduces : before.Introduces scope text fresh finish position after) :
    ∃ body, after.layout.statements = before.layout.statements.push
      { statement := .synthesizedType before.symbols.next, body := some body } := by
  rcases (Layout.puts_of_position introduces.layout).statements with ⟨body, placed⟩
  refine ⟨body, ?_⟩
  simp only [Layout.addStatement] at placed
  rw [Arena.modify_push_next] at placed
  exact (Except.ok.inj placed).symm

theorem Introduces.layout_extends {scope : ScopeRef} {text : String} {fresh : TypeRef}
    {finish : TypeForm → TypeForm} {position : Position}
    (introduces : before.Introduces scope text fresh finish position after) :
    before.layout.Extends after.layout := by
  have puts := Layout.puts_of_position introduces.layout
  rcases introduces.new_statement with ⟨body, statements⟩
  refine ⟨?_, ?_, puts.size, ?_⟩
  · intro ref placed stored
    rw [statements]
    exact Arena.get?_push_of_get? _ stored
  · intro ref placed stored
    rw [statements] at stored
    rcases Arena.eq_next_or_get?_of_push stored with ⟨-, rfl⟩ | old
    · exact .inr ⟨_, body, rfl⟩
    · exact .inl old
  · intro target content stored
    rcases puts.orders target content stored with ⟨later, found, same, supplements⟩
    refine ⟨later, found, same, supplements.mono ?_⟩
    intro ref isNew
    subst isNew
    have placed := Arena.get?_push_next before.layout.statements
      { statement := .synthesizedType before.symbols.next, body := some body }
    rw [← statements] at placed
    exact ⟨Arena.get?_next _, _, placed⟩

theorem Introduces.extends {scope : ScopeRef} {text : String} {fresh : TypeRef}
    {form : TypeForm} {content : Scope} {finish : TypeForm → TypeForm} {position : Position}
    (anonymous : before.types.get? fresh = some { form, symbol := none })
    (rewrites : form.Rewrites (finish form)) (stored : before.scopes.get? scope = some content)
    (free : content.lookup (before.names.intern text).1 = none)
    (introduces : before.Introduces scope text fresh finish position after) :
    Extends before after where
  expressions := introduces.expressions
  modules := introduces.modules
  names _ _ named := introduces.old_name named
  types type other symbol found := by
    by_cases isFresh : type = fresh
    · subst isFresh
      rcases node_unique anonymous found with ⟨rfl, rfl⟩
      exact ⟨_, _, introduces.type_same anonymous, rewrites, by simp⟩
    · exact ⟨other, symbol, (introduces.type_other isFresh).trans found, .same _,
        fun _ same => ⟨same, .same _⟩⟩
  elements type other element found isElement := by
    by_cases isFresh : type = fresh
    · subst isFresh
      rw [introduces.type_same anonymous] at found
      simp at found
    · exact .inr ⟨other, (introduces.type_other isFresh).symm.trans found, isElement⟩
  size := Arena.size_of_modify introduces.types
  symbols _ symbol found := ⟨symbol.type, introduces.old_symbol found⟩
  binds _ _ _ binds := introduces.binds_kept stored free binds
  layout := introduces.layout_extends

end Program

end StructuralTypes
