import StructuralTypes.Proofs.Acyclicity
import StructuralTypes.Proofs.Retention

/-! No pass makes a type a part of itself. What passes put into anonymous types are types with a
declaration and domains, and what they put into domains are index types. None of these leads back
to an anonymous array or sequence, so a program without cycles stays one whatever passes go over
it, at each of their steps and also where they fail. -/

namespace StructuralTypes

namespace TypeForm

theorem companion?_of_element? {form : TypeForm} (composite : form.element? ≠ none) :
    form.companion? = none := by
  cases form with
  | domain => exact absurd rfl composite
  | _ => rfl

theorem Rewrites.companion?_eq {form later : TypeForm} (rewrites : form.Rewrites later)
    (bare : form.element? = none → later.companion? = form.companion?) :
    later.companion? = form.companion? := by
  by_cases leaf : form.element? = none
  · exact bare leaf
  · rw [companion?_of_element? leaf, companion?_of_element? (rewrites.element?_ne_none leaf)]

theorem shape_of_element? {form : TypeForm} (composite : form.element? ≠ none) :
    form.shape ≠ .domain ∧ form.shape ≠ .index := by
  cases form with
  | array | sequence => exact ⟨nofun, nofun⟩
  | _ => exact absurd rfl composite

theorem mem_constituents_of_element? {form : TypeForm} {element : TypeRef}
    (found : form.element? = some element) : element ∈ form.constituents := by
  cases form with
  | array | sequence =>
      cases found
      exact List.mem_singleton_self _
  | _ => cases found

theorem children_eq_constituents {form : TypeForm} (bare : form.element? = none)
    (noDomain : form.shape ≠ .domain) : form.children = form.constituents := by
  cases form with
  | array | sequence => cases bare
  | domain => exact absurd rfl noDomain
  | _ => rfl

end TypeForm

namespace Program

variable {source before after : Program}

/-! ## Programs before any pass -/

def CompanionsIndex (program : Program) : Prop :=
  ∀ type node, program.types.get? type = some node →
    ∀ companion ∈ node.form.companion?, program.shape companion = .ok .index

instance (program : Program) : Decidable program.CompanionsIndex :=
  inferInstanceAs (Decidable (∀ type node, program.types.get? type = some node → _))

/-- Only scalars have declarations, domains are derived from domains, and their companions are
index types. -/
structure Raw (program : Program) : Prop where
  declared : ∀ type node, program.types.get? type = some node → node.symbol ≠ none →
    node.form.Scalar
  parents : ∀ type node, program.types.get? type = some node →
    ∀ parent ∈ node.form.parent?, program.shape parent = .ok .domain
  companions : program.CompanionsIndex

instance (program : Program) : Decidable program.Raw :=
  decidable_of_iff
    ((∀ type node, program.types.get? type = some node → node.symbol ≠ none → node.form.Scalar) ∧
      (∀ type node, program.types.get? type = some node →
        ∀ parent ∈ node.form.parent?, program.shape parent = .ok .domain) ∧
      program.CompanionsIndex)
    ⟨fun ⟨declared, parents, companions⟩ => ⟨declared, parents, companions⟩,
      fun ⟨declared, parents, companions⟩ => ⟨declared, parents, companions⟩⟩

/-! ## Types that passes put into others -/

/-- `type` has a declaration, or is a domain or an index type. -/
def Grounded (program : Program) (type : TypeRef) : Prop :=
  program.Named type ∨ program.shape type = .ok .domain ∨ program.shape type = .ok .index

/-- There are no cycles, and grounded types are made of grounded types. -/
structure Stratified (program : Program) : Prop where
  acyclic : program.Acyclic
  grounded : ∀ part whole, program.PartOf part whole → program.Grounded whole →
    program.Grounded part
  parents : ∀ type node, program.types.get? type = some node →
    ∀ parent ∈ node.form.parent?, program.shape parent = .ok .domain
  companions : program.CompanionsIndex

theorem stratified_of_raw (acyclic : source.Acyclic) (raw : source.Raw) : source.Stratified where
  acyclic := acyclic
  parents := raw.parents
  companions := raw.companions
  grounded part whole isPart grounded := by
    obtain ⟨⟨form, symbol⟩, stored, member⟩ := isPart
    cases form with
    | primitive | nominal | index => cases member
    | domain rank parent companion =>
        rcases List.mem_append.mp member with isParent | isCompanion
        · exact .inr (.inl (raw.parents whole _ stored part (Option.mem_toList.mp isParent)))
        · exact .inr (.inr (raw.companions whole _ stored part (Option.mem_toList.mp isCompanion)))
    | array | tuple | sequence =>
        rcases grounded with ⟨_, ref, named⟩ | shaped | shaped
        · obtain ⟨rfl, rfl⟩ := node_unique stored named
          rcases raw.declared whole _ stored (by simp) with scalar | scalar <;> cases scalar
        all_goals
          obtain ⟨node, again, isShape⟩ := shape_eq_ok_iff.mp shaped
          cases Option.mem_unique stored again
          cases isShape

theorem Retains.shape (retains : before.Retains after) {type : TypeRef} {shape : Shape}
    (shaped : before.shape type = .ok shape) : after.shape type = .ok shape := by
  obtain ⟨node, stored, isShape⟩ := shape_eq_ok_iff.mp shaped
  obtain ⟨later, found, rewrites⟩ := retains.forms type node stored
  exact shape_eq_ok_iff.mpr ⟨later, found, rewrites.shape_eq.trans isShape⟩

theorem Retains.grounded (retains : before.Retains after) {type : TypeRef}
    (grounded : before.Grounded type) : after.Grounded type := by
  refine grounded.imp ?_ (.imp retains.shape retains.shape)
  rintro ⟨form, ref, stored⟩
  obtain ⟨later, found, -⟩ := retains.types type form ref stored
  exact ⟨later, ref, found⟩

theorem Retains.stored_before (retains : before.Retains after) {type : TypeRef} {node : TypeNode}
    (stored : after.types.get? type = some node) :
    ∃ old, before.types.get? type = some old ∧ old.form.Rewrites node.form := by
  obtain ⟨old, oldStored⟩ :=
    Arena.exists_get?_of_lt_size (retains.size ▸ Arena.lt_size_of_get? stored)
  obtain ⟨later, found, rewrites⟩ := retains.forms type old oldStored
  exact ⟨old, oldStored, Option.mem_unique found stored ▸ rewrites⟩

theorem Retains.shape_before (retains : before.Retains after) {type : TypeRef} {shape : Shape}
    (shaped : after.shape type = .ok shape) : before.shape type = .ok shape := by
  obtain ⟨node, stored, isShape⟩ := shape_eq_ok_iff.mp shaped
  obtain ⟨old, oldStored, rewrites⟩ := retains.stored_before stored
  exact shape_eq_ok_iff.mpr ⟨old, oldStored, rewrites.shape_eq.symm.trans isShape⟩

/-! ## Changes -/

/-- A change that adds parts to types that are not grounded, and these parts are grounded, or that
adds index types as parts. -/
structure Deepens (before after : Program) : Prop extends Retains before after where
  parts : ∀ part whole, after.PartOf part whole → before.PartOf part whole ∨
    (before.Grounded part ∧ ¬before.Grounded whole) ∨ before.shape part = .ok .index
  /-- What is declared anew is made of grounded types. -/
  declared : ∀ part whole, after.PartOf part whole → after.Named whole → ¬before.Grounded whole →
    before.Grounded part

namespace Stratified

/-- Nothing comes back to a grounded type: it leads to grounded types only, and these get no other
parts but index types. -/
private theorem acc_of_grounded (stratified : before.Stratified) (deepens : before.Deepens after)
    {type : TypeRef} (grounded : before.Grounded type) : Acc after.PartOf type := by
  induction type using stratified.acyclic.induction with
  | _ whole induction =>
      -- The induction goes along the parts from before; a new one is an index type and has none.
      refine ⟨_, fun part isPart => ?_⟩
      rcases deepens.parts part whole isPart with old | ⟨-, ungrounded⟩ | isIndex
      · exact induction part old (stratified.grounded part whole old grounded)
      · exact absurd grounded ungrounded
      · exact ⟨_, fun _ inner => absurd inner (not_partOf_of_index (deepens.shape isIndex))⟩

theorem of_deepens (stratified : before.Stratified) (deepens : before.Deepens after)
    (companions : after.CompanionsIndex) : after.Stratified where
  acyclic := by
    refine stratified.acyclic.of_partOf fun {part whole} isPart => ?_
    refine (deepens.parts part whole isPart).imp_right ?_
    rintro (⟨grounded, -⟩ | isIndex)
    · exact stratified.acc_of_grounded deepens grounded
    · exact ⟨_, fun _ inner => absurd inner (not_partOf_of_index (deepens.shape isIndex))⟩
  grounded part whole isPart grounded := by
    by_cases groundedBefore : before.Grounded whole
    · rcases deepens.parts part whole isPart with old | ⟨-, ungrounded⟩ | isIndex
      · exact deepens.grounded (stratified.grounded part whole old groundedBefore)
      · exact absurd groundedBefore ungrounded
      · exact .inr (.inr (deepens.shape isIndex))
    · refine deepens.grounded (deepens.declared part whole isPart ?_ groundedBefore)
      exact grounded.resolve_right fun shaped =>
        groundedBefore (.inr (shaped.imp deepens.shape_before deepens.shape_before))
  parents type node stored parent isParent := by
    obtain ⟨old, oldStored, rewrites⟩ := deepens.stored_before stored
    rw [rewrites.parent?_eq] at isParent
    exact deepens.shape (stratified.parents type old oldStored parent isParent)
  companions := companions

end Stratified

/-! ## Steps -/

theorem Homed.exists_of_bindsKey (intact : source.Intact) (unreserved : source.Unreserved)
    (homed : Homed source before) {key : CanonicalKey} {type : TypeRef}
    (bound : before.BindsKey key type) :
    ∃ form ref, before.types.get? type = some { form, symbol := some ref } ∧
      form.shape = key.shape := by
  obtain ⟨scope, name, ref, symbol, binds, named, stored, rfl⟩ := bound
  rcases homed.bound scope name ref binds with old | ⟨isNew, _, again, isName⟩
  · obtain ⟨text, isText⟩ := intact.names scope name ref old
    cases Option.mem_unique (homed.names name text isText) named
    exact absurd key.reserved_name (unreserved _ (mem_boundNames old isText))
  · cases Option.mem_unique stored again
    obtain ⟨form, _, other, declares, -, -, otherNamed, shaped⟩ :=
      homed.homes ref symbol isNew stored
    rw [isName] at otherNamed
    have same := CanonicalKey.shape_eq_of_name_eq (Option.mem_unique otherNamed named)
    exact ⟨form, ref, declares, shaped.trans same⟩

theorem not_grounded_of_anonymous {type : TypeRef} {form : TypeForm}
    (stored : before.types.get? type = some { form, symbol := none })
    (plain : form.shape ≠ .domain ∧ form.shape ≠ .index) : ¬before.Grounded type := by
  rintro (⟨_, _, named⟩ | shaped | shaped)
  · cases (node_unique stored named).2
  all_goals
    obtain ⟨node, again, isShape⟩ := shape_eq_ok_iff.mp shaped
    cases Option.mem_unique stored again
    first | exact plain.1 isShape | exact plain.2 isShape

theorem grounded_of_introduced {form : TypeForm}
    {finish : TypeForm → TypeForm} {part : TypeRef}
    (named : ∀ part ∈ (finish form).constituents, before.Named part)
    (parts : ∀ element, (finish form).element? = some element →
      ∀ part ∈ (finish form).children, part = element ∨ ∃ rank, before.rank? part = some rank)
    (noDomain : form.shape ≠ .domain) (rewrites : form.Rewrites (finish form))
    (member : part ∈ (finish form).children) : before.Grounded part := by
  cases composite : (finish form).element? with
  | none =>
      have noDomain := rewrites.shape_eq.trans_ne noDomain
      rw [TypeForm.children_eq_constituents composite noDomain] at member
      exact .inl (named part member)
  | some element =>
      rcases parts element composite part member with rfl | ⟨rank, ranked⟩
      · exact .inl (named part (TypeForm.mem_constituents_of_element? composite))
      · obtain ⟨_, _, _, stored⟩ := rank?_eq_some_iff.mp ranked
        exact .inr (.inl (shape_eq_ok_iff.mpr ⟨_, stored, rfl⟩))

theorem Step.deepens_of_introduce {scope : ScopeRef} {text : String}
    {fresh : TypeRef} {form : TypeForm} {finish : TypeForm → TypeForm} {position : Position}
    (stored : before.types.get? fresh = some { form, symbol := none })
    (retains : before.Retains after) (rewrites : form.Rewrites (finish form))
    (named : ∀ part ∈ (finish form).constituents, before.Named part)
    (introduces : before.Introduces scope text fresh finish position after)
    (bare : form.element? = none → finish form = form)
    (parts : ∀ element, (finish form).element? = some element →
      ∀ part ∈ (finish form).children, part = element ∨ ∃ rank, before.rank? part = some rank) :
    before.Deepens after where
  toRetains := retains
  parts part whole isPart := by
    rcases partOf_of_modify introduces.types isPart with old | ⟨rfl, node, again, member⟩
    · exact .inl old
    · cases Option.mem_unique stored again
      by_cases leaf : form.element? = none
      · exact .inl ⟨_, stored, bare leaf ▸ member⟩
      · have plain := TypeForm.shape_of_element? leaf
        exact .inr (.inl ⟨grounded_of_introduced named parts plain.1 rewrites member,
          not_grounded_of_anonymous stored plain⟩)
  declared part whole isPart namedAfter ungrounded := by
    by_cases isFresh : whole = fresh
    · subst isFresh
      obtain ⟨node, found, member⟩ := isPart
      cases Option.mem_unique (introduces.type_same stored) found
      refine grounded_of_introduced named parts ?_ rewrites member
      exact fun isDomain => ungrounded (.inr (.inl (shape_eq_ok_iff.mpr ⟨_, stored, isDomain⟩)))
    · obtain ⟨later, ref, found⟩ := namedAfter
      rw [introduces.type_other isFresh] at found
      exact absurd (.inl ⟨later, ref, found⟩) ungrounded

theorem CompanionsIndex.of_modify (indexed : before.CompanionsIndex)
    (retains : before.Retains after) {type : TypeRef} {node : TypeNode}
    {change : TypeNode → TypeNode} (stored : before.types.get? type = some node)
    (modified : before.types.modify type change = .ok after.types)
    (given : ∀ companion ∈ (change node).form.companion?, before.shape companion = .ok .index) :
    after.CompanionsIndex := by
  intro other later found companion isCompanion
  obtain ⟨old, oldStored, same⟩ := Arena.get?_eq_some_of_modify modified found
  split at same
  · rename_i isType
    subst same isType
    cases Option.mem_unique stored oldStored
    exact retains.shape (given companion isCompanion)
  · exact retains.shape (indexed other later (same ▸ oldStored) companion isCompanion)

/-- What takes in an element or is built over one is no domain, so the companions of domains go on
being index types. -/
theorem Step.companionsIndex (step : Step before after) (indexed : before.CompanionsIndex) :
    after.CompanionsIndex := by
  have retains := step.retains
  cases step with
  | intern | retype => exact indexed
  | reform stored rewrites modified bare =>
      refine indexed.of_modify retains stored modified fun companion isCompanion => ?_
      refine indexed _ _ stored companion ?_
      rwa [rewrites.companion?_eq fun leaf => ?_] at isCompanion
      obtain ⟨rank, same⟩ := bare leaf
      rw [same, TypeForm.companion?_withRank]
  | introduce stored rewrites _ _ _ _ _ introduces _ bare =>
      refine indexed.of_modify retains stored introduces.types fun companion isCompanion => ?_
      refine indexed _ _ stored companion ?_
      rwa [rewrites.companion?_eq fun leaf => by rw [bare leaf]] at isCompanion

section

variable (intact : source.Intact) (unreserved : source.Unreserved) (homed : Homed source before)
include intact unreserved homed

theorem Step.deepens_of_reform {type : TypeRef} {form : TypeForm}
    {change : TypeForm → TypeForm} {types : Arena .type TypeNode}
    (stored : before.types.get? type = some { form, symbol := none })
    (modified : before.types.modify type
      (fun node => { node with form := change node.form }) = .ok types)
    (retains : before.Retains { before with types })
    (bare : form.element? = none → ∃ rank, change form = form.withRank rank)
    (parts : ∀ part ∈ (change form).children,
      part ∈ form.children ∨ ∃ key, before.BindsKey key part) :
    before.Deepens { before with types } where
  toRetains := retains
  parts part whole isPart := by
    rcases partOf_of_modify modified isPart with old | ⟨rfl, node, again, member⟩
    · exact .inl old
    · cases Option.mem_unique stored again
      rcases parts part member with old | ⟨key, bound⟩
      · exact .inl ⟨_, stored, old⟩
      · cases composite : form.element? with
        | none =>
            obtain ⟨rank, same⟩ := bare composite
            rw [same, TypeForm.children_withRank] at member
            exact .inl ⟨_, stored, member⟩
        | some element =>
            obtain ⟨inner, ref, declares, -⟩ := homed.exists_of_bindsKey intact unreserved bound
            refine .inr (.inl ⟨.inl ⟨inner, ref, declares⟩, ?_⟩)
            have hasElement : form.element? ≠ none := by simp [composite]
            exact not_grounded_of_anonymous stored (TypeForm.shape_of_element? hasElement)
  declared _ _ _ named ungrounded := by
    obtain ⟨_, ref, found⟩ := named
    obtain ⟨old, oldStored⟩ := declared_of_modify modified found
    exact absurd (.inl ⟨old, ref, oldStored⟩) ungrounded

theorem Step.deepens (step : Step before after) : before.Deepens after := by
  have retains := step.retains
  cases step with
  | intern | retype =>
      exact { retains with
        parts := fun _ _ isPart => .inl isPart
        declared := fun _ _ _ named ungrounded => absurd (.inl named) ungrounded }
  | reform stored rewrites modified bare parts =>
      exact Step.deepens_of_reform intact unreserved homed stored modified retains bare parts
  | introduce stored rewrites named _ _ _ _ introduces _ bare parts =>
      exact Step.deepens_of_introduce stored retains rewrites named introduces bare parts

theorem CompanionStep.shape_of_settled (indexed : before.CompanionsIndex) {type : TypeRef}
    {rank : Nat} {parent : Option TypeRef} {companion canonical : TypeRef}
    {symbol : Option SymbolRef}
    (stored : before.types.get? type =
      some { form := .domain rank parent (some companion), symbol })
    (settled : canonical = companion ∨
      ∃ domain, before.BindsKey (.indexOfDomain domain) canonical) :
    before.shape canonical = .ok .index := by
  rcases settled with rfl | ⟨domain, bound⟩
  · exact indexed type _ stored canonical rfl
  · obtain ⟨form, ref, declares, shaped⟩ := homed.exists_of_bindsKey intact unreserved bound
    exact shape_eq_ok_iff.mpr ⟨_, declares, shaped⟩

theorem CompanionStep.partOf (indexed : before.CompanionsIndex) (step : CompanionStep before after)
    {part whole : TypeRef} (isPart : after.PartOf part whole) :
    before.PartOf part whole ∨ before.shape part = .ok .index := by
  cases step with
  | intern => exact .inl isPart
  | introduce stored _ _ introduces =>
      rcases partOf_of_modify introduces.types isPart with old | ⟨rfl, node, again, member⟩
      · exact .inl old
      · cases Option.mem_unique stored again
        cases member
  | recompanion stored modified settled =>
      rcases partOf_of_modify modified isPart with old | ⟨rfl, node, again, member⟩
      · exact .inl old
      · cases Option.mem_unique stored again
        rcases List.mem_append.mp member with isParent | isCanonical
        · exact .inl ⟨_, stored, List.mem_append_left _ isParent⟩
        · rw [List.mem_singleton.mp isCanonical]
          exact .inr (CompanionStep.shape_of_settled intact unreserved homed indexed stored settled)

theorem CompanionStep.companionsIndex (indexed : before.CompanionsIndex)
    (step : CompanionStep before after) : after.CompanionsIndex := by
  have retains := step.retains
  cases step with
  | intern => exact indexed
  | introduce stored _ _ introduces =>
      exact indexed.of_modify retains stored introduces.types (by exact nofun)
  | recompanion stored modified settled =>
      refine indexed.of_modify retains stored modified fun companion isCompanion => ?_
      rw [← Option.some.inj isCompanion]
      exact CompanionStep.shape_of_settled intact unreserved homed indexed stored settled

theorem CompanionStep.deepens (indexed : before.CompanionsIndex)
    (step : CompanionStep before after) : before.Deepens after := by
  have retains := step.retains
  have parts := fun part whole (isPart : after.PartOf part whole) =>
    (step.partOf intact unreserved homed indexed isPart).imp_right
      (Or.inr (a := before.Grounded part ∧ ¬before.Grounded whole))
  cases step with
  | intern =>
      exact { retains with
        parts
        declared := fun _ _ _ named ungrounded => absurd (.inl named) ungrounded }
  | introduce stored _ _ introduces =>
      exact Step.deepens_of_introduce stored retains (.same _) (by exact nofun) introduces
        (fun _ => rfl) (by exact nofun)
  | recompanion stored modified settled =>
      refine { retains with parts, declared := ?_ }
      rintro part whole - ⟨form, ref, found⟩ ungrounded
      obtain ⟨old, oldStored⟩ := declared_of_modify modified found
      exact absurd (.inl ⟨old, ref, oldStored⟩) ungrounded

end

/-! ## Passes -/

/-- `current` is `source` after passes, as far as cycles are concerned. -/
structure StaysStratified (source current : Program) : Prop where
  homed : Homed source current
  stratified : current.Stratified

theorem staysStratified_of_raw (acyclic : source.Acyclic) (raw : source.Raw) :
    StaysStratified source source :=
  ⟨homed_refl source, stratified_of_raw acyclic raw⟩

namespace StaysStratified

variable (intact : source.Intact) (unreserved : source.Unreserved)
  (stays : StaysStratified source before)
include intact unreserved stays

theorem steps (steps : Steps before after) : StaysStratified source after := by
  induction steps with
  | refl => exact stays
  | tail _ step induction =>
      obtain ⟨homed, stratified⟩ := induction
      exact ⟨homed.step intact step,
        stratified.of_deepens (step.deepens intact unreserved homed)
          (step.companionsIndex stratified.companions)⟩

theorem companionSteps (steps : CompanionSteps before after) : StaysStratified source after := by
  induction steps with
  | refl => exact stays
  | tail _ step induction =>
      obtain ⟨homed, stratified⟩ := induction
      exact ⟨homed.companionStep step,
        stratified.of_deepens (step.deepens intact unreserved homed stratified.companions)
          (step.companionsIndex intact unreserved homed stratified.companions)⟩

theorem passes (passes : Relation.ReflTransGen Passes before after) :
    StaysStratified source after := by
  induction passes with
  | refl => exact stays
  | tail _ passes induction =>
      obtain ⟨pass, own, final, ends, rfl⟩ := passes
      exact (Pass.steps ends).elim (induction.steps intact unreserved)
        (induction.companionSteps intact unreserved)

theorem partOf_of_companionSteps (steps : CompanionSteps before after) {part whole : TypeRef}
    (isPart : after.PartOf part whole) :
    before.PartOf part whole ∨ before.shape part = .ok .index := by
  induction steps with
  | refl => exact .inl isPart
  | tail steps step induction =>
      obtain ⟨homed, stratified⟩ := stays.companionSteps intact unreserved steps
      rcases step.partOf intact unreserved homed stratified.companions isPart with old | isIndex
      · exact induction old
      · exact .inr ((CompanionSteps.retains steps).shape_before isIndex)

end StaysStratified

end Program

end StructuralTypes
