import StructuralTypes.Proofs.CompanionSteps

/-! Which declarations a run has added: each declares the type that it was made for, under the
name of a key of its shape, and belongs to the scope of the home of that type. Unlike where a
declaration stands this asks nothing of the program as written, and it holds after runs of either
walk, whether they succeed or fail on the way. -/

namespace StructuralTypes.Program

variable {source before middle after : Program}

/-! ## Names -/

theorem CompanionStep.names_kept (step : CompanionStep before after) {name : NameRef}
    {text : String} (named : before.names.get? name = some text) :
    after.names.get? name = some text := by
  cases step with
  | intern other => exact NameTable.get?_intern_of_get? other named
  | introduce _ _ _ introduces => exact introduces.old_name named
  | recompanion => exact named

theorem Step.distinct (step : Step before after) (distinct : before.names.Distinct) :
    after.names.Distinct := by
  cases step with
  | intern other => exact NameTable.distinct_intern distinct other
  | introduce _ _ _ _ _ _ _ introduces =>
      rw [introduces.names]
      exact NameTable.distinct_intern distinct _
  | reform | retype => exact distinct

theorem Steps.distinct (steps : Steps before after) (distinct : before.names.Distinct) :
    after.names.Distinct := by
  induction steps with
  | refl => exact distinct
  | tail _ step induction => exact step.distinct induction

theorem declared_of_modify {type : TypeRef} {change : TypeForm → TypeForm}
    {types : Arena .type TypeNode}
    (modified : before.types.modify type
      (fun node => { node with form := change node.form }) = .ok types)
    {other : TypeRef} {form : TypeForm} {ref : SymbolRef}
    (stored : types.get? other = some { form, symbol := some ref }) :
    ∃ old, before.types.get? other = some { form := old, symbol := some ref } := by
  obtain ⟨⟨old, symbol⟩, oldStored, same⟩ := Arena.get?_eq_some_of_modify modified stored
  split at same <;> cases same <;> exact ⟨_, oldStored⟩

/-! ## Invariant -/

/-- `current` is `source` with declarations that belong to homes. -/
structure Homed (source current : Program) : Prop where
  continues : Continues source current
  names : ∀ name text, source.names.get? name = some text → current.names.get? name = some text
  bound : ∀ scope name ref, current.Binds scope name ref → source.Binds scope name ref ∨
    source.symbols.get? ref = none ∧
      ∃ symbol, current.symbols.get? ref = some symbol ∧ symbol.name = name
  declared : ∀ type form ref, current.types.get? type = some { form, symbol := some ref } →
    (∃ old, source.types.get? type = some { form := old, symbol := some ref }) ∨
      source.symbols.get? ref = none ∧
        ∃ symbol, current.symbols.get? ref = some symbol ∧ symbol.type = type
  homes : ∀ ref symbol, source.symbols.get? ref = none →
    current.symbols.get? ref = some symbol → ∃ form home key,
      current.types.get? symbol.type = some { form, symbol := some ref } ∧
      current.Belongs form home ∧ symbol.scope = home.scope ∧
      current.names.get? symbol.name = some (CanonicalKey.name key) ∧ form.shape = key.shape

theorem homed_refl (source : Program) : Homed source source where
  continues := .refl source
  names _ _ named := named
  bound _ _ _ binds := .inl binds
  declared _ form _ stored := .inl ⟨form, stored⟩
  homes ref symbol missing stored := by
    rw [missing] at stored
    contradiction

namespace Homed

theorem of_continues (homed : Homed source before) (continues : Continues before after)
    (names : ∀ name text, before.names.get? name = some text →
      after.names.get? name = some text)
    (bound : ∀ scope name ref, after.Binds scope name ref → before.Binds scope name ref)
    (types : ∀ type form ref, after.types.get? type = some { form, symbol := some ref } →
      ∃ old, before.types.get? type = some { form := old, symbol := some ref })
    (symbols : ∀ ref symbol, source.symbols.get? ref = none →
      after.symbols.get? ref = some symbol → before.symbols.get? ref = some symbol) :
    Homed source after := by
  have kept : ∀ ref symbol, source.symbols.get? ref = none →
      before.symbols.get? ref = some symbol → after.symbols.get? ref = some symbol := by
    intro ref symbol isNew stored
    obtain ⟨_, found⟩ := continues.symbols ref symbol stored
    exact Option.mem_unique (symbols ref _ isNew found) stored ▸ found
  refine ⟨homed.continues.trans continues, ?_, ?_, ?_, ?_⟩
  · exact fun name text named => names name text (homed.names name text named)
  · intro scope name ref binds
    refine (homed.bound scope name ref (bound scope name ref binds)).imp_right ?_
    rintro ⟨isNew, symbol, stored, named⟩
    exact ⟨isNew, symbol, kept ref symbol isNew stored, named⟩
  · intro type form ref stored
    obtain ⟨old, oldStored⟩ := types type form ref stored
    refine (homed.declared type old ref oldStored).imp_right ?_
    rintro ⟨isNew, symbol, symbolStored, isType⟩
    exact ⟨isNew, symbol, kept ref symbol isNew symbolStored, isType⟩
  · intro ref symbol isNew stored
    obtain ⟨form, home, key, declares, belongs, isScope, named, shaped⟩ :=
      homed.homes ref symbol isNew (symbols ref symbol isNew stored)
    obtain ⟨later, found, recompanions⟩ := continues.types _ form ref declares
    exact ⟨later, home, key, found, continues.belongs recompanions belongs, isScope,
      names _ _ named, recompanions.shape_eq.trans shaped⟩

theorem introduce (homed : Homed source before) (continues : Continues before after)
    {fresh : TypeRef} {form : TypeForm} {finish : TypeForm → TypeForm} (home : Home)
    (key : CanonicalKey) {position : Position}
    (stored : before.types.get? fresh = some { form, symbol := none })
    (rewrites : form.Rewrites (finish form)) (belongs : before.Belongs (finish form) home)
    (introduces : before.Introduces home.scope key.name fresh finish position after)
    (shaped : form.shape = key.shape) : Homed source after := by
  have isNew := homed.continues.next_symbol
  refine ⟨homed.continues.trans continues, ?_, ?_, ?_, ?_⟩
  · exact fun name text named => introduces.old_name (homed.names name text named)
  · intro scope name ref binds
    rcases introduces.binds_cases binds with ⟨-, rfl, rfl⟩ | old
    · exact .inr ⟨isNew, _, introduces.new_symbol, rfl⟩
    · refine (homed.bound scope name ref old).imp_right ?_
      rintro ⟨missing, symbol, symbolStored, named⟩
      exact ⟨missing, symbol, introduces.old_symbol symbolStored, named⟩
  · intro type later ref found
    rcases introduces.type_cases stored found with ⟨rfl, -, isNext⟩ | old
    · cases isNext
      exact .inr ⟨isNew, _, introduces.new_symbol, rfl⟩
    · refine (homed.declared type later ref old).imp_right ?_
      rintro ⟨missing, symbol, symbolStored, isType⟩
      exact ⟨missing, symbol, introduces.old_symbol symbolStored, isType⟩
  · intro ref symbol missing found
    rw [introduces.symbols] at found
    rcases Arena.eq_next_or_get?_of_push found with ⟨rfl, rfl⟩ | old
    · exact ⟨finish form, home, key, introduces.type_same stored,
        continues.belongs (.same _) belongs, rfl, introduces.new_name,
        rewrites.shape_eq.trans shaped⟩
    · obtain ⟨inner, other, otherKey, declares, otherBelongs, isScope, named, otherShaped⟩ :=
        homed.homes ref symbol missing old
      obtain ⟨later, laterStored, recompanions⟩ := continues.types _ inner ref declares
      exact ⟨later, other, otherKey, laterStored, continues.belongs recompanions otherBelongs,
        isScope, introduces.old_name named, recompanions.shape_eq.trans otherShaped⟩

theorem step (intact : source.Intact) (homed : Homed source before) (step : Step before after) :
    Homed source after := by
  have continues := step.continues
  have names : ∀ name text, before.names.get? name = some text →
      after.names.get? name = some text := fun _ _ named => step.names_kept named
  cases step with
  | intern =>
      exact homed.of_continues continues names (fun _ _ _ binds => binds)
        (fun _ form _ stored => ⟨form, stored⟩) fun _ _ _ stored => stored
  | reform _ _ modified =>
      exact homed.of_continues continues names (fun _ _ _ binds => binds)
        (fun _ _ _ stored => declared_of_modify modified stored) fun _ _ _ stored => stored
  | introduce stored rewrites _ belongs _ _ _ introduces keyed =>
      obtain ⟨key, rfl, shaped⟩ := keyed
      exact homed.introduce continues _ key stored rewrites belongs introduces shaped
  | retype stored declares modified _ =>
      obtain ⟨_, isOld⟩ := homed.continues.variable_source intact stored declares
      refine homed.of_continues continues names (fun _ _ _ binds => binds)
        (fun _ form _ stored => ⟨form, stored⟩) fun ref symbol isNew found => ?_
      exact (Arena.get?_of_modify_of_ne modified (ne_of_new isOld isNew)).symm.trans found

theorem steps (intact : source.Intact) (homed : Homed source before) (steps : Steps before after) :
    Homed source after := by
  induction steps with
  | refl => exact homed
  | tail _ next induction => exact induction.step intact next

theorem companionStep (homed : Homed source before) (step : CompanionStep before after) :
    Homed source after := by
  have continues := step.continues
  have names : ∀ name text, before.names.get? name = some text →
      after.names.get? name = some text := fun _ _ named => step.names_kept named
  cases step with
  | intern =>
      exact homed.of_continues continues names (fun _ _ _ binds => binds)
        (fun _ form _ stored => ⟨form, stored⟩) fun _ _ _ stored => stored
  | introduce stored _ _ introduces keyed =>
      obtain ⟨domain, rfl⟩ := keyed
      exact homed.introduce continues .shared (.indexOfDomain domain) stored (.same _)
        (.leaf rfl) introduces rfl
  | recompanion _ modified =>
      exact homed.of_continues continues names (fun _ _ _ binds => binds)
        (fun _ _ _ stored => declared_of_modify modified stored) fun _ _ _ stored => stored

end Homed

end StructuralTypes.Program
