import StructuralTypes.Proofs.Grounding

/-! Passes leave no reference without an entry. What types are made of, the types of symbols and
what statements declare stay stored, declared types keep names that can be read, and statements
that settling companions adds declare index types. -/

namespace StructuralTypes.Program

variable {source before after : Program}

/-! ## One change -/

theorem Retains.stored (retains : before.Retains after) {type : TypeRef}
    (stored : ∃ node, before.types.get? type = some node) :
    ∃ node, after.types.get? type = some node := by
  obtain ⟨node, found⟩ := stored
  obtain ⟨later, laterFound, -⟩ := retains.forms type node found
  exact ⟨later, laterFound⟩

/-- What is read of a program that had a reading order has one, too, and what was there before was
read before. -/
theorem Retains.preorder (retains : before.Retains after) {order : List StatementRef}
    (listed : before.preorder = .ok order) :
    ∃ later, after.preorder = .ok later ∧ ∀ ref ∈ later, ∀ placed,
      before.layout.statements.get? ref = some placed → ref ∈ order := by
  obtain ⟨later, laterListed, sources⟩ := retains.layout.preorder listed
  refine ⟨later, ?_, fun ref member placed stored => (sources ref member).resolve_right ?_⟩
  · rw [Program.preorder, roots, retains.modules]
    exact laterListed
  · rintro ⟨missing, -⟩
    rw [missing] at stored
    contradiction

theorem Grounded.stored {type : TypeRef} (grounded : before.Grounded type) :
    ∃ node, before.types.get? type = some node := by
  rcases grounded with ⟨_, _, stored⟩ | shaped | shaped
  · exact ⟨_, stored⟩
  all_goals
    obtain ⟨node, stored, -⟩ := shape_eq_ok_iff.mp shaped
    exact ⟨node, stored⟩

theorem Deepens.parts_stored (deepens : before.Deepens after) (referents : before.ReferentsStored)
    {part whole : TypeRef} (isPart : after.PartOf part whole) :
    ∃ node, after.types.get? part = some node := by
  refine deepens.stored ?_
  rcases deepens.parts part whole isPart with old | ⟨grounded, -⟩ | isIndex
  · exact referents.parts part whole old
  · exact grounded.stored
  · exact Grounded.stored (.inr (.inr isIndex))

namespace ReferentsStored

theorem of_deepens (referents : before.ReferentsStored) (deepens : before.Deepens after)
    (symbols : after.symbols = before.symbols) (layout : after.layout = before.layout) :
    after.ReferentsStored where
  parts _ _ isPart := deepens.parts_stored referents isPart
  typed ref symbol stored := deepens.stored (referents.typed ref symbol (symbols ▸ stored))
  symbols ref placed declared stored declares :=
    symbols ▸ referents.symbols ref placed declared (layout ▸ stored) declares

theorem introduce (referents : before.ReferentsStored) (deepens : before.Deepens after)
    {scope : ScopeRef}
    {text : String} {fresh : TypeRef} {node : TypeNode} {finish : TypeForm → TypeForm}
    {position : Position} (stored : before.types.get? fresh = some node)
    (introduces : before.Introduces scope text fresh finish position after) :
    after.ReferentsStored where
  parts _ _ isPart := deepens.parts_stored referents isPart
  typed ref symbol found := by
    rw [introduces.symbols] at found
    rcases Arena.eq_next_or_get?_of_push found with ⟨-, rfl⟩ | old
    · exact deepens.stored ⟨node, stored⟩
    · exact deepens.stored (referents.typed ref symbol old)
  symbols ref placed declared found declares := by
    obtain ⟨body, statements⟩ := introduces.new_statement
    rw [statements] at found
    rcases Arena.eq_next_or_get?_of_push found with ⟨-, rfl⟩ | old
    · cases declares
      exact ⟨_, introduces.new_symbol⟩
    · obtain ⟨symbol, symbolStored⟩ := referents.symbols ref placed declared old declares
      exact ⟨symbol, introduces.old_symbol symbolStored⟩

section

variable (intact : source.Intact) (unreserved : source.Unreserved) (homed : Homed source before)
  (referents : before.ReferentsStored)
include intact unreserved homed referents

theorem step (step : Step before after) : after.ReferentsStored := by
  have deepens := step.deepens intact unreserved homed
  cases step with
  | intern | reform => exact referents.of_deepens deepens rfl rfl
  | introduce stored _ _ _ _ _ _ introduces => exact referents.introduce deepens stored introduces
  | @retype _ _ var type symbols stored declares modified taken =>
      refine { referents with typed := ?_, symbols := ?_ }
      · intro ref symbol found
        obtain ⟨old, oldStored, same⟩ := Arena.get?_eq_some_of_modify modified found
        split at same
        · subst same
          rcases taken with ⟨own, ownStored, rfl⟩ | ⟨key, bound⟩
          · exact referents.typed var own ownStored
          · obtain ⟨form, _, declared, -⟩ := homed.exists_of_bindsKey intact unreserved bound
            exact ⟨_, declared⟩
        · exact referents.typed ref symbol (same ▸ oldStored)
      · intro ref placed declared placedStored declares
        obtain ⟨symbol, symbolStored⟩ := referents.symbols ref placed declared placedStored declares
        exact Arena.exists_get?_of_lt_size
          (Arena.size_of_modify modified ▸ Arena.lt_size_of_get? symbolStored)

theorem companionStep (indexed : before.CompanionsIndex) (step : CompanionStep before after) :
    after.ReferentsStored := by
  have deepens := step.deepens intact unreserved homed indexed
  cases step with
  | intern | recompanion => exact referents.of_deepens deepens rfl rfl
  | introduce stored _ _ introduces => exact referents.introduce deepens stored introduces

end

end ReferentsStored

/-! ## Runs -/

/-- `current` is `source` after some of a run, with all that it refers to. -/
structure StaysStored (source current : Program) : Prop where
  homed : Homed source current
  referents : current.ReferentsStored
  indexed : current.CompanionsIndex

namespace StaysStored

theorem refl (referents : source.ReferentsStored) (indexed : source.CompanionsIndex) :
    StaysStored source source :=
  ⟨homed_refl source, referents, indexed⟩

section

variable (intact : source.Intact) (unreserved : source.Unreserved)
  (stays : StaysStored source before)
include intact unreserved stays

theorem steps (steps : Steps before after) : StaysStored source after := by
  induction steps with
  | refl => exact stays
  | tail _ step induction =>
      obtain ⟨homed, referents, indexed⟩ := induction
      exact ⟨homed.step intact step, referents.step intact unreserved homed step,
        step.companionsIndex indexed⟩

theorem companionSteps (steps : CompanionSteps before after) : StaysStored source after := by
  induction steps with
  | refl => exact stays
  | tail _ step induction =>
      obtain ⟨homed, referents, indexed⟩ := induction
      exact ⟨homed.companionStep step, referents.companionStep intact unreserved homed indexed step,
        step.companionsIndex intact unreserved homed indexed⟩

theorem acyclic_of_companionSteps (acyclic : before.Acyclic) (steps : CompanionSteps before after) :
    after.Acyclic := by
  induction steps with
  | refl => exact acyclic
  | @tail between after steps step induction =>
      obtain ⟨homed, -, indexed⟩ := stays.companionSteps intact unreserved steps
      refine induction.of_partOf fun {part whole} isPart => ?_
      refine (step.partOf intact unreserved homed indexed isPart).imp_right fun isIndex => ?_
      exact ⟨_, fun _ inner => absurd inner (not_partOf_of_index (step.retains.shape isIndex))⟩

end

theorem exists_typeName? (wellFormed : source.WellFormed) (stays : StaysStored source before)
    {type : TypeRef} (named : before.Named type) :
    ∃ text, before.typeName? type = .ok (some text) := by
  obtain ⟨homed, -, -⟩ := stays
  obtain ⟨form, ref, stored⟩ := named
  have readable : ∃ symbol text, before.symbols.get? ref = some symbol ∧
      before.names.get? symbol.name = some text := by
    rcases homed.declared type form ref stored with ⟨old, oldStored⟩ | ⟨isNew, symbol, found, -⟩
    · obtain ⟨symbol, text, symbolStored, isName, -⟩ := wellFormed.declared type old ref oldStored
      obtain ⟨_, found⟩ := homed.continues.symbols ref symbol symbolStored
      exact ⟨_, text, found, homed.names _ _ isName⟩
    · obtain ⟨_, _, key, -, -, -, isName, -⟩ := homed.homes ref symbol isNew found
      exact ⟨symbol, key.name, found, isName⟩
  obtain ⟨symbol, text, found, isName⟩ := readable
  exact ⟨text, typeName?_eq_some_iff.mpr ⟨form, ref, symbol, stored, found, isName⟩⟩

end StaysStored

theorem CompanionSteps.statement_cases (steps : CompanionSteps before after) {ref : StatementRef}
    {placed : Placed} (stored : after.layout.statements.get? ref = some placed) :
    before.layout.statements.get? ref = some placed ∨ ∃ declared symbol,
      placed.statement = .synthesizedType declared ∧
      after.symbols.get? declared = some symbol ∧ after.shape symbol.type = .ok .index := by
  induction steps with
  | refl => exact .inl stored
  | @tail between after steps step induction =>
      have retains := step.retains
      have kept : between.layout.statements.get? ref = some placed →
          before.layout.statements.get? ref = some placed ∨ ∃ declared symbol,
            placed.statement = .synthesizedType declared ∧
            after.symbols.get? declared = some symbol ∧
            after.shape symbol.type = .ok .index := by
        refine fun old => (induction old).imp_right ?_
        rintro ⟨declared, symbol, isSynthesized, found, isIndex⟩
        exact ⟨declared, symbol, isSynthesized, step.symbol_kept found, retains.shape isIndex⟩
      cases step with
      | intern | recompanion => exact kept stored
      | introduce anonymous _ _ introduces =>
          obtain ⟨body, statements⟩ := introduces.new_statement
          rw [statements] at stored
          rcases Arena.eq_next_or_get?_of_push stored with ⟨-, rfl⟩ | old
          · exact .inr ⟨_, _, rfl, introduces.new_symbol,
              shape_eq_ok_iff.mpr ⟨_, introduces.type_same anonymous, rfl⟩⟩
          · exact kept old

theorem completed_of_index {program : Program} {type : TypeRef}
    (isIndex : program.shape type = .ok .index) : program.Completed type := by
  obtain ⟨⟨form, symbol⟩, stored, shaped⟩ := shape_eq_ok_iff.mp isIndex
  intro part reaches
  cases reaches with
  | self =>
      intro rank parent companion holder found
      cases Option.mem_unique stored found
      cases shaped
  | child found member => exact absurd ⟨_, found, member⟩ (not_partOf_of_index isIndex)

section

variable (intact : source.Intact) (unreserved : source.Unreserved)
include intact unreserved

theorem StaysStored.settling (ref : StatementRef) : Settling (StaysStored source) ref := by
  intro before type after stays visits
  refine ⟨stays.companionSteps intact unreserved visits.companionSteps, ?_⟩
  cases visits with
  | passed companioned => exact companioned
  | @settled _ _ _ _ _ _ text _ _ stored anonymous _ settles recorded =>
      have different := ne_of_shape_ne stored anonymous (by simp [TypeForm.shape])
      have storedMiddle := (settles.type_other different).trans stored
      refine companioned_of_recorded storedMiddle ?_ recorded
      cases settles with
      | created _ _ _ introduces => exact ⟨_, _, introduces.type_same anonymous⟩
      | reused bound found =>
          have interned := stays.companionSteps intact unreserved
            (.single (.intern (CanonicalKey.indexOfDomain text).name))
          obtain ⟨form, ref, declares, -⟩ := interned.homed.exists_of_bindsKey intact unreserved
            ⟨_, _, _, _, bound, NameTable.get?_intern _ _, found, rfl⟩
          exact ⟨form, ref, declares⟩

/-- Once companions have been settled for all statements, what a statement declares has a type
whose companions are settled, also if it was added on the way. -/
theorem StaysStored.completed (stays : StaysStored source before) {order later : List StatementRef}
    (listed : before.preorder = .ok order) (completes : CompletesAll before order after)
    (listedAfter : after.preorder = .ok later) {ref : StatementRef} (member : ref ∈ later)
    {statement : Statement} {declared : SymbolRef} {symbol : Symbol}
    (found : after.statement ref = .ok statement) (declares : statement.declared? = some declared)
    (stored : after.symbols.get? declared = some symbol) : after.Completed symbol.type := by
  obtain ⟨-, -, completed⟩ := completes.completed_of_settling
    (fun ref _ => StaysStored.settling intact unreserved ref) stays
  have steps := completes.companionSteps
  obtain ⟨body, placed⟩ := Layout.statement_eq_ok_iff.mp found
  -- What was added on the way declares index types, which reach nothing else.
  rcases steps.statement_cases placed with old | ⟨other, entry, rfl, otherStored, isIndex⟩
  · obtain ⟨more, moreListed, sources⟩ := (CompanionSteps.retains steps).preorder listed
    cases Except.ok.inj (moreListed.symm.trans listedAfter)
    obtain ⟨entry, entryStored⟩ := stays.referents.symbols ref _ declared old declares
    cases Option.mem_unique stored (steps.symbol_kept entryStored)
    exact completed ref (sources ref member _ old) statement declared symbol
      (Layout.statement_eq_ok_iff.mpr ⟨body, old⟩) declares entryStored
  · cases declares
    cases Option.mem_unique stored otherStored
    exact completed_of_index isIndex

end

end StructuralTypes.Program
