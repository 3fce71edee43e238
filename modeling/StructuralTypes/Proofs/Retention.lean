import Mathlib.Data.List.Chain
import StructuralTypes.Proofs.CompanionSteps

/-! What no canonicalization takes away. Whatever is run on a program, in whatever order and
whether it succeeds or fails, the program has all that it had: the runs take the same small steps,
and each of these only adds to a program. -/

namespace StructuralTypes

/-! ## Orders without additions -/

theorem Supplements.filter_eq {α : Type} {added : α → Prop} {elements more : List α}
    (supplements : Supplements added elements more) {old : α → Bool}
    (kept : ∀ element ∈ elements, old element = true)
    (dropped : ∀ element, added element → old element = false) : more.filter old = elements := by
  induction supplements with
  | nil => rfl
  | keep _ induction =>
      rw [List.forall_mem_cons] at kept
      rw [List.filter_cons_of_pos kept.1, induction kept.2]
  | put new _ induction =>
      rw [List.filter_cons_of_neg (by simp [dropped _ new]), induction kept]

def Layout.RestoredFrom (before after : Layout) : Prop :=
  ∀ body content, before.bodies.get? body = some content →
    (∀ ref ∈ content.order, (before.statements.get? ref).isSome) →
    ∃ later, after.bodies.get? body = some later ∧
      later.order.filter (fun ref => (before.statements.get? ref).isSome) = content.order

theorem Layout.Extends.restoredFrom {before after : Layout} (extension : before.Extends after) :
    before.RestoredFrom after := by
  intro body content stored held
  obtain ⟨later, laterStored, -, supplements⟩ := extension.orders body content stored
  refine ⟨later, laterStored, supplements.filter_eq held ?_⟩
  rintro ref ⟨isNew, -⟩
  rw [isNew]
  rfl

namespace Program

variable {before middle after : Program}

/-! ## What is kept -/

def DeclaresVariable (program : Program) (ref : SymbolRef) : Prop :=
  ∃ statement placed, program.layout.statements.get? statement = some placed ∧
    placed.statement.kind = .varDeclaration ref

/-- `after` has all that `before` has. No symbol has changed but for the type of a variable that a
statement declares, and no form but for elements, recorded domains, ranks that were not explicit
and companions. -/
structure Retains (before after : Program) : Prop extends Continues before after where
  names : ∀ name text, before.names.get? name = some text → after.names.get? name = some text
  size : after.types.size = before.types.size
  forms : ∀ type node, before.types.get? type = some node →
    ∃ later, after.types.get? type = some later ∧ node.form.Rewrites later.form
  expressions : after.expressions = before.expressions
  modules : after.modules = before.modules
  retyped : ∀ ref symbol, before.symbols.get? ref = some symbol →
    after.symbols.get? ref = some symbol ∨ before.DeclaresVariable ref

namespace Retains

theorem refl (program : Program) : Retains program program where
  toContinues := .refl program
  names _ _ named := named
  size := rfl
  forms _ node stored := ⟨node, stored, .same _⟩
  expressions := rfl
  modules := rfl
  retyped _ _ stored := .inl stored

theorem trans (first : Retains before middle) (second : Retains middle after) :
    Retains before after where
  toContinues := first.toContinues.trans second.toContinues
  names name text named := second.names name text (first.names name text named)
  size := second.size.trans first.size
  forms type node stored := by
    obtain ⟨between, found, once⟩ := first.forms type node stored
    obtain ⟨later, laterFound, again⟩ := second.forms type between found
    exact ⟨later, laterFound, once.trans again⟩
  expressions := second.expressions.trans first.expressions
  modules := second.modules.trans first.modules
  retyped ref symbol stored := by
    rcases first.retyped ref symbol stored with kept | declares
    · refine (second.retyped ref symbol kept).imp_right ?_
      -- A statement that is new in between declares a type.
      rintro ⟨statement, placed, found, declares⟩
      rcases first.layout.synthesized statement placed found with old | ⟨_, _, rfl⟩
      · exact ⟨statement, placed, old, declares⟩
      · cases declares
    · exact .inr declares

theorem of_extends (extension : Extends before after) (scopes : before.KeepsScopes after)
    (symbols : ∀ ref symbol, before.symbols.get? ref = some symbol →
      after.symbols.get? ref = some symbol) : Retains before after where
  toContinues := extension.continues scopes
  names := extension.names
  size := extension.size
  forms type node stored := by
    obtain ⟨later, holder, found, rewrites, -⟩ := extension.types type node.form node.symbol stored
    exact ⟨_, found, rewrites⟩
  expressions := extension.expressions
  modules := extension.modules
  retyped ref symbol stored := .inl (symbols ref symbol stored)

theorem typeName? (retains : Retains before after) {type : TypeRef} {text : String}
    (named : before.typeName? type = .ok (some text)) :
    after.typeName? type = .ok (some text) := by
  obtain ⟨form, ref, symbol, stored, symbolStored, isText⟩ := typeName?_eq_some_iff.mp named
  obtain ⟨later, found, -⟩ := retains.types type form ref stored
  obtain ⟨_, symbolFound⟩ := retains.symbols ref symbol symbolStored
  exact typeName?_eq_some_iff.mpr
    ⟨later, ref, _, found, symbolFound, retains.names _ _ isText⟩

end Retains

theorem Step.retains (step : Step before after) : Retains before after := by
  have continues := step.continues
  cases step with
  | intern text =>
      exact .of_extends (.intern before text) (keepsScopes_of_eq rfl) fun _ _ stored => stored
  | @reform type form change types stored rewrites modified =>
      refine { Retains.refl before with
        toContinues := continues, size := Arena.size_of_modify modified, forms := ?_ }
      intro other node found
      dsimp only
      rw [Arena.get?_of_modify modified, found]
      split
      · rename_i same
        cases Option.mem_unique stored (same ▸ found)
        exact ⟨_, rfl, rewrites⟩
      · exact ⟨node, rfl, .same _⟩
  | introduce stored rewrites _ _ _ scopeStored free introduces =>
      exact .of_extends (introduces.extends stored rewrites scopeStored free)
        (keepsScopes_of_bind introduces.scopes) fun _ _ => introduces.old_symbol
  | @retype ref placed var type symbols stored declares modified =>
      refine { Retains.refl before with toContinues := continues, retyped := ?_ }
      intro other symbol found
      by_cases same : var = other
      · exact .inr ⟨ref, placed, stored, same ▸ declares⟩
      · exact .inl ((Arena.get?_of_modify_of_ne modified same).trans found)

theorem Steps.retains (steps : Steps before after) : Retains before after := by
  induction steps with
  | refl => exact .refl before
  | tail _ step induction => exact induction.trans step.retains

theorem CompanionStep.retains (step : CompanionStep before after) : Retains before after := by
  cases step with
  | intern text =>
      exact .of_extends (.intern before text) (keepsScopes_of_eq rfl) fun _ _ stored => stored
  | introduce stored scopeStored free introduces =>
      exact .of_extends (introduces.extends stored (.same _) scopeStored free)
        (keepsScopes_of_bind introduces.scopes) fun _ _ => introduces.old_symbol
  | recompanion stored modified =>
      exact .of_extends (.changeForm stored (by exact .domain (.inl rfl) rfl)
        (fun _ => by exact .domain) (fun _ found => .inr found) modified)
        (keepsScopes_of_eq rfl) fun _ _ stored => stored

theorem CompanionSteps.retains (steps : CompanionSteps before after) : Retains before after := by
  induction steps with
  | refl => exact .refl before
  | tail _ step induction => exact induction.trans step.retains

end Program

/-! ## What can be run -/

inductive Builder where
  | array
  | domain
  | tuple
  | sequence
  | index (lookupScope : ScopeRef)
  | composite
  | indexOrSelf (lookupScope : ScopeRef)
  deriving DecidableEq, Repr

def Builder.run {τ : Type} (hook : SequenceHook τ) (type : TypeRef) : Builder → Canon τ TypeRef
  | .array => Canon.array hook type
  | .domain => Canon.domain type
  | .tuple => Canon.tuple type
  | .sequence => Canon.sequence hook type
  | .index lookupScope => Canon.index type lookupScope
  | .composite => Canon.composite hook type
  | .indexOrSelf lookupScope => Canon.indexOrSelf type lookupScope

inductive Course where
  | program
  | statement (ref : StatementRef)
  | type (type : TypeRef)
  deriving DecidableEq, Repr

def Traversal.walk {ε σ : Type} (traversal : Traversal ε σ) : Course → Walk ε σ Unit
  | .program => traversal.walkProgram
  | .statement ref => traversal.walkStatement ref
  | .type type => traversal.walkType type

/-- One call of a canonicalization: of a single type for a statement and in a scope, or a walk. -/
inductive Pass where
  | build (builder : Builder) (statement : StatementRef) (scope : ScopeRef) (type : TypeRef)
  | variableTypes (course : Course)
  | indexCompanions (course : Course)
  deriving DecidableEq, Repr

def Pass.run : Pass → Walk Failure CompanionWalk Unit
  | .build builder statement scope type => do
      let _ ← CompanionWalk.within statement scope (builder.run .silent type)
  | .variableTypes course =>
      Walk.focus CompanionWalk.toProgress (fun own progress => { own with toProgress := progress })
        ((StructuralTypes.variableTypes .silent).walk course)
  | .indexCompanions course => StructuralTypes.indexCompanions.walk course

def Program.Passes (before after : Program) : Prop :=
  ∃ pass : Pass, ∃ own final, Ends (pass.run ⟨before, own⟩) final ∧ final.program = after

/-! ## What a run takes -/

section

variable {before after : Session Unit}

theorem ComposesTo.steps {type canonical : TypeRef}
    (composes : ComposesTo before after type canonical) : before.program.Steps after.program := by
  rcases composes with ⟨_, _, -, -, -, same⟩ | ⟨-, canonicalizes⟩
  · rw [same]
  · exact canonicalizes.steps

theorem ruled_elements (depth : Nat) :
    Ruled (Canon.elementWith (Canon.compositeWithin .silent depth)) :=
  ruled_elementWith fun _ _ _ _ => compositeWithin_eq_ok

theorem interruptible_elements (depth : Nat) :
    Interruptible (Canon.elementWith (Canon.compositeWithin .silent depth)) :=
  interruptible_elementWith fun _ _ _ _ => compositeWithin_eq_failed

theorem steps_of_array {type : TypeRef} (ends : Ends (Canon.array .silent type before) after) :
    before.program.Steps after.program := by
  change Ends (Canon.arrayWith _ type before) after at ends
  rcases ends with ⟨_, ran⟩ | ⟨_, ran⟩
  · exact (arrayWith_eq_ok (ruled_elements _) ran).2.2.steps
  · exact arrayWith_eq_failed (ruled_elements _) (interruptible_elements _) ran

theorem steps_of_sequence {type : TypeRef}
    (ends : Ends (Canon.sequence .silent type before) after) :
    before.program.Steps after.program := by
  change Ends (Canon.sequenceWith .silent _ type before) after at ends
  rcases ends with ⟨_, ran⟩ | ⟨_, ran⟩
  · exact (sequenceWith_eq_ok (ruled_elements _) ran).2.2.steps
  · exact sequenceWith_eq_failed (ruled_elements _) (interruptible_elements _) ran

theorem steps_of_index {type : TypeRef} {lookupScope : ScopeRef}
    (ends : Ends (Canon.index type lookupScope before) after) :
    before.program.Steps after.program := by
  rcases ends with ⟨_, ran⟩ | ⟨_, ran⟩
  · exact (index_eq_ok ran).2.2.steps
  · rw [index_eq_failed ran]

theorem Builder.steps {builder : Builder} {type : TypeRef}
    (ends : Ends (builder.run .silent type before) after) : before.program.Steps after.program := by
  cases builder with
  | array => exact steps_of_array ends
  | sequence => exact steps_of_sequence ends
  | index => exact steps_of_index ends
  | domain =>
      rcases ends with ⟨_, ran⟩ | ⟨_, ran⟩
      · exact (domain_eq_ok ran before.scope).2.2.steps
      · rw [domain_eq_failed ran]
  | tuple =>
      rcases ends with ⟨_, ran⟩ | ⟨_, ran⟩
      · exact (tuple_eq_ok ran before.scope).2.2.steps
      · rw [tuple_eq_failed ran]
  | composite =>
      change Ends (Canon.compositeWithin .silent _ type before) after at ends
      rcases ends with ⟨_, ran⟩ | ⟨_, ran⟩
      · exact (compositeWithin_eq_ok ran).2.steps
      · exact compositeWithin_eq_failed ran
  | indexOrSelf lookupScope =>
      rcases ends_bind_iff.mp ends with ⟨_, asked⟩ | ⟨shape, _, asked, rest⟩
      · exact (Canon.ask_eq_failed_iff.mp asked).elim
      · obtain ⟨-, rfl⟩ := Canon.ask_eq_ok_iff.mp asked
        split at rest
        · exact steps_of_index rest
        · rcases rest with ⟨_, ran⟩ | ⟨_, ran⟩
          · rw [(pure_eq_ok_iff.mp ran).2]
          · exact (pure_eq_error_iff.mp ran).elim

end

theorem Traversal.Takes.walk {ε σ : Type} {change : Program → Program → Prop}
    {traversal : Traversal ε σ} (takes : traversal.Takes change) (course : Course) :
    (traversal.walk course).Takes change := by
  cases course with
  | program => exact takes.walkProgram
  | statement ref => exact takes.walkStatement ref
  | type type => exact takes.walkType type

theorem Pass.steps {pass : Pass} {before after : Walker CompanionWalk}
    (ends : Ends (pass.run before) after) :
    before.program.Steps after.program ∨ before.program.CompanionSteps after.program := by
  cases pass with
  | build builder statement scope type =>
      refine .inl ?_
      rcases ends_bind_iff.mp ends with ⟨failure, ran⟩ | ⟨canonical, middle, ran, rest⟩
      · obtain ⟨_, within, rfl⟩ := Walk.ends_focus (.inr ⟨failure, ran⟩)
        obtain ⟨inner, built, rfl⟩ := Canon.ends_within within
        exact Builder.steps built
      · obtain ⟨_, within, rfl⟩ := Walk.ends_focus (.inl ⟨canonical, ran⟩)
        obtain ⟨inner, built, rfl⟩ := Canon.ends_within within
        rcases rest with ⟨_, done⟩ | ⟨_, done⟩
        · rw [← (pure_eq_ok_iff.mp done).2]
          exact Builder.steps built
        · exact (pure_eq_error_iff.mp done).elim
  | variableTypes course =>
      unfold Pass.run at ends
      obtain ⟨inner, walked, rfl⟩ := Walk.ends_focus ends
      exact .inl (takes_variableTypes.walk course _ _ walked)
  | indexCompanions course => exact .inr (takes_indexCompanions.walk course _ _ ends)

/-- Of the programs that passes go through, each retains all that any of those before it has. -/
theorem passes_retain {programs : List Program} (passes : programs.IsChain Program.Passes) :
    programs.Pairwise fun earlier later =>
      earlier.Retains later ∧ earlier.layout.RestoredFrom later.layout := by
  have retains : programs.IsChain Program.Retains := by
    refine passes.imp ?_
    rintro before after ⟨pass, own, final, ends, rfl⟩
    exact (Pass.steps ends).elim (fun steps => steps.retains) fun steps => steps.retains
  have : IsTrans Program Program.Retains := ⟨fun _ _ _ => .trans⟩
  exact (List.isChain_iff_pairwise.mp retains).imp fun kept => ⟨kept, kept.layout.restoredFrom⟩

def sequenceBesideTupleCalls : List Call :=
  [.addModule, .addType (.sequence ⟨1⟩), .declareVar ⟨1⟩ "s" ⟨7⟩, .addType (.sequence ⟨1⟩),
    .addType (.tuple [⟨8⟩]), .declareVar ⟨1⟩ "t" ⟨9⟩]

/-- The walk over the variables fails at the tuple, whose component is then canonicalized. -/
theorem passes_retain_after_failure :
    ∃ source failed final : Program, layOut sequenceBesideTupleCalls = .ok source ∧
      [source, failed, final].IsChain Program.Passes ∧
      [source, failed, final].Pairwise fun earlier later =>
        earlier.Retains later ∧ earlier.layout.RestoredFrom later.layout := by
  obtain ⟨source, isBuilt, ⟨failure, failed⟩, isFailed, final, isFinal, -⟩ :
    ∃ source ∈ (layOut sequenceBesideTupleCalls).toOption,
      ∃ failed ∈ failed? ((Pass.variableTypes .program).run ⟨source, .start {}⟩),
        ∃ final ∈ finished? ((Pass.build .sequence failed.1.statement ⟨2⟩ ⟨8⟩).run failed.2),
          final.program.isNamed ⟨8⟩ = .ok false := by
    decide +kernel
  have chain : [source, failed.program, final.program].IsChain Program.Passes := by
    refine .cons_cons ⟨_, _, _, .inr ⟨failure, failed?_eq_some_iff.mp isFailed⟩, rfl⟩ ?_
    exact .cons_cons ⟨_, _, _, .inl ⟨(), finished?_eq_some_iff.mp isFinal⟩, rfl⟩ (.singleton _)
  exact ⟨source, _, _, Except.toOption_eq_some_iff.mp isBuilt, chain, passes_retain chain⟩

end StructuralTypes
