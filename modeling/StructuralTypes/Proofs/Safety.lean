import StructuralTypes.Proofs.Fitting
import StructuralTypes.Proofs.Guarding
import StructuralTypes.Proofs.Operations
import StructuralTypes.Proofs.Stock

/-! Passes that keep to what is there. Where all references of a program lead somewhere, its layout
is what requests have made of an empty one, and neither types nor blocks are parts of themselves, no
walk follows a reference to nothing, links a statement that has a place, or links one next to a
statement that has none. What can still end a walk is the bound on its depth. -/

namespace StructuralTypes

/-! ## Computations that fault at a limit -/

/-- Started in `before`, a computation ends well only where `good` holds, and comes to no fault but
that of a limit, and to this only where `cut` holds. -/
structure Guarded {ε σ α : Type} (good cut : σ → Prop) (computation : EStateM (Halt ε) σ α)
    (before : σ) : Prop where
  ends : ∀ value after, computation before = .ok value after → good after
  faults : ∀ fault after, computation before = .error (.fault fault) after →
    fault = .nestingLimit ∧ cut after

/-- Where `good` holds, a computation comes to no fault, and where it ends well `good` holds
again. -/
def Sustains {ε σ α : Type} (good : σ → Prop) (computation : EStateM (Halt ε) σ α) : Prop :=
  ∀ before, good before → Faultless computation before ∧
    ∀ value after, computation before = .ok value after → good after

section

variable {ε σ α β : Type} {good cut : σ → Prop} {before : σ}

theorem Guarded.mono {other : σ → Prop} {computation : EStateM (Halt ε) σ α}
    (guarded : Guarded good cut computation before) (implies : ∀ after, cut after → other after) :
    Guarded good other computation before where
  ends := guarded.ends
  faults fault after failed := (guarded.faults fault after failed).imp_right (implies after)

theorem Sustains.guarded {computation : EStateM (Halt ε) σ α} (sustains : Sustains good computation)
    (holds : good before) : Guarded good cut computation before where
  ends := (sustains before holds).2
  faults fault after failed := absurd failed ((sustains before holds).1 fault after)

theorem guarded_pure (holds : good before) (value : α) :
    Guarded good cut (pure value : EStateM (Halt ε) σ α) before where
  ends _ _ ran := (pure_eq_ok_iff.mp ran).2 ▸ holds
  faults _ _ failed := (pure_eq_error_iff.mp failed).elim

theorem Guarded.bind {first : EStateM (Halt ε) σ α} {rest : α → EStateM (Halt ε) σ β}
    (guarded : Guarded good cut first before)
    (later : ∀ value middle, first before = .ok value middle → good middle →
      Guarded good cut (rest value) middle) : Guarded good cut (first >>= rest) before where
  ends value after ran := by
    obtain ⟨answer, middle, ran, rest⟩ := bind_eq_ok_iff.mp ran
    exact (later answer middle ran (guarded.ends _ _ ran)).ends value after rest
  faults fault after failed := by
    rcases bind_eq_error_iff.mp failed with failed | ⟨answer, middle, ran, failed⟩
    · exact guarded.faults fault after failed
    · exact (later answer middle ran (guarded.ends _ _ ran)).faults fault after failed

theorem guarded_forM {action : α → EStateM (Halt ε) σ PUnit} {elements : List α}
    (holds : good before)
    (each : ∀ front element back middle, elements = front ++ element :: back →
      front.forM action before = .ok ⟨⟩ middle → good middle →
      Guarded good cut (action element) middle) :
    Guarded good cut (elements.forM action) before := by
  induction elements generalizing before with
  | nil => exact guarded_pure holds _
  | cons head rest induction =>
      refine (each [] head rest before rfl rfl holds).bind fun _ middle ran holds => ?_
      refine induction holds fun front element back inner split walked holds => ?_
      refine each (head :: front) element back inner (split ▸ rfl) ?_ holds
      exact bind_eq_ok_iff.mpr ⟨_, middle, ran, walked⟩

theorem Walk.guarded_ask {good cut : Walker σ → Prop} {before : Walker σ}
    {question : Program → Except Fault α} {rest : α → Walk ε σ β} {answer : α}
    (answered : question before.program = .ok answer)
    (later : Guarded good cut (rest answer) before) :
    Guarded good cut (Walk.ask question >>= rest) before := by
  have same : (Walk.ask question >>= rest) before = rest answer before :=
    bind_of_ok (Walk.ask_of_ok answered)
  exact ⟨fun value after ran => later.ends value after (same ▸ ran),
    fun fault after failed => later.faults fault after (same ▸ failed)⟩

end

/-! ## Walks that are cut off -/

namespace Traversal

variable {ε σ : Type}

inductive OverrunsWithin (traversal : Traversal ε σ) :
    (depth : Nat) → TypeRef → (before after : Walker σ) → Prop
  | limit {type : TypeRef} {state : Walker σ} : OverrunsWithin traversal 0 type state state
  | part {depth : Nat} {type part : TypeRef} {before middle inner after : Walker σ}
      {form : TypeForm} {front back : List TypeRef}
      (visited : traversal.visitType type before = .ok () middle)
      (found : middle.program.form type = .ok form)
      (parts : form.children = front ++ part :: back)
      (walked : front.forM (traversal.walkTypeWithin depth) middle = .ok () inner)
      (overruns : OverrunsWithin traversal depth part inner after) :
      OverrunsWithin traversal (depth + 1) type before after

inductive OverrunsAt (traversal : Traversal ε σ) (ref : StatementRef) (before after : Walker σ) :
    Prop
  | intro {inner : Walker σ} {statement : Statement} {declared : SymbolRef} {symbol : Symbol}
      (entered : traversal.enterStatement ref before = .ok () inner)
      (found : inner.program.statement ref = .ok statement)
      (declares : statement.declared? = some declared)
      (stored : inner.program.symbol declared = .ok symbol)
      (overruns : traversal.OverrunsWithin (traversal.nesting inner.program) symbol.type inner
        after)

def Overruns (traversal : Traversal ε σ) (before after : Walker σ) : Prop :=
  ∃ front ref back middle, before.program.preorder = .ok (front ++ ref :: back) ∧
    front.forM traversal.walkStatement before = .ok () middle ∧
    traversal.OverrunsAt ref middle after

def FaultsOnlyAtLimit (traversal : Traversal ε σ) (before : Walker σ) : Prop :=
  ∀ fault after, traversal.walkProgram before = .error (.fault fault) after →
    fault = .nestingLimit ∧ traversal.Overruns before after

/-- What a traversal reacts with sustains `good`, which says that all references lead somewhere and
that there are `count` types. -/
structure Guards (traversal : Traversal ε σ) (good : Walker σ → Prop) (order : List StatementRef)
    (count : Nat) : Prop where
  ranged : ∀ walker, good walker → walker.program.Ranged
  size : ∀ walker, good walker → walker.program.types.size = count
  known : ∀ walker, good walker → ∀ ref ∈ order, walker.program.Has ref
  enter : ∀ ref ∈ order, Sustains good (traversal.enterStatement ref)
  visit : ∀ type : TypeRef, type.index < count → Sustains good (traversal.visitType type)
  leave : ∀ ref ∈ order, Sustains good (traversal.leaveStatement ref)

namespace Guards

variable {traversal : Traversal ε σ} {good : Walker σ → Prop} {order : List StatementRef}
  {count : Nat} (guards : traversal.Guards good order count)
include guards

theorem has_iff {walker : Walker σ} (holds : good walker) {type : TypeRef} :
    walker.program.Has type ↔ type.index < count := by
  rw [← guards.size walker holds]
  rfl

theorem walkTypeWithin {depth : Nat} {type : TypeRef} (inside : type.index < count)
    {before : Walker σ} (holds : good before) :
    Guarded good (traversal.OverrunsWithin depth type before)
      (traversal.walkTypeWithin depth type) before := by
  induction depth generalizing type before with
  | zero =>
      refine ⟨fun _ _ ran => (Walk.fault_eq_ok_iff.mp ran).elim, fun fault after failed => ?_⟩
      cases failed
      exact ⟨rfl, .limit⟩
  | succ depth induction =>
      refine ((guards.visit type inside).guarded holds).bind fun _ middle visited holds => ?_
      obtain ⟨form, found⟩ := Program.exists_form ((guards.has_iff holds).mpr inside)
      refine Walk.guarded_ask found (guarded_forM holds ?_)
      intro front part back inner parts walked stillHolds
      have has := ((guards.ranged middle holds).of_form found).1 part (by simp [parts])
      exact (induction ((guards.has_iff holds).mp has) stillHolds).mono
        fun _ overruns => .part visited found parts walked overruns

theorem walkType {type : TypeRef} (inside : type.index < count) {before : Walker σ}
    (holds : good before) :
    Guarded good (traversal.OverrunsWithin (traversal.nesting before.program) type before)
      (traversal.walkType type) before :=
  have within := guards.walkTypeWithin inside holds
  ⟨within.ends, within.faults⟩

theorem walkStatement {ref : StatementRef} (member : ref ∈ order) {before : Walker σ}
    (holds : good before) :
    Guarded good (traversal.OverrunsAt ref before) (traversal.walkStatement ref) before := by
  refine ((guards.enter ref member).guarded holds).bind fun _ inner entered holds => ?_
  obtain ⟨statement, found⟩ := Program.exists_statement (guards.known inner holds ref member)
  refine Walk.guarded_ask found ?_
  cases declares : statement.declared? with
  | none => exact (guards.leave ref member).guarded holds
  | some declared =>
      have ranged := guards.ranged inner holds
      obtain ⟨symbol, stored, -, hasType, -⟩ :=
        ranged.exists_symbol (ranged.has_declared found declares)
      refine Walk.guarded_ask stored (Guarded.bind ?_ fun _ _ _ holds =>
        (guards.leave ref member).guarded holds)
      exact (guards.walkType ((guards.has_iff holds).mp hasType) holds).mono
        fun _ overruns => .intro entered found declares stored overruns

theorem faultsOnlyAtLimit {before : Walker σ} (listed : before.program.preorder = .ok order)
    (holds : good before) : traversal.FaultsOnlyAtLimit before := by
  have guarded : Guarded good (traversal.Overruns before) traversal.walkProgram before := by
    refine Walk.guarded_ask listed (guarded_forM holds ?_)
    intro front ref back middle split walked holds
    exact (guards.walkStatement (by simp [split]) holds).mono fun _ overruns =>
      ⟨front, ref, back, middle, split ▸ listed, walked, overruns⟩
  exact guarded.faults

end Guards

end Traversal

/-! ## Reading orders -/

namespace Program

variable {program : Program}

theorem Ranged.exists_preorder (ranged : program.Ranged)
    (unfolded : WellFounded program.layout.Nests) : ∃ order, program.preorder = .ok order := by
  have narrows : ∀ inner outer, program.layout.Nests inner outer →
      inner.index < program.layout.bodies.size ∧
        countBelow program.layout.Nests program.layout.bodies.size inner <
          countBelow program.layout.Nests program.layout.bodies.size outer := by
    intro inner outer nests
    obtain ⟨ref, -, placed, stored, block⟩ := id nests
    have inRange := ranged.statements ref placed stored
    rw [block] at inRange
    exact ⟨inRange, countBelow_lt unfolded inRange nests⟩
  exact ranged.orderly.exists_preorder narrows (countBelow_le _ _) ranged.roots

theorem lists_of_mem_preorder {order : List StatementRef} (listed : program.preorder = .ok order)
    {ref : StatementRef} (member : ref ∈ order) : ∃ body, program.layout.Lists body ref := by
  obtain ⟨-, body, content, -, stored, inOrder⟩ := Layout.reachable_of_mem_preorder listed member
  exact ⟨body, content, stored, inOrder⟩

theorem Ranged.has_of_mem_preorder (ranged : program.Ranged) {order : List StatementRef}
    (listed : program.preorder = .ok order) {ref : StatementRef} (member : ref ∈ order) :
    program.Has ref := by
  obtain ⟨body, lists⟩ := lists_of_mem_preorder listed member
  exact ranged.orderly.lt_size_of_lists lists

/-! ## Canonicalizing variables -/

theorem Resolves.extends {before after : Program} {ref : StatementRef}
    (resolves : before.Resolves ref after) : before.Extends after := by
  cases resolves with
  | declaration found declares stored adopts changed =>
      exact (adopts.advance (sound_refl before)).extension.trans (.setSymbolType changed)
  | other => exact .refl before

end Program

theorem guards_variableTypes {source : Program} (ranged : source.Ranged) (acyclic : source.Acyclic)
    {order : List StatementRef} (listed : source.preorder = .ok order) (nesting : Program → Nat) :
    Traversal.Guards { variableTypes .silent with nesting }
      (fun walker => source.Steps walker.program ∧ source.Extends walker.program) order
      source.types.size where
  ranged _ holds := ranged.steps holds.1
  size _ holds := holds.2.size
  known _ holds ref member :=
    (ranged.has_of_mem_preorder listed member).mono holds.1.retains.outsizes
  enter ref member before holds := by
    obtain ⟨steps, extension⟩ := holds
    have has := (ranged.has_of_mem_preorder listed member).mono steps.retains.outsizes
    refine ⟨faultless_enterStatement acyclic (ranged.steps steps) extension has, ?_⟩
    intro _ after ran
    have resolves := resolves_of_enterStatement ran
    exact ⟨steps.trans resolves.steps, extension.trans resolves.extends⟩
  visit _ _ before holds := ⟨faultless_pure _, fun _ _ ran => (pure_eq_ok_iff.mp ran).2 ▸ holds⟩
  leave _ _ before holds := ⟨faultless_pure _, fun _ _ ran => (pure_eq_ok_iff.mp ran).2 ▸ holds⟩

/-! ## Settling companions -/

/-- A run has come here from `source` by settling companions for statements in `order`. -/
def CompanionWalk.ComesFrom (source : Program) (order : List StatementRef)
    (walker : Walker CompanionWalk) : Prop :=
  source.CompanionSteps walker.program ∧
    ∀ statement scope, walker.own.current = some (statement, scope) → statement ∈ order

theorem guards_indexCompanions {source : Program} (ranged : source.Ranged)
    {order : List StatementRef} (listed : source.preorder = .ok order) (nesting : Program → Nat) :
    Traversal.Guards { indexCompanions with nesting } (CompanionWalk.ComesFrom source order) order
      source.types.size where
  ranged _ holds := ranged.companionSteps holds.1
  size _ holds := holds.1.retains.size
  known _ holds ref member :=
    (ranged.has_of_mem_preorder listed member).mono holds.1.retains.outsizes
  enter ref member before holds := by
    obtain ⟨steps, -⟩ := holds
    have has := (ranged.has_of_mem_preorder listed member).mono steps.retains.outsizes
    obtain ⟨scope, asked⟩ := (ranged.companionSteps steps).exists_statementScope? has
    refine ⟨Walk.faultless_ask asked (faultless_of_eq_ok rfl), fun _ after ran => ?_⟩
    simp only [indexCompanions, bind_eq_ok_iff, Walk.ask_eq_ok_iff, CompanionWalk.setCurrent,
      Walk.update, modify_eq_ok_iff] at ran
    obtain ⟨_, _, ⟨-, rfl⟩, rfl⟩ := ran
    refine ⟨steps, fun statement scope here => ?_⟩
    obtain ⟨_, -, same⟩ := Option.map_eq_some_iff.mp here
    exact (Prod.mk.inj same).1 ▸ member
  visit type inside before holds := by
    obtain ⟨steps, current⟩ := holds
    have has : before.program.Has type := Nat.lt_of_lt_of_eq inside steps.retains.size.symm
    refine ⟨faultless_visitType (ranged.companionSteps steps) has ?_, ?_⟩
    · intro statement scope here
      obtain ⟨body, content, stored, member⟩ :=
        Program.lists_of_mem_preorder listed (current statement scope here)
      obtain ⟨later, found, -, kept⟩ := steps.continues.layout.grows.bodies body content stored
      exact ⟨body, later, found, kept statement member⟩
    · intro _ after ran
      have ends : Ends (indexCompanions.visitType type before) after := .inl ⟨_, ran⟩
      refine ⟨steps.trans (takes_visitType type _ _ ends), ?_⟩
      rw [(attends_visitType type before after ends).1]
      exact current
  leave _ _ before holds := by
    refine ⟨faultless_of_eq_ok rfl, fun _ after ran => ?_⟩
    obtain rfl := modify_eq_ok_iff.mp ran
    refine ⟨holds.1, fun statement scope here => ?_⟩
    cases here

/-! ## Runs -/

/-- If all references of a program lead somewhere, its layout is what requests make, and neither its
types nor its blocks are parts of themselves, then canonicalizing its variables comes to no fault,
and neither does settling companions after that, however it has ended. So whatever is followed is
there, and what is linked has no place yet and goes next to something that has one. The walks may be
given any bounds on their depth, those that they have by themselves among them, and only where a
walk is cut off at its bound is there a fault, that of the bound. -/
theorem passes_fault_only_at_limit {source : Program} (inRange : source.InRange)
    (made : source.layout.Made) (acyclic : source.Acyclic)
    (unfolded : WellFounded source.layout.Nests) (own : Progress Unit) (nesting : Program → Nat) :
    Traversal.FaultsOnlyAtLimit { variableTypes .silent with nesting } ⟨source, own⟩ ∧
      ∀ resolved, Ends (Traversal.walkProgram { variableTypes .silent with nesting } ⟨source, own⟩)
          resolved → ∀ (deeper : Program → Nat) (tally : Tally),
        Traversal.FaultsOnlyAtLimit { indexCompanions with nesting := deeper }
          ⟨resolved.program, .start tally⟩ := by
  have ranged : source.Ranged := ⟨inRange, made.orderly⟩
  obtain ⟨order, listed⟩ := ranged.exists_preorder unfolded
  constructor
  · exact (guards_variableTypes ranged acyclic listed nesting).faultsOnlyAtLimit listed
      ⟨.refl, .refl source⟩
  · intro resolved ends deeper tally
    -- The bound on the depth is no part of what the traversal reacts with.
    have takes : Traversal.Takes Program.Step { variableTypes .silent with nesting } :=
      ⟨takes_variableTypes.enter, takes_variableTypes.visit, takes_variableTypes.leave⟩
    have steps : source.Steps resolved.program := takes.walkProgram _ _ ends
    obtain ⟨later, listedLater, -⟩ := steps.retains.preorder listed
    exact (guards_indexCompanions (ranged.steps steps) listedLater deeper).faultsOnlyAtLimit
      listedLater ⟨.refl, nofun⟩

def recordInBlockCalls : List Call :=
  [.addModule, .addExpression (.literal 0), .addType (.index ⟨0⟩),
    .addType (.domain 1 none (some ⟨7⟩)), .declareVar ⟨1⟩ "D" ⟨8⟩, .addBlock ⟨1⟩, .addType .nominal,
    .declareType ⟨2⟩ "R" ⟨9⟩, .addType (.sequence ⟨9⟩), .declareVar ⟨2⟩ "s" ⟨10⟩,
    .addType (.sequence ⟨1⟩), .addType (.tuple [⟨11⟩]), .declareVar ⟨1⟩ "t" ⟨12⟩]

def recordInBlockRequests : List Request :=
  [.addBody ⟨1⟩, .addBody ⟨2⟩, .addStatement { kind := .varDeclaration ⟨7⟩ }, .append ⟨1⟩ ⟨0⟩,
    .addBody ⟨3⟩, .addStatement { kind := .block ⟨2⟩ }, .append ⟨1⟩ ⟨1⟩,
    .addStatement { kind := .typeDeclaration ⟨8⟩ }, .append ⟨2⟩ ⟨2⟩,
    .addStatement { kind := .varDeclaration ⟨9⟩ }, .append ⟨2⟩ ⟨3⟩,
    .addStatement { kind := .varDeclaration ⟨10⟩ }, .append ⟨1⟩ ⟨4⟩]

/-- The domain is declared in the shared body, the sequence after its element and, once the tuple
has been refused, the companion before the domain. -/
theorem passes_fault_only_at_limit_of_record_in_block :
    ∃ (source : Program) (resolved : Walker (Progress Unit)) (completed : Walker CompanionWalk),
      (source.InRange ∧ source.layout.Made ∧ source.Acyclic ∧ WellFounded source.layout.Nests) ∧
      (∃ failure, (variableTypes .silent).walkProgram ⟨source, { journal := () }⟩ =
        .error (.failed failure) resolved) ∧
      indexCompanions.walkProgram ⟨resolved.program, .start {}⟩ = .ok () completed ∧
      completed.program.preorder = .ok [⟨7⟩, ⟨5⟩, ⟨0⟩, ⟨1⟩, ⟨2⟩, ⟨6⟩, ⟨3⟩, ⟨4⟩] ∧
      (variableTypes .silent).FaultsOnlyAtLimit ⟨source, { journal := () }⟩ ∧
      indexCompanions.FaultsOnlyAtLimit ⟨resolved.program, .start {}⟩ := by
  obtain ⟨source, isBuilt, inRange, requested, ⟨failure, resolved⟩, isFailed, completed,
      isCompleted, listed⟩ :
    ∃ source ∈ (layOut recordInBlockCalls).toOption, source.InRange ∧
      (recordInBlockRequests.foldlM Request.onLayout {}).toOption = some source.layout ∧
      ∃ failed ∈ failed? ((variableTypes .silent).walkProgram ⟨source, { journal := () }⟩),
      ∃ completed ∈ finished? (indexCompanions.walkProgram ⟨failed.2.program, .start {}⟩),
        completed.program.preorder.toOption =
          some [⟨7⟩, ⟨5⟩, ⟨0⟩, ⟨1⟩, ⟨2⟩, ⟨6⟩, ⟨3⟩, ⟨4⟩] := by
    decide +kernel
  have built := Except.toOption_eq_some_iff.mp isBuilt
  have made : source.layout.Made := ⟨_, Except.toOption_eq_some_iff.mp requested⟩
  have acyclic := Program.acyclic_of_laidOut (laidOut_of_layOut built)
  have unfolded : WellFounded source.layout.Nests :=
    (Program.forested_of_history (Program.history_of_layOut built)).unfolded
  have failed := failed?_eq_some_iff.mp isFailed
  obtain ⟨first, second⟩ := passes_fault_only_at_limit inRange made acyclic unfolded
    { journal := () } (variableTypes .silent).nesting
  exact ⟨source, resolved, completed, ⟨inRange, made, acyclic, unfolded⟩, ⟨failure, failed⟩,
    finished?_eq_some_iff.mp isCompleted, Except.toOption_eq_some_iff.mp listed, first,
    second resolved (.inr ⟨failure, failed⟩) companionNesting {}⟩

end StructuralTypes
