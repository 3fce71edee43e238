import StructuralTypes.Proofs.Texts
import StructuralTypes.Walk.Recording

/-! Walks that a script stops. A script logs a line for each event and may change the program then.
One that fails after some line has logged and changed what the same script without the failure has
by then, since a walk goes by nothing but the program as the steps so far have left it. -/

namespace StructuralTypes

/-! ## Calls -/

inductive Event where
  | enter (ref : StatementRef)
  | visit (type : TypeRef)
  | leave (ref : StatementRef)
  deriving DecidableEq, Repr

def Event.line : Event → Program → Except Fault String
  | .enter ref => fun program => return "pre " ++ (← program.statementText ref)
  | .visit type => fun program => return "type " ++ (← program.typeText type)
  | .leave ref => fun program => return "post " ++ (← program.statementText ref)

/-- One call of a script, with the walker that it leaves. -/
structure Moment (ρ : Type) where
  event : Event
  left : Walker (Log ρ)

section

variable {ρ : Type} {step : Nat → ρ → Edit ρ}

/-- Calls one after the other, from one walker to another. Each logs the line of its event, about
the program as it finds it, and then makes the step of its number. -/
inductive Logged (step : Nat → ρ → Edit ρ) :
    Walker (Log ρ) → List (Moment ρ) → Walker (Log ρ) → Prop
  | nil {walker : Walker (Log ρ)} : Logged step walker [] walker
  | cons {before after : Walker (Log ρ)} {event : Event} {line : String} {own : ρ}
      {program : Program} {moments : List (Moment ρ)}
      (written : event.line before.program = .ok line)
      (stepped : step before.own.lines.size before.own.own before.program = .ok own program)
      (rest : Logged step ⟨program, ⟨before.own.lines.push line, own⟩⟩ moments after) :
      Logged step before (⟨event, ⟨program, ⟨before.own.lines.push line, own⟩⟩⟩ :: moments) after

namespace Logged

variable {before middle after : Walker (Log ρ)} {moments more : List (Moment ρ)}

theorem append (first : Logged step before moments middle)
    (second : Logged step middle more after) : Logged step before (moments ++ more) after := by
  induction first with
  | nil => exact second
  | cons written stepped _ induction => exact .cons written stepped (induction second)

theorem size_eq (logged : Logged step before moments after) :
    after.own.lines.size = before.own.lines.size + moments.length := by
  induction logged with
  | nil => rfl
  | cons _ _ _ induction =>
      rw [induction, Array.size_push, List.length_cons]
      omega

theorem isPrefix (logged : Logged step before moments after) :
    before.own.lines.toList <+: after.own.lines.toList := by
  induction logged with
  | nil => exact List.prefix_refl _
  | cons _ _ _ induction =>
      rw [Array.toList_push] at induction
      exact (List.prefix_append _ _).trans induction

theorem lines_eq (logged : Logged step before moments after) {index : Nat} {moment : Moment ρ}
    (found : moments[index]? = some moment) :
    moment.left.own.lines.toList =
      after.own.lines.toList.take (before.own.lines.size + index + 1) := by
  induction logged generalizing index with
  | nil => cases found
  | cons _ _ rest induction =>
      cases index with
      | zero =>
          cases found
          exact List.prefix_iff_eq_take.mp rest.isPrefix |>.trans (by simp)
      | succ index =>
          rw [induction found, Array.size_push]
          congr 1
          omega

end Logged

/-! ## Where a walk is stopped -/

/-- The moments account for a run, and for what stops after a line of some number: that does the
same unless the number is that of one of the moments, and fails right after that moment if it is. -/
structure Accounts {α : Type} (step : Nat → ρ → Edit ρ) (stopped : Nat → Walk Nat (Log ρ) α)
    (before : Walker (Log ρ)) (value : α) (after : Walker (Log ρ)) (moments : List (Moment ρ)) :
    Prop where
  logged : Logged step before moments after
  passes : ∀ number, number < before.own.lines.size ∨ after.own.lines.size ≤ number →
    stopped number before = .ok value after
  stops : ∀ index moment, moments[index]? = some moment →
    stopped (before.own.lines.size + index) before =
      .error (.failed (before.own.lines.size + index)) moment.left

section

variable {α β : Type} {before middle after : Walker (Log ρ)}

theorem accounts_of_unchanged {stopped : Nat → Walk Nat (Log ρ) α} {value : α}
    (unchanged : ∀ number, stopped number before = .ok value before) :
    Accounts step stopped before value before [] where
  logged := .nil
  passes number _ := unchanged number
  stops _ _ found := by cases found

theorem Accounts.bind {first : Nat → Walk Nat (Log ρ) α} {rest : Nat → α → Walk Nat (Log ρ) β}
    {value : α} {answer : β} {moments more : List (Moment ρ)}
    (accounts : Accounts step first before value middle moments)
    (later : Accounts step (fun number => rest number value) middle answer after more) :
    Accounts step (fun number => first number >>= rest number) before answer after
      (moments ++ more) where
  logged := accounts.logged.append later.logged
  passes number outside := by
    have size := accounts.logged.size_eq
    have sizeLater := later.logged.size_eq
    refine (bind_of_ok (accounts.passes number ?_)).trans (later.passes number ?_)
    · exact outside.imp_right fun beyond => by omega
    · exact outside.imp_left fun early => by omega
  stops index moment found := by
    rcases Nat.lt_or_ge index moments.length with early | late
    · rw [List.getElem?_append_left early] at found
      exact bind_of_error (accounts.stops index moment found)
    · obtain ⟨inner, rfl⟩ := Nat.exists_eq_add_of_le late
      rw [List.getElem?_append_right late, Nat.add_sub_cancel_left] at found
      rw [← Nat.add_assoc, ← accounts.logged.size_eq]
      exact (bind_of_ok (accounts.passes _ (.inr (Nat.le_add_right _ _)))).trans
        (later.stops inner moment found)

theorem accounts_ask {question : Program → Except Fault α} {answer : α}
    (answered : question before.program = .ok answer) :
    Accounts step (fun _ => Walk.ask question) before answer before [] :=
  accounts_of_unchanged fun _ => Walk.ask_of_ok answered

end

/-! ## One line -/

theorem record_of_stepped {event : Event} {before : Walker (Log ρ)} {line : String} {own : ρ}
    {program : Program} {failAt : Option Nat} (written : event.line before.program = .ok line)
    (stepped : step before.own.lines.size before.own.own before.program = .ok own program) :
    Script.record { step, failAt } event.line before =
      if failAt = some before.own.lines.size then
        .error (.failed before.own.lines.size) ⟨program, ⟨before.own.lines.push line, own⟩⟩
      else .ok () ⟨program, ⟨before.own.lines.push line, own⟩⟩ := by
  have asked : (Walk.ask event.line : Walk Nat (Log ρ) String) before = .ok line before :=
    Walk.ask_of_ok written
  have performed : (Walk.perform (step before.own.lines.size before.own.own) :
      Walk Nat (Log ρ) ρ) ⟨before.program, ⟨before.own.lines.push line, before.own.own⟩⟩ =
        .ok own ⟨program, ⟨before.own.lines.push line, before.own.own⟩⟩ := by
    simp only [Walk.perform, stepped]
  have ran : Script.runStep { step, failAt } before.own.lines.size
      ⟨before.program, ⟨before.own.lines.push line, before.own.own⟩⟩ =
        .ok () ⟨program, ⟨before.own.lines.push line, own⟩⟩ :=
    bind_of_ok performed
  refine (bind_of_ok asked).trans ((bind_of_ok ran).trans ?_)
  by_cases fails : failAt = some before.own.lines.size
  · simp only [if_pos fails]
    rfl
  · simp only [if_neg fails]
    rfl

theorem exists_of_record_eq_ok {event : Event} {before after : Walker (Log ρ)}
    (ran : Script.record { step } event.line before = .ok () after) :
    ∃ line own program, event.line before.program = .ok line ∧
      step before.own.lines.size before.own.own before.program = .ok own program ∧
      after = ⟨program, ⟨before.own.lines.push line, own⟩⟩ := by
  simp only [Script.record, Script.runStep, bind_eq_ok_iff, Walk.ask_eq_ok_iff, get_eq_ok_iff,
    Walk.update, modify_eq_ok_iff, Walk.perform_eq_ok_iff] at ran
  rcases ran with ⟨line, _, ⟨written, rfl⟩, _, _, ⟨rfl, rfl⟩, _, _, rfl, _, _, ⟨_, _, ⟨rfl, rfl⟩,
    own, _, ⟨program, stepped, rfl⟩, rfl⟩, finished⟩
  obtain ⟨-, rfl⟩ := pure_eq_ok_iff.mp finished
  exact ⟨line, own, program, written, stepped, rfl⟩

theorem accounts_of_record (event : Event) {before after : Walker (Log ρ)}
    (ran : Script.record { step } event.line before = .ok () after) :
    Accounts step (fun number => Script.record { step, failAt := some number } event.line)
      before () after [⟨event, after⟩] := by
  obtain ⟨line, own, program, written, stepped, rfl⟩ := exists_of_record_eq_ok ran
  refine ⟨.cons written stepped .nil, fun number outside => ?_, fun index moment found => ?_⟩
  · have different : some number ≠ some before.own.lines.size := by
      rw [Array.size_push] at outside
      intro same
      cases same
      omega
    exact (record_of_stepped written stepped).trans (if_neg different)
  · cases index with
    | zero =>
        cases found
        exact (record_of_stepped written stepped).trans (if_pos rfl)
    | succ index => cases found

/-! ## What a walk logs -/

/-- The moments of a walk into a type: its own, and then those of the parts that it has once it has
been reacted to. -/
inductive TypeRecounts : TypeRef → List (Moment ρ) → Prop
  | visit {type : TypeRef} {left : Walker (Log ρ)} {form : TypeForm}
      {segments : List (List (Moment ρ))} (found : left.program.form type = .ok form)
      (parts : List.Forall₂ TypeRecounts form.children segments) :
      TypeRecounts type (⟨.visit type, left⟩ :: segments.flatten)

/-- The moments of a walk over a statement: entering it, those of the type of what it declares by
then, if it declares something, and leaving it. -/
inductive StatementRecounts (ref : StatementRef) : List (Moment ρ) → Prop
  | plain {entered left : Walker (Log ρ)} {statement : Statement}
      (found : entered.program.statement ref = .ok statement)
      (silent : statement.declared? = none) :
      StatementRecounts ref [⟨.enter ref, entered⟩, ⟨.leave ref, left⟩]
  | declaration {entered left : Walker (Log ρ)} {statement : Statement} {declared : SymbolRef}
      {symbol : Symbol} {moments : List (Moment ρ)}
      (found : entered.program.statement ref = .ok statement)
      (declares : statement.declared? = some declared)
      (stored : entered.program.symbol declared = .ok symbol)
      (types : TypeRecounts symbol.type moments) :
      StatementRecounts ref (⟨.enter ref, entered⟩ :: (moments ++ [⟨.leave ref, left⟩]))

theorem accounts_of_forM {α : Type} {recounts : α → List (Moment ρ) → Prop}
    {action : α → Walk Nat (Log ρ) PUnit} {stopped : Nat → α → Walk Nat (Log ρ) PUnit}
    (each : ∀ element before after, action element before = .ok ⟨⟩ after → ∃ moments,
      Accounts step (fun number => stopped number element) before ⟨⟩ after moments ∧
        recounts element moments)
    {elements : List α} {before after : Walker (Log ρ)}
    (ran : elements.forM action before = .ok ⟨⟩ after) :
    ∃ segments : List (List (Moment ρ)),
      Accounts step (fun number => elements.forM (stopped number)) before ⟨⟩ after
        segments.flatten ∧
      List.Forall₂ recounts elements segments := by
  induction elements generalizing before with
  | nil =>
      obtain ⟨-, rfl⟩ := pure_eq_ok_iff.mp ran
      exact ⟨[], accounts_of_unchanged fun _ => rfl, .nil⟩
  | cons head rest induction =>
      obtain ⟨_, middle, first, later⟩ := bind_eq_ok_iff.mp ran
      obtain ⟨moments, accounts, recounted⟩ := each head before middle first
      obtain ⟨segments, accountsLater, recountedLater⟩ := induction later
      exact ⟨moments :: segments, accounts.bind accountsLater, .cons recounted recountedLater⟩

variable {bound : Nat} {before after : Walker (Log ρ)}

theorem accounts_of_walkTypeWithin {depth : Nat} {type : TypeRef}
    (ran : (Script.traversal { step } bound).walkTypeWithin depth type before = .ok () after) :
    ∃ moments,
      Accounts step (fun number =>
        (Script.traversal { step, failAt := some number } bound).walkTypeWithin depth type)
        before () after moments ∧
      TypeRecounts type moments := by
  induction depth generalizing type before after with
  | zero => cases ran
  | succ depth induction =>
      simp only [Traversal.walkTypeWithin, bind_eq_ok_iff, Walk.ask_eq_ok_iff] at ran
      obtain ⟨_, _, visited, form, middle, ⟨found, rfl⟩, walked⟩ := ran
      obtain ⟨segments, accounts, recounted⟩ :=
        accounts_of_forM (fun _ _ _ ran => induction ran) walked
      have visits := accounts_of_record (.visit type) visited
      exact ⟨_, visits.bind ((accounts_ask found).bind accounts), .visit found recounted⟩

theorem accounts_of_walkStatement {ref : StatementRef}
    (ran : (Script.traversal { step } bound).walkStatement ref before = .ok () after) :
    ∃ moments,
      Accounts step (fun number =>
        (Script.traversal { step, failAt := some number } bound).walkStatement ref)
        before () after moments ∧
      StatementRecounts ref moments := by
  simp only [Traversal.walkStatement, bind_eq_ok_iff, Walk.ask_eq_ok_iff] at ran
  obtain ⟨_, _, entering, statement, entered, ⟨found, rfl⟩, ran⟩ := ran
  have enters := accounts_of_record (.enter ref) entering
  cases declares : statement.declared? with
  | none =>
      rw [declares] at ran
      have leaves := accounts_of_record (.leave ref) ran
      refine ⟨[⟨.enter ref, entered⟩, ⟨.leave ref, after⟩], ?_, .plain found declares⟩
      refine enters.bind ((accounts_ask found).bind ?_)
      rw [declares]
      exact leaves
  | some declared =>
      simp only [declares, bind_eq_ok_iff, Walk.ask_eq_ok_iff] at ran
      obtain ⟨symbol, entered, ⟨stored, rfl⟩, _, middle, walked, leaving⟩ := ran
      obtain ⟨moments, accounts, recounted⟩ := accounts_of_walkTypeWithin walked
      have leaves := accounts_of_record (.leave ref) leaving
      refine ⟨⟨.enter ref, entered⟩ :: (moments ++ [⟨.leave ref, after⟩]), ?_,
        .declaration found declares stored recounted⟩
      refine enters.bind ((accounts_ask found).bind ?_)
      simp only [declares]
      exact (accounts_ask stored).bind (accounts.bind leaves)

theorem accounts_of_walkProgram
    (ran : (Script.traversal { step } bound).walkProgram before = .ok () after) :
    ∃ order segments,
      Accounts step (fun number =>
        (Script.traversal { step, failAt := some number } bound).walkProgram) before () after
        segments.flatten ∧
      before.program.preorder = .ok order ∧ List.Forall₂ StatementRecounts order segments := by
  simp only [Traversal.walkProgram, bind_eq_ok_iff, Walk.ask_eq_ok_iff] at ran
  obtain ⟨order, _, ⟨listed, rfl⟩, walked⟩ := ran
  obtain ⟨segments, accounts, recounted⟩ :=
    accounts_of_forM (fun _ _ _ ran => accounts_of_walkStatement ran) walked
  exact ⟨order, segments, (accounts_ask listed).bind accounts, listed, recounted⟩

end

/-! ## Walks that come to an end -/

def Event.Meets (program : Program) : Event → Prop
  | .enter ref | .leave ref => program.Has ref
  | .visit type => program.Has type

def stepped {ρ : Type} (step : Nat → ρ → Edit ρ) (start : Walker ρ) : (count : Nat) → Walker ρ
  | 0 => start
  | count + 1 =>
      let before := stepped step start count
      match step count before.own before.program with
      | .ok own program => ⟨program, own⟩
      | .error _ program => { before with program }

/-- A script of `count` steps, none of which faults or takes entries away. At each point, all
references lead somewhere, and neither types nor iterations are parts of themselves. -/
structure KeepsReadable {ρ : Type} (step : Nat → ρ → Edit ρ) (start : Walker ρ) (count : Nat) :
    Prop where
  quiet : ∀ number, count ≤ number → ∀ own program,
    ∃ later, step number own program = .ok later program
  succeeds : ∀ number < count, ∃ later program,
    step number (stepped step start number).own (stepped step start number).program =
      .ok later program
  outsizes : ∀ number < count,
    (stepped step start (number + 1)).program.Outsizes (stepped step start number).program
  inRange : ∀ number ≤ count, (stepped step start number).program.InRange
  older : ∀ number ≤ count, (stepped step start number).program.IteratesOlder
  acyclic : ∀ number ≤ count, (stepped step start number).program.Acyclic

section

variable {ρ : Type} {step : Nat → ρ → Edit ρ} {start : Walker ρ} {count : Nat}

namespace KeepsReadable

variable (readable : KeepsReadable step start count)
include readable

theorem step_eq (number : Nat) :
    step number (stepped step start number).own (stepped step start number).program =
      .ok (stepped step start (number + 1)).own (stepped step start (number + 1)).program := by
  have ran : ∃ later program, step number (stepped step start number).own
      (stepped step start number).program = .ok later program := by
    rcases Nat.lt_or_ge number count with early | done
    · exact readable.succeeds number early
    · exact (readable.quiet number done _ _).imp fun _ ran => ⟨_, ran⟩
  obtain ⟨later, program, ran⟩ := ran
  rw [stepped, ran]

theorem program_of_le {number : Nat} (done : count ≤ number) :
    (stepped step start number).program = (stepped step start count).program := by
  induction number, done using Nat.le_induction with
  | base => rfl
  | succ number done induction =>
      obtain ⟨later, ran⟩ :=
        readable.quiet number done (stepped step start number).own
          (stepped step start number).program
      rw [stepped, ran]
      exact induction

theorem has_of_le {entity : Entity} {ref : Ref entity} {number later : Nat}
    (has : (stepped step start number).program.Has ref) (longer : number ≤ later) :
    (stepped step start later).program.Has ref := by
  induction later, longer using Nat.le_induction with
  | base => exact has
  | succ later _ induction =>
      rcases Nat.lt_or_ge later count with early | done
      · exact induction.mono (readable.outsizes later early)
      · rw [readable.program_of_le (Nat.le_succ_of_le done)]
        rwa [readable.program_of_le done] at induction

theorem always {property : Program → Prop}
    (early : ∀ number ≤ count, property (stepped step start number).program) (number : Nat) :
    property (stepped step start number).program := by
  rcases Nat.le_total number count with atMost | done
  · exact early number atMost
  · exact readable.program_of_le done ▸ early count (Nat.le_refl _)

theorem exists_line {number : Nat} {event : Event}
    (meets : event.Meets (stepped step start number).program) :
    ∃ line, event.line (stepped step start number).program = .ok line := by
  have inRange := readable.always readable.inRange number
  have older := readable.always readable.older number
  have acyclic := readable.always readable.acyclic number
  cases event with
  | enter ref =>
      obtain ⟨text, written⟩ := Program.exists_statementText inRange older acyclic meets
      exact Except.exists_bind written ⟨_, rfl⟩
  | visit type =>
      obtain ⟨text, written⟩ := Program.exists_typeText inRange older acyclic meets
      exact Except.exists_bind written ⟨_, rfl⟩
  | leave ref =>
      obtain ⟨text, written⟩ := Program.exists_statementText inRange older acyclic meets
      exact Except.exists_bind written ⟨_, rfl⟩

end KeepsReadable

/-- There is room to walk into the type after so many steps: for one level with each step that is to
come, and for all the types after that; or, when no step is to come, for what is below the type. -/
def RoomAfter (step : Nat → ρ → Edit ρ) (start : Walker ρ) (count depth number : Nat)
    (type : TypeRef) : Prop :=
  count - number + (stepped step start count).program.types.size < depth ∨
    count ≤ number ∧ (stepped step start count).program.Roomy depth type

theorem RoomAfter.later {depth number more : Nat} {type : TypeRef}
    (room : RoomAfter step start count depth number type) (longer : number ≤ more) :
    RoomAfter step start count depth more type := by
  rcases room with steps | ⟨done, roomy⟩
  · exact .inl (by omega)
  · exact .inr ⟨Nat.le_trans done longer, roomy⟩

theorem RoomAfter.part (readable : KeepsReadable step start count) {depth number : Nat}
    {part whole : TypeRef} (room : RoomAfter step start count (depth + 1) number whole)
    (isPart : (stepped step start (number + 1)).program.PartOf part whole) :
    RoomAfter step start count depth (number + 1) part := by
  have acyclic := readable.acyclic count (Nat.le_refl _)
  rcases Nat.lt_or_ge number count with early | done
  · rcases room with steps | ⟨done, -⟩
    · exact .inl (by omega)
    · omega
  · rw [readable.program_of_le (Nat.le_succ_of_le done)] at isPart
    have roomy : (stepped step start count).program.Roomy (depth + 1) whole := by
      rcases room with steps | ⟨-, roomy⟩
      · exact Program.roomy_of_size_lt acyclic (by omega) whole
      · exact roomy
    exact .inr ⟨Nat.le_succ_of_le done, roomy.part acyclic isPart⟩

def InStep (step : Nat → ρ → Edit ρ) (start : Walker ρ) (walker : Walker (Log ρ)) : Prop :=
  (⟨walker.program, walker.own.own⟩ : Walker ρ) = stepped step start walker.own.lines.size

/-- Started in step after so many lines, the walk ends well, and in step. -/
def Arrives (step : Nat → ρ → Edit ρ) (start : Walker ρ) (number : Nat)
    (walk : Walk Nat (Log ρ) Unit) : Prop :=
  ∀ before, before.own.lines.size = number → InStep step start before →
    ∃ after, walk before = .ok () after ∧ number ≤ after.own.lines.size ∧ InStep step start after

theorem arrives_pure {number : Nat} : Arrives step start number (pure ()) := by
  rintro before rfl inStep
  exact ⟨before, rfl, Nat.le_refl _, inStep⟩

theorem Arrives.bind {number : Nat} {first : Walk Nat (Log ρ) Unit}
    {rest : Unit → Walk Nat (Log ρ) Unit} (arrives : Arrives step start number first)
    (later : ∀ more, number ≤ more → Arrives step start more (rest ())) :
    Arrives step start number (first >>= rest) := by
  intro before logged inStep
  obtain ⟨middle, ran, longer, inStepThen⟩ := arrives before logged inStep
  obtain ⟨after, ranLater, longerLater, inStepLater⟩ :=
    later _ longer middle rfl inStepThen
  exact ⟨after, (bind_of_ok ran).trans ranLater, Nat.le_trans longer longerLater, inStepLater⟩

theorem arrives_ask {α : Type} {number : Nat} {question : Program → Except Fault α} {answer : α}
    {rest : α → Walk Nat (Log ρ) Unit}
    (answered : question (stepped step start number).program = .ok answer)
    (arrives : Arrives step start number (rest answer)) :
    Arrives step start number (Walk.ask question >>= rest) := by
  rintro before rfl inStep
  rw [← inStep] at answered
  have asked : (Walk.ask question : Walk Nat (Log ρ) α) before = .ok answer before :=
    Walk.ask_of_ok answered
  rw [bind_of_ok asked]
  exact arrives before rfl inStep

theorem arrives_forM {α : Type} {number : Nat} {elements : List α}
    {action : α → Walk Nat (Log ρ) Unit}
    (each : ∀ element ∈ elements, ∀ more, number ≤ more →
      Arrives step start more (action element)) :
    Arrives step start number (elements.forM action) := by
  induction elements generalizing number with
  | nil => exact arrives_pure
  | cons head rest induction =>
      rw [List.forall_mem_cons] at each
      refine (each.1 number (Nat.le_refl _)).bind fun more longer => induction ?_
      exact fun element member later evenLonger =>
        each.2 element member later (Nat.le_trans longer evenLonger)

section

variable (readable : KeepsReadable step start count)
include readable

theorem arrives_record {number : Nat} (event : Event)
    (meets : event.Meets (stepped step start number).program)
    {rest : Unit → Walk Nat (Log ρ) Unit} (arrives : Arrives step start (number + 1) (rest ())) :
    Arrives step start number (Script.record { step } event.line >>= rest) := by
  rintro before rfl inStep
  obtain ⟨line, written⟩ := readable.exists_line meets
  have made := readable.step_eq before.own.lines.size
  rw [← inStep] at written made
  let next := stepped step start (before.own.lines.size + 1)
  have ran : Script.record { step } event.line before =
      .ok () ⟨next.program, ⟨before.own.lines.push line, next.own⟩⟩ :=
    (record_of_stepped written made).trans (if_neg nofun)
  have inStepNext : InStep step start ⟨next.program, ⟨before.own.lines.push line, next.own⟩⟩ := by
    rw [InStep, Array.size_push]
  obtain ⟨after, ranLater, longer, inStepThen⟩ := arrives _ (Array.size_push line) inStepNext
  exact ⟨after, (bind_of_ok ran).trans ranLater, Nat.le_of_succ_le longer, inStepThen⟩

theorem arrives_walkTypeWithin (bound : Nat) {depth number : Nat} {type : TypeRef}
    (has : (stepped step start number).program.Has type)
    (room : RoomAfter step start count depth number type) :
    Arrives step start number ((Script.traversal { step } bound).walkTypeWithin depth type) := by
  -- Each level takes one step and one from the depth, so there is room for the parts as well.
  induction depth generalizing type number with
  | zero =>
      rcases room with none | ⟨-, none, -⟩
      · exact absurd none (Nat.not_lt_zero _)
      · exact absurd none (Nat.lt_irrefl _)
  | succ depth induction =>
      refine arrives_record readable (.visit type) has ?_
      have kept := readable.has_of_le has (Nat.le_succ number)
      obtain ⟨form, found⟩ := Program.exists_form kept
      refine arrives_ask found (arrives_forM fun part member more longer => ?_)
      obtain ⟨symbol, stored⟩ := Program.form_eq_ok_iff.mp found
      have isPart : (stepped step start (number + 1)).program.PartOf part type :=
        ⟨_, stored, member⟩
      have inRange := readable.always readable.inRange (number + 1)
      have inside := (inRange.of_form found).1 part member
      exact induction (readable.has_of_le inside longer) ((room.part readable isPart).later longer)

theorem arrives_walkStatement {depth number : Nat} {ref : StatementRef}
    (deep : count + (stepped step start count).program.types.size < depth)
    (has : (stepped step start number).program.Has ref) :
    Arrives step start number ((Script.traversal { step } depth).walkStatement ref) := by
  have leaves : ∀ more, number ≤ more →
      Arrives step start more ((Script.traversal { step } depth).leaveStatement ref) := by
    intro more longer
    have left : Arrives step start more
        (Script.record { step } (Event.line (.leave ref)) >>= pure) :=
      arrives_record readable (.leave ref) (readable.has_of_le has longer) arrives_pure
    rwa [bind_pure] at left
  refine arrives_record readable (.enter ref) has ?_
  have kept := readable.has_of_le has (Nat.le_succ number)
  obtain ⟨statement, found⟩ := Program.exists_statement kept
  refine arrives_ask found ?_
  cases declares : statement.declared? with
  | none => exact leaves _ (Nat.le_succ number)
  | some declared =>
      have inRange := readable.always readable.inRange (number + 1)
      obtain ⟨symbol, stored, inside⟩ := inRange.exists_symbol (inRange.has_declared found declares)
      refine arrives_ask stored ?_
      have room : RoomAfter step start count depth (number + 1) symbol.type := .inl (by omega)
      have walked := arrives_walkTypeWithin readable depth inside.2.1 room
      exact Arrives.bind walked fun more longer => leaves more (Nat.le_of_succ_le longer)

theorem arrives_walkProgram {depth : Nat} {order : List StatementRef}
    (listed : start.program.preorder = .ok order)
    (deep : count + (stepped step start count).program.types.size < depth) :
    Arrives step start 0 (Script.traversal { step } depth).walkProgram := by
  refine arrives_ask listed (arrives_forM fun ref member more longer => ?_)
  obtain ⟨⟨placed, stored⟩, -⟩ := Layout.reachable_of_mem_preorder listed member
  have has : (stepped step start 0).program.Has ref := Arena.lt_size_of_get? stored
  exact arrives_walkStatement readable deep (readable.has_of_le has longer)

end

end

/-! ## The whole walk -/

def Script.walk {ρ : Type} (script : Script ρ) (depth : Nat) (start : Walker ρ) :
    EStateM.Result (Halt Nat) (Walker (Log ρ)) Unit :=
  (script.traversal depth).walkProgram ⟨start.program, { own := start.own }⟩

/-- A walk that a script does not fail calls it for the statements of the program, and for those
only, in the order from when the walk starts, and for the types that it meets there as the calls up
to then have left them. With the same steps and a failure after the line of some number, it ends as
the call of that number has left the program and the script's own state, and has logged the lines
up to that one. A script that has only so many steps and leaves all types acyclic does come to an
end, in more depth than there are steps and types. -/
theorem Script.walk_stops_in_step {ρ : Type} (step : Nat → ρ → Edit ρ) (start : Walker ρ)
    (depth : Nat) :
    (∀ after, Script.walk { step } depth start = .ok () after →
      ∃ order segments,
        start.program.preorder = .ok order ∧ List.Forall₂ StatementRecounts order segments ∧
        Logged step ⟨start.program, { own := start.own }⟩ segments.flatten after ∧
        after.own.lines.size = segments.flatten.length ∧
        ∀ number moment, segments.flatten[number]? = some moment →
          moment.left.own.lines.toList = after.own.lines.toList.take (number + 1) ∧
          Script.walk { step, failAt := some number } depth start =
            .error (.failed number) moment.left) ∧
    ∀ count order, KeepsReadable step start count → start.program.preorder = .ok order →
      count + (stepped step start count).program.types.size < depth →
      ∃ after, Script.walk { step } depth start = .ok () after := by
  refine ⟨fun after ran => ?_, ?_⟩
  · obtain ⟨order, segments, accounts, listed, recounted⟩ := accounts_of_walkProgram ran
    have size := accounts.logged.size_eq
    rw [Array.size_empty, Nat.zero_add] at size
    refine ⟨order, segments, listed, recounted, accounts.logged, size, ?_⟩
    intro number moment found
    have lines := accounts.logged.lines_eq found
    have stopped := accounts.stops number moment found
    simp only [Array.size_empty, Nat.zero_add] at lines stopped
    exact ⟨lines, stopped⟩
  · intro count order readable listed deep
    obtain ⟨after, ran, -⟩ := arrives_walkProgram readable listed deep
      ⟨start.program, { own := start.own }⟩ rfl rfl
    exact ⟨after, ran⟩

def sequenceBesidePairCalls : List Call :=
  [.addModule, .addType (.sequence ⟨1⟩), .declareVar ⟨1⟩ "s" ⟨7⟩, .addType (.tuple [⟨1⟩, ⟨2⟩])]

def pairingStep : Nat → Unit → Edit Unit
  | 0, _ => .setSymbolType ⟨7⟩ ⟨8⟩
  | 1, _ => .changeForm ⟨8⟩ fun _ => .tuple [⟨7⟩, ⟨2⟩]
  | 2, _ => do let _ ← Edit.declareVar ⟨1⟩ "t" ⟨1⟩
  | _, _ => pure ()

theorem keepsReadable_pairingStep : ∃ source ∈ (layOut sequenceBesidePairCalls).toOption,
    KeepsReadable pairingStep ⟨source, ()⟩ 3 ∧
      (stepped pairingStep ⟨source, ()⟩ 3).program.types.size = 9 := by
  rcases (show ∃ source ∈ (layOut sequenceBesidePairCalls).toOption,
      (∀ number < 3, (finished? (pairingStep number ()
        (stepped pairingStep ⟨source, ()⟩ number).program)).isSome) ∧
      (∀ number < 3, (stepped pairingStep ⟨source, ()⟩ (number + 1)).program.Outsizes
        (stepped pairingStep ⟨source, ()⟩ number).program) ∧
      (∀ number < 4, (stepped pairingStep ⟨source, ()⟩ number).program.InRange) ∧
      (∀ number < 4, (stepped pairingStep ⟨source, ()⟩ number).program.IteratesOlder) ∧
      (∀ number < 4, ∀ type node,
        (stepped pairingStep ⟨source, ()⟩ number).program.types.get? type = some node →
        ∀ part ∈ node.form.children, part.index < type.index) ∧
      (stepped pairingStep ⟨source, ()⟩ 3).program.types.size = 9 by
        decide +kernel) with
    ⟨source, laid, succeeds, outsizes, inRange, older, below, size⟩
  refine ⟨source, laid, ?_, size⟩
  exact
    { quiet := fun number done own program => by
        obtain ⟨more, rfl⟩ := Nat.exists_eq_add_of_le' done
        exact ⟨(), rfl⟩
      succeeds := fun number early => by
        obtain ⟨program, ran⟩ := Option.isSome_iff_exists.mp (succeeds number early)
        exact ⟨(), program, finished?_eq_some_iff.mp ran⟩
      outsizes
      inRange := fun number early => inRange number (Nat.lt_succ_of_le early)
      older := fun number early => older number (Nat.lt_succ_of_le early)
      acyclic := fun number early =>
        Program.acyclic_of_parts_below (below number (Nat.lt_succ_of_le early)) }

/-- The walk goes into the tuple as it has become, and not to the variable that is new. -/
theorem Script.walk_stops_in_step_while_pairing :
    ∃ (start : Walker Unit) (after : Walker (Log Unit)),
      Script.walk { step := pairingStep } 13 start = .ok () after ∧
      after.own.lines.toList =
        ["pre var s: seq(Int32)", "type (Int32, Int64)", "type seq(Int32)", "type Int32",
          "type Int64", "post var s: (seq(Int32), Int64)"] ∧
      ∀ number < 6, ∃ left,
        Script.walk { step := pairingStep, failAt := some number } 13 start =
          .error (.failed number) left ∧
        left.own.lines.toList = after.own.lines.toList.take (number + 1) := by
  obtain ⟨source, laid, readable, size⟩ := keepsReadable_pairingStep
  rcases (show ∃ source ∈ (layOut sequenceBesidePairCalls).toOption,
      ∃ order ∈ source.preorder.toOption,
      ∃ ended ∈ finished? (Script.walk { step := pairingStep } 13 ⟨source, ()⟩),
        ended.own.lines.toList =
          ["pre var s: seq(Int32)", "type (Int32, Int64)", "type seq(Int32)", "type Int32",
            "type Int64", "post var s: (seq(Int32), Int64)"] by
        decide +kernel) with
    ⟨_, same, order, listed, ended, isEnded, lines⟩
  cases Option.mem_unique same laid
  obtain ⟨stops, ends⟩ := Script.walk_stops_in_step pairingStep ⟨source, ()⟩ 13
  obtain ⟨after, ran⟩ :=
    ends 3 order readable (Except.toOption_eq_some_iff.mp listed) (by rw [size]; decide)
  cases Option.mem_unique isEnded (finished?_eq_some_iff.mpr ran)
  obtain ⟨_, segments, -, -, -, count, stopped⟩ := stops ended ran
  refine ⟨⟨source, ()⟩, ended, ran, lines, fun number early => ?_⟩
  have total : ended.own.lines.size = 6 := by
    rw [← Array.length_toList, lines]
    rfl
  obtain ⟨moment, found⟩ : ∃ moment, segments.flatten[number]? = some moment :=
    ⟨_, List.getElem?_eq_getElem (by omega)⟩
  exact ⟨moment.left, (stopped number moment found).2, (stopped number moment found).1⟩

end StructuralTypes
