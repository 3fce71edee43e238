import StructuralTypes.Proofs.Acyclicity
import StructuralTypes.Proofs.Atomicity
import StructuralTypes.Proofs.Tallying

/-! Counts and calls. A run that notes on the way what its builders return, and which companions it
settles, does the same as one that does not; and it notes as many of them as the counts say, since
a builder settles just one type of its own if it returns, and none if it fails. -/

namespace StructuralTypes

variable {τ : Type}

/-! ## Notes of what returns -/

abbrev Noted (σ : Type) := σ × List TypeRef

namespace SequenceHook

/-- The same hook, which leaves alone what is noted beside its journal. -/
def beside (hook : SequenceHook τ) : SequenceHook (Noted τ) where
  materialize type journal := (·, journal.2) <$> hook.materialize type journal.1

theorem beside_mirrors (hook : SequenceHook τ) : hook.beside.Mirrors Prod.fst hook := by
  intro type journal
  simp [beside]

def Quiet (hook : SequenceHook τ) : Prop :=
  ∀ type journal program, ∃ later, hook.materialize type journal program = .ok later program

theorem Quiet.exists_noting {hook : SequenceHook τ} (quiet : hook.Quiet) :
    ∃ note, hook = noting note := by
  choose note noted using quiet
  have same : hook.materialize =
      (noting fun program type journal => note type journal program).materialize := by
    funext type journal program
    exact noted type journal program
  exact ⟨_, congrArg SequenceHook.mk same⟩

end SequenceHook

def Progress.returning (canonical : TypeRef) (progress : Progress (Noted τ)) : Progress (Noted τ) :=
  { progress with journal := (progress.journal.1, progress.journal.2 ++ [canonical]) }

namespace Canon

def noted (builder : Canon (Noted τ) TypeRef) : Canon (Noted τ) TypeRef := do
  let canonical ← builder
  modify fun session => { session with own := session.own.returning canonical }
  return canonical

def elementNoted (canonicalize : TypeRef → Canon (Noted τ) TypeRef) (element : TypeRef) :
    Canon (Noted τ) TypeRef := do
  match ← ask (·.typeSymbol? element) with
  | some _ => return element
  | none =>
      match ← ask (·.shape element) with
      | .index => noted (index element (← get).scope)
      | _ => canonicalize element

def compositeWithinNoted (hook : SequenceHook τ) : (depth : Nat) → TypeRef → Canon (Noted τ) TypeRef
  | 0, _ => fault .nestingLimit
  | depth + 1, type => do
      let element := elementNoted (compositeWithinNoted hook depth)
      match ← ask (·.shape type) with
      | .array => noted (arrayWith element type)
      | .domain => noted (domain type)
      | .tuple => noted (tuple type)
      | .sequence => noted (sequenceWith hook.beside element type)
      | .primitive | .nominal | .index => return type

def compositeNoted (hook : SequenceHook τ) (type : TypeRef) : Canon (Noted τ) TypeRef := do
  compositeWithinNoted hook ((← nesting) + 1) type

def indexOrSelfNoted (type : TypeRef) (lookupScope : ScopeRef) : Canon (Noted τ) TypeRef := do
  match ← ask (·.shape type) with
  | .index => noted (index type lookupScope)
  | _ => return type

def declaredTypeNoted (hook : SequenceHook τ) (type : TypeRef) (scope : ScopeRef) :
    Canon (Noted τ) TypeRef := do
  let canonical ← compositeNoted hook type
  indexOrSelfNoted canonical scope

end Canon

/-- The walk over the variables, with a note of each type that a builder returns on the way. -/
def variableTypesNoted (hook : SequenceHook τ) : Traversal Failure (Progress (Noted τ)) where
  enterStatement ref := do
    match (← Walk.ask (·.statement ref)).kind with
    | .varDeclaration var =>
        let symbol ← Walk.ask (·.symbol var)
        let canonical ← Canon.within ref symbol.scope
          (Canon.declaredTypeNoted hook symbol.type symbol.scope)
        Walk.perform (.setSymbolType var canonical)
    | _ => pure ()

def Walk.beside {ε σ α : Type} (walk : Walk ε σ α) : Walk ε (Noted σ) α :=
  walk.focus Prod.fst fun own part => (part, own.2)

/-- The companion that a visit to `type` has yet to settle. -/
def Program.openCompanion? (program : Program) (type : TypeRef) : Option TypeRef := do
  let companion ← (← program.types.get? type).form.companion?
  let node ← program.types.get? companion
  if node.symbol.isNone then some companion else none

def indexCompanionsNoted : Traversal Failure (Noted CompanionWalk) where
  enterStatement ref := Walk.beside (indexCompanions.enterStatement ref)
  visitType type := do
    let before ← get
    Walk.beside (indexCompanions.visitType type)
    if before.own.1.current.isSome then
      Walk.update fun own => (own.1, own.2 ++ (before.program.openCompanion? type).toList)
  leaveStatement ref := Walk.beside (indexCompanions.leaveStatement ref)
  nesting := indexCompanions.nesting

/-! ## Forgetting the notes -/

namespace Canon

theorem mirrors_noted {builder : Canon (Noted τ) TypeRef} {other : Canon τ TypeRef}
    (mirrors : Mirrors (Session.seen Prod.fst) builder other) :
    Mirrors (Session.seen Prod.fst) (noted builder) other := by
  intro session
  rw [mirrors session]
  simp only [noted, bind, EStateM.bind]
  cases builder session <;> rfl

theorem mirrors_elementNoted {composite : TypeRef → Canon (Noted τ) TypeRef}
    {other : TypeRef → Canon τ TypeRef}
    (mirrors : ∀ type, Mirrors (Session.seen Prod.fst) (composite type) (other type))
    (element : TypeRef) :
    Mirrors (Session.seen Prod.fst) (elementNoted composite element)
      (elementWith other element) := by
  refine (mirrors_ask _).bind fun symbol => ?_
  cases symbol with
  | some symbol => exact mirrors_pure _
  | none =>
      refine (mirrors_ask _).bind fun shape => ?_
      cases shape with
      | index =>
          exact mirrors_get_bind fun session => mirrors_noted (mirrors_index element session.scope)
      | _ => exact mirrors element

theorem mirrors_compositeWithinNoted (hook : SequenceHook τ) (depth : Nat) (type : TypeRef) :
    Mirrors (Session.seen Prod.fst) (compositeWithinNoted hook depth type)
      (compositeWithin hook depth type) := by
  induction depth generalizing type with
  | zero => exact mirrors_throw _
  | succ depth induction =>
      have element := mirrors_elementNoted induction
      refine (mirrors_ask _).bind fun shape => ?_
      cases shape with
      | array => exact mirrors_noted (mirrors_arrayWith element type)
      | domain => exact mirrors_noted (mirrors_domain type)
      | tuple => exact mirrors_noted (mirrors_tuple type)
      | sequence =>
          exact mirrors_noted (mirrors_sequenceWith hook.beside_mirrors element type)
      | primitive | nominal | index => exact mirrors_pure _

theorem mirrors_indexOrSelfNoted (type : TypeRef) (lookupScope : ScopeRef) :
    Mirrors (Session.seen Prod.fst) (indexOrSelfNoted type lookupScope : Canon (Noted τ) TypeRef)
      (indexOrSelf type lookupScope) := by
  refine (mirrors_ask _).bind fun shape => ?_
  cases shape with
  | index => exact mirrors_noted (mirrors_index type lookupScope)
  | _ => exact mirrors_pure _

theorem mirrors_declaredTypeNoted (hook : SequenceHook τ) (type : TypeRef) (scope : ScopeRef) :
    Mirrors (Session.seen Prod.fst) (declaredTypeNoted hook type scope)
      (declaredType hook type scope) := by
  refine Mirrors.bind ?_ fun canonical => mirrors_indexOrSelfNoted canonical scope
  exact mirrors_get_bind fun session => mirrors_compositeWithinNoted hook _ type

end Canon

theorem mirrors_variableTypesNoted (hook : SequenceHook τ) :
    (variableTypesNoted hook).Mirrors (Progress.seen Prod.fst) (variableTypes hook) where
  enter ref := by
    refine (Walk.mirrors_ask _).bind fun statement => ?_
    generalize statement.kind = kind
    cases kind with
    | varDeclaration var =>
        exact (Walk.mirrors_ask _).bind fun symbol =>
          (Canon.mirrors_within _ _ (Canon.mirrors_declaredTypeNoted hook _ _)).bind fun _ =>
            Walk.mirrors_perform _
    | _ => exact mirrors_pure _
  visit _ := mirrors_pure _
  leave _ := mirrors_pure _
  nesting := rfl

theorem Walk.mirrors_beside {ε σ α : Type} (walk : Walk ε σ α) :
    Mirrors (Walker.seen Prod.fst) walk.beside walk := by
  intro walker
  have same : walk (walker.seen Prod.fst) = walk ⟨walker.program, walker.own.1⟩ := rfl
  rw [same]
  simp only [beside, focus]
  cases walk ⟨walker.program, walker.own.1⟩ <;> rfl

theorem mirrors_indexCompanionsNoted :
    indexCompanionsNoted.Mirrors Prod.fst indexCompanions where
  enter _ := Walk.mirrors_beside _
  visit type := by
    intro walker
    rw [Walk.mirrors_beside (indexCompanions.visitType type) walker]
    change _ = seenThrough _ (EStateM.bind (Walk.beside (indexCompanions.visitType type)) _ walker)
    unfold EStateM.bind
    cases Walk.beside (indexCompanions.visitType type) walker with
    | error halt after => rfl
    | ok answer after =>
        dsimp only
        split <;> rfl
  leave _ := Walk.mirrors_beside _
  nesting := rfl

/-! ## Builders that settle one type -/

/-- By how many the types that were settled are ahead of the returns that are noted. -/
def Progress.lead (progress : Progress (Noted τ)) : Int :=
  progress.tally.settled - progress.journal.2.length

theorem Progress.lead_returning (canonical : TypeRef) (progress : Progress (Noted τ)) :
    (progress.returning canonical).lead = progress.lead - 1 := by
  simp only [lead, returning, List.length_append, List.length_singleton]
  omega

abbrev Balanced : Walker (Progress (Noted τ)) → Walker (Progress (Noted τ)) → Prop :=
  Function.onFun Eq fun walker => walker.own.lead

namespace Canon

abbrev Level : Session (Noted τ) → Session (Noted τ) → Prop :=
  Function.onFun Balanced Session.toWalker

/-- A builder is one settled type ahead if it returns, and level if it fails. -/
structure Gains {α : Type} (builder : Canon (Noted τ) α) (before : Session (Noted τ)) : Prop where
  returned : ∀ answer after, builder before = .ok answer after →
    after.own.lead = before.own.lead + 1
  failed : ∀ failure after, builder before = .error (.failed failure) after →
    after.own.lead = before.own.lead

section

variable {α β : Type} {before : Session (Noted τ)}

/-- Noting a return makes up for what was settled. -/
theorem Gains.leads_noted {builder : Canon (Noted τ) TypeRef} (gains : Gains builder before) :
    Leads Level (noted builder) before := by
  intro after ends
  rcases ends_bind_iff.mp ends with ⟨failure, ran⟩ | ⟨canonical, middle, ran, rest⟩
  · exact (gains.failed failure after ran).symm
  · have ahead := gains.returned canonical middle ran
    rcases ends_bind_iff.mp rest with ⟨failure, noting⟩ | ⟨_, later, noting, rest⟩
    · exact (modify_eq_error_iff.mp noting).elim
    · cases eq_of_ends_pure rest
      rw [modify_eq_ok_iff.mp noting]
      change before.own.lead = (middle.own.returning canonical).lead
      rw [Progress.lead_returning, ahead]
      omega

theorem gains_fail (cause : Cause) : Gains (fail cause : Canon (Noted τ) α) before := by
  refine ⟨fun _ _ ran => (fail_eq_ok_iff.mp ran).elim, fun _ _ ran => ?_⟩
  rw [(fail_eq_failed_iff.mp ran).2]

theorem gains_bind {first : Canon (Noted τ) α} {rest : α → Canon (Noted τ) β}
    (level : Leads Level first before)
    (gains : ∀ value middle, first before = .ok value middle → Gains (rest value) middle) :
    Gains (first >>= rest) before := by
  refine ⟨fun answer after ran => ?_, fun failure after ran => ?_⟩
  · rcases bind_eq_ok_iff.mp ran with ⟨value, middle, done, ran⟩
    have same : before.own.lead = middle.own.lead := level middle (.inl ⟨value, done⟩)
    rw [same]
    exact (gains value middle done).returned answer after ran
  · rcases bind_eq_error_iff.mp ran with stopped | ⟨value, middle, done, ran⟩
    · exact (level after (.inr ⟨failure, stopped⟩)).symm
    · have same : before.own.lead = middle.own.lead := level middle (.inl ⟨value, done⟩)
      rw [same]
      exact (gains value middle done).failed failure after ran

theorem Gains.bind {first : Canon (Noted τ) α} {rest : α → Canon (Noted τ) β}
    (gains : Gains first before)
    (level : ∀ value middle, first before = .ok value middle → Leads Level (rest value) middle)
    (steady : ∀ value middle failure after, rest value middle ≠ .error (.failed failure) after) :
    Gains (first >>= rest) before := by
  refine ⟨fun answer after ran => ?_, fun failure after ran => ?_⟩
  · rcases bind_eq_ok_iff.mp ran with ⟨value, middle, done, ran⟩
    have same : middle.own.lead = after.own.lead :=
      level value middle done after (.inl ⟨answer, ran⟩)
    rw [← same]
    exact gains.returned value middle done
  · rcases bind_eq_error_iff.mp ran with stopped | ⟨value, middle, done, ran⟩
    · exact gains.failed failure after stopped
    · exact absurd ran (steady value middle failure after)

theorem gains_inScope {scope : ScopeRef} {action : Canon (Noted τ) α}
    (gains : Gains action { before with scope }) : Gains (inScope scope action) before := by
  refine ⟨fun answer after ran => ?_, fun failure after ran => ?_⟩
  · obtain ⟨inner, done, rfl⟩ := inScope_eq_ok_iff.mp ran
    exact gains.returned answer inner done
  · obtain ⟨inner, stopped, rfl⟩ := inScope_eq_error_iff.mp ran
    exact gains.failed failure inner stopped

end

theorem settled_of_settle {walker : Walker (Progress τ)} {scope : ScopeRef}
    {statement : StatementRef} {after : Session τ} {text : String} {fresh : TypeRef}
    {form : TypeForm} {placement : Placement} {answer : Settled}
    (stored : walker.program.types.get? fresh = some { form, symbol := none })
    (structural : ¬form.Scalar)
    (ran : settle text fresh placement ⟨walker, scope, statement⟩ = .ok answer after) :
    after.own.tally.settled = walker.own.tally.settled + 1 ∧
      after.own.journal = walker.own.journal := by
  cases answer with
  | reused type =>
      rcases settle_eq_reused ran with ⟨_, _, _, _, _, rfl⟩
      exact ⟨rfl, rfl⟩
  | created type =>
      rcases settle_eq_created ran with ⟨-, _, _, _, _, again, -, -, -, rfl⟩
      cases Option.mem_unique stored again
      exact ⟨Tally.settled_countCreated _ (TypeForm.structural_iff.mp structural), rfl⟩

section

variable {walker : Walker (Progress (Noted τ))} {scope : ScopeRef}
  {statement : StatementRef} {fresh : TypeRef} {form : TypeForm}
  (stored : walker.program.types.get? fresh = some { form, symbol := none })
  (structural : ¬form.Scalar)
include stored structural

theorem gains_settle (text : String) (placement : Placement) :
    Gains (settle text fresh placement) ⟨walker, scope, statement⟩ := by
  refine ⟨fun answer after ran => ?_, fun failure after ran => ?_⟩
  · obtain ⟨counted, same⟩ := settled_of_settle stored structural ran
    change after.own.lead = walker.own.lead + 1
    rw [Progress.lead, Progress.lead, counted, same]
    omega
  · rcases settle_eq_unanchored ran with ⟨_, _, _, _, _, _, _, _, _, rfl⟩
    rfl

theorem gains_settleShared (key : CanonicalKey) :
    Gains (settleShared key fresh) ⟨walker, scope, statement⟩ :=
  gains_inScope ((gains_settle stored structural _ _).bind (fun _ _ _ => leads_pure _)
    fun _ _ _ _ => by simp [pure_eq_error_iff])

end

/-! ## Leaves -/

section

variable {before : Session (Noted τ)}

theorem gains_form {type : TypeRef} {rest : TypeForm → Canon (Noted τ) α}
    (gains : ∀ form symbol, before.program.types.get? type = some { form, symbol } →
      Gains (rest form) before) : Gains (ask (·.form type) >>= rest) before := by
  refine gains_bind (leads_ask _) fun form before asked => ?_
  obtain ⟨⟨symbol, stored⟩, rfl⟩ := (ask_eq_ok_iff.mp asked).imp_left Program.form_eq_ok_iff.mp
  exact gains form symbol stored

theorem gains_anonymous {type : TypeRef} {form : TypeForm} {symbol : Option SymbolRef}
    {rest : Unit → Canon (Noted τ) α}
    (stored : before.program.types.get? type = some { form, symbol })
    (gains : before.program.types.get? type = some { form, symbol := none } →
      Gains (rest ()) before) : Gains (expectAnonymous type >>= rest) before := by
  refine gains_bind (leads_expectAnonymous type) fun _ _ anonymous => ?_
  obtain ⟨rfl, isNone⟩ := expectAnonymous_eq_ok anonymous
  cases isNone _ _ stored
  exact gains stored

theorem gains_domain (type : TypeRef) : Gains (domain type) before := by
  refine gains_form fun form symbol stored => ?_
  split
  · refine gains_anonymous stored fun stored => ?_
    split
    · exact gains_fail _
    · refine gains_bind (leads_perform fun _ _ _ => rfl) fun _ middle changed => ?_
      obtain ⟨_, edited, rfl⟩ := perform_eq_ok_iff.mp changed
      obtain ⟨types, modified, rfl⟩ := Edit.changeForm_eq_ok_iff.mp edited
      have here := (Arena.get?_of_modify_same modified).trans (congrArg _ stored)
      refine gains_settleShared here ?_ _
      simp [TypeForm.Scalar, TypeForm.shape, TypeForm.withRank]
  · exact gains_fail _

theorem gains_tuple (type : TypeRef) : Gains (tuple type) before := by
  refine gains_form fun form symbol stored => ?_
  split
  · refine gains_anonymous stored fun stored => ?_
    refine gains_bind (leads_componentNames _ _) fun names middle naming => ?_
    obtain ⟨rfl, -⟩ := componentNames_eq_ok naming
    refine gains_settleShared stored ?_ _
    simp [TypeForm.Scalar, TypeForm.shape]
  · exact gains_fail _

theorem gains_index (type : TypeRef) (lookupScope : ScopeRef) :
    Gains (index type lookupScope) before := by
  refine gains_form fun form symbol stored => ?_
  split
  · refine gains_anonymous stored fun stored => ?_
    refine gains_bind (leads_indexKey _ lookupScope) fun key middle keying => ?_
    obtain rfl : _ = middle := leads_indexKey _ _ middle (.inl ⟨key, keying⟩)
    refine gains_settleShared stored ?_ _
    simp [TypeForm.Scalar, TypeForm.shape]
  · exact gains_fail _

/-! ## Arrays and sequences -/

section

variable {action : TypeRef → Canon (Noted τ) TypeRef} {other : TypeRef → Canon Unit TypeRef}
  (mirrors : ∀ type, Mirrors (Session.seen fun _ => ()) (action type) (other type))
  (ruled : Ruled other) (leads : ∀ type before, Leads Level (action type) before)

include leads in
theorem level_settleElement (shape : Shape) (type element : TypeRef) :
    Leads Level (settleElement shape action type element) before :=
  (leads element before).bind fun _ _ _ => (leads_perform fun _ _ _ => rfl).bind fun _ _ _ =>
    (leads_elementSymbol _ _).bind fun _ _ _ => (leads_ask _).bind fun _ _ _ => leads_pure _

include mirrors ruled leads

theorem gains_arrayWith (type : TypeRef) : Gains (arrayWith action type) before := by
  refine gains_form fun form symbol stored => ?_
  split
  · refine gains_anonymous stored fun stored => ?_
    refine gains_bind (level_settleElement leads _ _ _) fun pair middle settling => ?_
    obtain ⟨inner, -, -, here⟩ := settleElement_stands mirrors ruled stored rfl settling
    refine gains_inScope (gains_bind (leads_rangeDomain _) fun ranged _ ranging => ?_)
    obtain ⟨rfl, -⟩ := rangeDomain_eq_ok ranging
    refine gains_bind (leads_ask _) fun text _ asked => ?_
    obtain ⟨-, rfl⟩ := ask_eq_ok_iff.mp asked
    refine (gains_settle here ?_ _ _).bind (fun settled _ _ => ?_) fun settled _ _ _ => ?_
    · simp [TypeForm.Scalar, TypeForm.shape, TypeForm.withElement]
    · cases settled with
      | reused existing => exact leads_pure _
      | created created => exact (leads_perform fun _ _ _ => rfl).bind fun _ _ _ => leads_pure _
    · cases settled <;> simp only [bind_eq_error_iff, perform_eq_failed_iff, pure_eq_error_iff,
        and_false, exists_false, or_self, ne_eq, not_false_eq_true]
  · exact gains_fail _

theorem gains_sequenceWith (note : Program → TypeRef → Noted τ → τ) (type : TypeRef) :
    Gains (sequenceWith (.noting fun program type journal =>
      (note program type journal, journal.2)) action type) before := by
  refine gains_form fun form symbol stored => ?_
  split
  · refine gains_anonymous stored fun stored => ?_
    refine gains_bind (level_settleElement leads _ _ _) fun pair middle settling => ?_
    obtain ⟨inner, -, -, here⟩ := settleElement_stands mirrors ruled stored rfl settling
    refine (gains_inScope (gains_bind (leads_ask _) fun text _ asked => ?_)).bind
      (fun settled _ _ => ?_) fun settled _ _ _ => ?_
    · obtain ⟨-, rfl⟩ := ask_eq_ok_iff.mp asked
      refine gains_settle here ?_ _ _
      simp [TypeForm.Scalar, TypeForm.shape, TypeForm.withElement]
    · cases settled with
      | reused existing => exact leads_pure _
      | created created =>
          intro after ends
          rcases ends_bind_iff.mp ends with ⟨failure, failed⟩ | ⟨_, _, materialized, rest⟩
          · cases failed
          · cases materialized
            rw [← eq_of_ends_pure rest]
            rfl
    · cases settled with
      | reused existing => simp [pure_eq_error_iff]
      | created created =>
          intro ran
          rcases bind_eq_error_iff.mp ran with failed | ⟨_, _, _, ran⟩
          · cases failed
          · exact pure_eq_error_iff.mp ran
  · exact gains_fail _

end

end

/-! ## All levels -/

theorem leads_elementNoted {composite : TypeRef → Canon (Noted τ) TypeRef}
    (leads : ∀ type before, Leads Level (composite type) before) (element : TypeRef)
    (before : Session (Noted τ)) :
    Leads Level (elementNoted composite element) before := by
  refine (leads_ask _).bind fun symbol _ _ => ?_
  cases symbol with
  | some symbol => exact leads_pure _
  | none =>
      refine (leads_ask _).bind fun shape _ _ => ?_
      split
      · exact leads_get.bind fun session _ _ => (gains_index element session.scope).leads_noted
      · exact leads element _

theorem leads_compositeWithinNoted (note : Program → TypeRef → τ → τ) (depth : Nat)
    (type : TypeRef) (before : Session (Noted τ)) :
    Leads Level (compositeWithinNoted (.noting note) depth type) before := by
  induction depth generalizing type before with
  | zero => exact leads_fault _
  | succ depth induction =>
      have leads := leads_elementNoted induction
      have mirrors := mirrors_elementNoted (mirrors_compositeWithinNoted (.noting note) depth)
      have silent := mirrors_elementWith
        (mirrors_compositeWithin (SequenceHook.noting_mirrors_silent note) depth)
      have both := fun type => (mirrors type).trans (silent type)
      refine (leads_ask _).bind fun shape _ _ => ?_
      cases shape with
      | array => exact (gains_arrayWith both (ruled_elements depth) leads type).leads_noted
      | domain => exact (gains_domain type).leads_noted
      | tuple => exact (gains_tuple type).leads_noted
      | sequence =>
          exact (gains_sequenceWith both (ruled_elements depth) leads _ type).leads_noted
      | primitive | nominal | index => exact leads_pure _

theorem leads_declaredTypeNoted (note : Program → TypeRef → τ → τ) (type : TypeRef)
    (scope : ScopeRef) (before : Session (Noted τ)) :
    Leads Level (declaredTypeNoted (.noting note) type scope) before := by
  refine Leads.bind ?_ fun canonical middle _ => ?_
  · exact Leads.bind (leads_get.bind fun _ _ _ => leads_pure _) fun depth middle _ =>
      leads_compositeWithinNoted note _ type middle
  · refine (leads_ask _).bind fun shape _ _ => ?_
    split
    · exact (gains_index canonical scope).leads_noted
    · exact leads_pure _

end Canon

/-! ## Walks -/

theorem leads_variableTypesNoted (note : Program → TypeRef → τ → τ) :
    (variableTypesNoted (.noting note)).Leads Balanced where
  visit _ _ := leads_pure _
  leave _ _ := leads_pure _
  enter ref before := by
    refine (Walk.leads_ask _).bind fun statement _ _ => ?_
    split
    · refine (Walk.leads_ask _).bind fun symbol middle _ =>
        (Walk.leads_within (Canon.leads_declaredTypeNoted note _ _ _)).bind fun _ _ _ => ?_
      rintro after (⟨_, ran⟩ | ⟨failure, ran⟩)
      · obtain ⟨program, edited, rfl⟩ := Walk.perform_eq_ok_iff.mp ran
        rfl
      · exact (Walk.perform_eq_failed_iff.mp ran).elim
    · exact leads_pure _

theorem Canon.settled_of_settleCompanion {type companion : TypeRef} {before after : Session Unit}
    {answer : Unit} (ran : settleCompanion type companion before = .ok answer after) :
    ∃ node, before.program.types.get? companion = some node ∧
      after.own.tally.settled = before.own.tally.settled + if node.symbol.isNone then 1 else 0 := by
  simp only [settleCompanion, bind_eq_ok_iff, ask_eq_ok_iff, Program.shape_eq_ok_iff,
    Program.typeSymbol?_eq_ok_iff] at ran
  rcases ran with ⟨shape, _, ⟨⟨node, stored, shaped⟩, rfl⟩, symbol, _, ⟨⟨form, found⟩, rfl⟩, ran⟩
  cases Option.mem_unique stored found
  refine ⟨_, stored, ?_⟩
  split at ran
  · rw [(pure_eq_ok_iff.mp ran).2]
    rfl
  · simp only [bind_eq_ok_iff, ask_eq_ok_iff] at ran
    rcases ran with ⟨name, _, ⟨-, rfl⟩, ran⟩
    cases name with
    | none => exact (fail_eq_ok_iff.mp ran).elim
    | some text =>
        simp only [bind_eq_ok_iff, inScope_eq_ok_iff, get_eq_ok_iff, perform_eq_ok_iff] at ran
        rcases ran with ⟨answer, _, ⟨inner, ⟨_, _, ⟨rfl, rfl⟩, settling⟩, rfl⟩, program, -, rfl⟩
        refine (settled_of_settle stored ?_ settling).1
        have index : form.shape = .index := shaped
        simp [TypeForm.Scalar, index]
  · exact (fail_eq_ok_iff.mp ran).elim

theorem settled_of_visitType {type : TypeRef} {here : StatementRef × ScopeRef}
    {before after : Walker CompanionWalk} {answer : Unit} (current : before.own.current = some here)
    (ran : indexCompanions.visitType type before = .ok answer after) :
    after.own.tally.settled =
      before.own.tally.settled + (before.program.openCompanion? type).toList.length := by
  simp only [indexCompanions, bind_eq_ok_iff, get_eq_ok_iff] at ran
  rcases ran with ⟨_, before, ⟨rfl, rfl⟩, ran⟩
  simp only [current, bind_eq_ok_iff, Walk.ask_eq_ok_iff, Program.form_eq_ok_iff] at ran
  rcases ran with ⟨form, before, ⟨⟨symbol, stored⟩, rfl⟩, ran⟩
  cases form with
  | domain rank parent companion =>
      cases companion with
      | none =>
          rw [← (pure_eq_ok_iff.mp ran).2]
          simp [Program.openCompanion?, stored, TypeForm.companion?]
      | some companion =>
          obtain ⟨middle, within, rfl⟩ := Walk.focus_eq_ok_iff.mp ran
          obtain ⟨inner, settling, rfl⟩ := Canon.within_eq_ok_iff.mp within
          obtain ⟨node, found, settled⟩ := Canon.settled_of_settleCompanion settling
          have found : before.program.types.get? companion = some node := found
          have settled : inner.own.tally.settled = before.own.tally.settled + _ := settled
          rw [settled]
          cases isNone : node.symbol <;>
            simp [Program.openCompanion?, stored, TypeForm.companion?, found, isNone]
  | _ =>
      rw [← (pure_eq_ok_iff.mp ran).2]
      simp [Program.openCompanion?, stored, TypeForm.companion?]

def CompanionWalk.lead (own : Noted CompanionWalk) : Int :=
  own.1.tally.settled - own.2.length

theorem Walk.leads_beside {walk : Walk Failure CompanionWalk Unit}
    {before : Walker (Noted CompanionWalk)}
    (kept : Leads (Function.onFun Eq fun walker => walker.own.tally) walk
      ⟨before.program, before.own.1⟩) :
    Leads (Function.onFun Eq fun walker => CompanionWalk.lead walker.own) walk.beside before := by
  intro after ends
  obtain ⟨inner, done, rfl⟩ := Walk.ends_focus ends
  have same : before.own.1.tally = inner.own.tally := kept inner done
  change CompanionWalk.lead before.own = CompanionWalk.lead (inner.own, before.own.2)
  rw [CompanionWalk.lead, CompanionWalk.lead, same]

theorem leads_indexCompanionsNoted :
    indexCompanionsNoted.Leads (Function.onFun Eq fun walker => CompanionWalk.lead walker.own) where
  enter _ _ := Walk.leads_beside ((Walk.leads_ask _).bind fun _ _ _ => Walk.leads_update rfl)
  leave _ _ := Walk.leads_beside
    (show Leads _ (CompanionWalk.setCurrent none) _ from Walk.leads_update rfl)
  visit type before := by
    refine leads_get.bind fun _ walker got => ?_
    obtain ⟨rfl, rfl⟩ := get_eq_ok_iff.mp got
    intro after ends
    rcases ends_bind_iff.mp ends with ⟨failure, failed⟩ | ⟨_, later, visited, rest⟩
    · obtain ⟨inner, stopped, rfl⟩ := Walk.focus_eq_error_iff.mp failed
      cases visitType_eq_failed stopped
      rfl
    · obtain ⟨inner, done, rfl⟩ := Walk.focus_eq_ok_iff.mp visited
      cases current : walker.own.1.current with
      | none =>
          cases visitType_of_idle current done
          simp only [current] at rest
          rw [← eq_of_ends_pure rest]
      | some here =>
          have settled := settled_of_visitType current done
          simp only [current, Option.isSome_some, if_true] at rest
          rcases rest with ⟨_, ran⟩ | ⟨failure, ran⟩
          · rw [modify_eq_ok_iff.mp ran]
            simp only [Function.onFun, CompanionWalk.lead, List.length_append, settled]
            omega
          · exact (Walk.update_eq_error_iff.mp ran).elim

/-! ## Counts match what happened -/

theorem settled_of_variableTypesNoted {note : Program → TypeRef → τ → τ} {source : Program}
    {journal : τ} {course : Course} {noted : Walker (Progress (Noted τ))}
    (ends : Ends ((variableTypesNoted (.noting note)).walk course
      ⟨source, { journal := (journal, []) }⟩) noted) :
    noted.own.tally.settled = noted.own.journal.2.length := by
  have level := (leads_variableTypesNoted note).walk course _ noted ends
  have even : (0 : Int) = noted.own.lead := level
  rw [Progress.lead] at even
  omega

theorem settled_of_indexCompanionsNoted {program : Program} {tally : Tally} {course : Course}
    {completed : Walker (Noted CompanionWalk)}
    (ends : Ends (indexCompanionsNoted.walk course ⟨program, (.start tally, [])⟩) completed) :
    completed.own.1.tally.settled = tally.settled + completed.own.2.length := by
  have level := leads_indexCompanionsNoted.walk course _ completed ends
  simp only [Function.onFun, CompanionWalk.lead, CompanionWalk.start, List.length_nil] at level
  omega

/-- However a walk over the variables ends, and however a walk over the companions ends after it,
the counts tell what was added: one symbol, one statement and one binding for each declaration, and
as many types of each shape as there are among the new symbols. They also tell what was done, if one
notes what the builders return and which companions are settled: that changes nothing else, and each
note stands for one type that was declared or reused. -/
theorem tally_matches_run {hook : SequenceHook τ} (quiet : hook.Quiet) {source : Program}
    {journal : τ} {course : Course} {resolved : Walker (Progress τ)}
    (ends : Ends ((variableTypes hook).walk course ⟨source, { journal }⟩) resolved) :
    source.Tallied resolved.program resolved.own.tally ∧
    ∃ noted,
      Ends ((variableTypesNoted hook).walk course ⟨source, { journal := (journal, []) }⟩) noted ∧
      noted.seen (Progress.seen Prod.fst) = resolved ∧
      resolved.own.tally.settled = noted.own.journal.2.length ∧
      ∀ later final,
        Ends (indexCompanions.walk later ⟨resolved.program, .start resolved.own.tally⟩) final →
        source.Tallied final.program final.own.tally ∧
        ∃ completed,
          Ends (indexCompanionsNoted.walk later
            ⟨resolved.program, (.start resolved.own.tally, [])⟩) completed ∧
          completed.seen Prod.fst = final ∧
          final.own.tally.settled = noted.own.journal.2.length + completed.own.2.length := by
  obtain ⟨note, rfl⟩ := quiet.exists_noting
  have counted := counted_of_variableTypes note ends
  -- The run with notes is the same run, seen with more in the journal.
  have mirrors := (mirrors_variableTypesNoted (.noting note)).walk course
  obtain ⟨noted, walked, rfl⟩ :
    ∃ noted, Ends ((variableTypesNoted (.noting note)).walk course
        ⟨source, { journal := (journal, []) }⟩) noted ∧
      noted.seen (Progress.seen Prod.fst) = resolved := mirrors.exists_of_ends ends
  have matched := settled_of_variableTypesNoted walked
  refine ⟨counted.tallied, noted, walked, rfl, matched, fun later final completes => ?_⟩
  refine ⟨(counted.indexCompanions completes).tallied, ?_⟩
  have mirrors := mirrors_indexCompanionsNoted.walk later
  obtain ⟨completed, completing, rfl⟩ :
    ∃ completed, Ends (indexCompanionsNoted.walk later
        ⟨noted.program, (.start noted.own.tally, [])⟩) completed ∧
      completed.seen Prod.fst = final := mirrors.exists_of_ends completes
  have settled := settled_of_indexCompanionsNoted completing
  rw [matched] at settled
  exact ⟨completed, completing, rfl, settled⟩

def arrayOverNothingCalls : List Call :=
  [.addModule, .addExpression (.literal 0), .addType (.index ⟨0⟩),
    .addType (.domain 1 none (some ⟨7⟩)), .declareVar ⟨1⟩ "D" ⟨8⟩,
    .addType (.sequence ⟨1⟩), .declareVar ⟨1⟩ "s" ⟨9⟩,
    .addType (.sequence ⟨1⟩), .addType (.array ⟨10⟩ ⟨0⟩ none), .declareVar ⟨1⟩ "a" ⟨11⟩]

/-- The walk fails at the array once its element has been reused, so three builders returned; the
companion of the domain makes four. -/
theorem tally_matches_run_of_array_over_nothing :
    SequenceHook.recording.Quiet ∧
    ∃ (source : Program) (failure : Failure) (resolved : Walker (Progress (List TypeRef)))
      (final : Walker CompanionWalk),
      layOut arrayOverNothingCalls = .ok source ∧
      (variableTypes .recording).walk .program ⟨source, { journal := [] }⟩ =
        .error (.failed failure) resolved ∧
      resolved.own.tally = { domains := 1, sequences := 1, reused := 1 } ∧
      indexCompanions.walk .program ⟨resolved.program, .start resolved.own.tally⟩ =
        .ok () final ∧
      final.own.tally = { domains := 1, sequences := 1, indices := 1, reused := 1 } ∧
      source.Tallied final.program final.own.tally ∧
      ∃ noted completed,
        Ends ((variableTypesNoted .recording).walk .program
          ⟨source, { journal := ([], []) }⟩) noted ∧ noted.own.journal.2.length = 3 ∧
        Ends (indexCompanionsNoted.walk .program
          ⟨resolved.program, (.start resolved.own.tally, [])⟩) completed ∧
        completed.own.2.length = 1 := by
  have quiet : SequenceHook.recording.Quiet := fun _ _ _ => ⟨_, rfl⟩
  obtain ⟨source, isBuilt, ⟨failure, resolved⟩, isFailed, ⟨answer, final⟩, isFinal, first, last⟩ :
    ∃ source ∈ (layOut arrayOverNothingCalls).toOption,
      ∃ resolved ∈ failed? ((variableTypes .recording).walk .program ⟨source, { journal := [] }⟩),
        ∃ final ∈ answer? (indexCompanions.walk .program
            ⟨resolved.2.program, .start resolved.2.own.tally⟩),
          resolved.2.own.tally = { domains := 1, sequences := 1, reused := 1 } ∧
          final.2.own.tally = { domains := 1, sequences := 1, indices := 1, reused := 1 } := by
    decide +kernel
  have ran := failed?_eq_some_iff.mp isFailed
  have settled := answer?_eq_some_iff.mp isFinal
  obtain ⟨-, noted, walked, -, returned, after⟩ := tally_matches_run quiet (.inr ⟨failure, ran⟩)
  obtain ⟨tallied, completed, completing, -, all⟩ := after .program final (.inl ⟨answer, settled⟩)
  rw [first] at returned
  rw [last, ← returned] at all
  exact ⟨quiet, source, failure, resolved, final, Except.toOption_eq_some_iff.mp isBuilt, ran,
    first, settled, last, tallied, noted, completed, walked, returned.symm, completing,
    (Nat.add_left_cancel all).symm⟩

end StructuralTypes
