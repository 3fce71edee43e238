import StructuralTypes.Proofs.Interruption

/-! The single changes that settling companions consists of. What this walk declares are index
types, and everything that was declared before stays where it is. -/

namespace StructuralTypes

namespace Program

variable {before after : Program}

/-- One change that settling companions makes. -/
inductive CompanionStep (before : Program) : Program → Prop
  | intern (text : String) :
      CompanionStep before { before with names := (before.names.intern text).2 }
  | introduce {companion : TypeRef} {subject : ExpressionRef} {text : String}
      {statement : StatementRef} {content : Scope} {after : Program}
      (stored : before.types.get? companion = some { form := .index subject, symbol := none })
      (scopeStored : before.scopes.get? sharedScope = some content)
      (free : content.lookup (before.names.intern text).1 = none)
      (introduces : before.Introduces sharedScope text companion id (.before statement) after)
      (keyed : ∃ domain, text = (CanonicalKey.indexOfDomain domain).name) :
      CompanionStep before after
  | recompanion {type : TypeRef} {rank : Nat} {parent : Option TypeRef}
      {companion canonical : TypeRef} {symbol : Option SymbolRef} {types : Arena .type TypeNode}
      (stored : before.types.get? type =
        some { form := .domain rank parent (some companion), symbol })
      (modified : before.types.modify type
        (fun node => { node with form := node.form.withCompanion canonical }) = .ok types)
      (settled : canonical = companion ∨
        ∃ domain, before.BindsKey (.indexOfDomain domain) canonical) :
      CompanionStep before { before with types }

abbrev CompanionSteps : Program → Program → Prop := Relation.ReflTransGen CompanionStep

theorem CompanionStep.continues (step : CompanionStep before after) : Continues before after := by
  cases step with
  | intern text => exact (Extends.intern before text).continues (keepsScopes_of_eq rfl)
  | introduce stored scopeStored free introduces =>
      exact (introduces.extends stored (.same _) scopeStored free).continues
        (keepsScopes_of_bind introduces.scopes)
  | recompanion stored modified =>
      exact (Extends.changeForm stored (by exact .domain (.inl rfl) rfl) (fun _ => by exact .domain)
        (fun _ found => .inr found) modified).continues (keepsScopes_of_eq rfl)

theorem CompanionSteps.continues (steps : CompanionSteps before after) :
    Continues before after := by
  induction steps with
  | refl => exact .refl before
  | tail _ step induction => exact induction.trans step.continues

theorem CompanionStep.symbol_kept (step : CompanionStep before after) {ref : SymbolRef}
    {symbol : Symbol} (stored : before.symbols.get? ref = some symbol) :
    after.symbols.get? ref = some symbol := by
  cases step with
  | intern | recompanion => exact stored
  | introduce _ _ _ introduces => exact introduces.old_symbol stored

theorem CompanionSteps.symbol_kept (steps : CompanionSteps before after) {ref : SymbolRef}
    {symbol : Symbol} (stored : before.symbols.get? ref = some symbol) :
    after.symbols.get? ref = some symbol := by
  induction steps with
  | refl => exact stored
  | tail _ step induction => exact step.symbol_kept induction

theorem CompanionStep.symbol_cases (step : CompanionStep before after) {ref : SymbolRef}
    {symbol : Symbol} (stored : after.symbols.get? ref = some symbol) :
    before.symbols.get? ref = some symbol ∨ ∃ subject,
      after.types.get? symbol.type = some { form := .index subject, symbol := some ref } := by
  cases step with
  | intern | recompanion => exact .inl stored
  | introduce anonymous _ _ introduces =>
      rw [introduces.symbols] at stored
      rcases Arena.eq_next_or_get?_of_push stored with ⟨rfl, rfl⟩ | old
      · exact .inr ⟨_, introduces.type_same anonymous⟩
      · exact .inl old

theorem CompanionSteps.symbol_cases (steps : CompanionSteps before after) {ref : SymbolRef}
    {symbol : Symbol} (stored : after.symbols.get? ref = some symbol) :
    before.symbols.get? ref = some symbol ∨ ∃ subject,
      after.types.get? symbol.type = some { form := .index subject, symbol := some ref } := by
  induction steps with
  | refl => exact .inl stored
  | tail _ step induction =>
      rcases step.symbol_cases stored with old | isIndex
      · refine (induction old).imp_right ?_
        rintro ⟨subject, found⟩
        rcases step.continues.types _ _ _ found with ⟨later, laterFound, recompanions⟩
        cases recompanions
        exact ⟨subject, laterFound⟩
      · exact .inr isIndex

theorem Visits.companionSteps {statement : StatementRef} {type : TypeRef}
    (visits : before.Visits statement type after) : CompanionSteps before after := by
  cases visits with
  | passed => exact .refl
  | settled stored anonymous _ settles recorded =>
      have different := ne_of_shape_ne stored anonymous (by simp [TypeForm.shape])
      have storedMiddle := (settles.type_other different).trans stored
      refine Relation.ReflTransGen.tail ?_ (.recompanion storedMiddle recorded
        (settles.self_or_bindsKey.imp_right fun bound => ⟨_, bound⟩))
      cases settles with
      | reused => exact .single (.intern _)
      | created scopeStored free located introduces =>
          cases located
          exact .single (.introduce anonymous scopeStored free introduces ⟨_, rfl⟩)

theorem Completes.companionSteps {statement : StatementRef} {types : List TypeRef}
    (completes : Completes statement before types after) : CompanionSteps before after := by
  induction completes with
  | nil => exact .refl
  | cons visits _ _ _ inner later => exact (visits.companionSteps.trans inner).trans later

theorem CompletesAll.companionSteps {order : List StatementRef}
    (completes : CompletesAll before order after) : CompanionSteps before after := by
  induction completes with
  | nil => exact .refl
  | declaration _ _ _ completes _ induction => exact completes.companionSteps.trans induction
  | other _ _ _ induction => exact induction

end Program

/-! ## The walk takes these steps -/

theorem settleCompanion_eq_failed {type companion : TypeRef} {before after : Session Unit}
    {failure : Failure}
    (ran : Canon.settleCompanion type companion before = .error (.failed failure) after) :
    after = before := by
  simp only [Canon.settleCompanion, bind_eq_error_iff, Canon.ask_eq_failed_iff, false_or,
    Canon.ask_eq_ok_iff] at ran
  rcases ran with ⟨shape, _, ⟨-, rfl⟩, holder, _, ⟨-, rfl⟩, ran⟩
  split at ran
  · simp [pure_eq_error_iff] at ran
  · simp only [bind_eq_error_iff, Canon.ask_eq_failed_iff, false_or, Canon.ask_eq_ok_iff] at ran
    rcases ran with ⟨name, _, ⟨-, rfl⟩, ran⟩
    cases name with
    | none => exact (Canon.fail_eq_failed_iff.mp ran).2
    | some text =>
        simp only [bind_eq_error_iff, Canon.inScope_eq_error_iff, get_eq_error_iff, get_eq_ok_iff,
          Canon.perform_eq_failed_iff, and_false, exists_false, or_false, false_or] at ran
        rcases ran with ⟨_, ⟨_, _, ⟨rfl, rfl⟩, settling⟩, -⟩
        rcases (settle_eq_failed settling).1 with ⟨_, isAfter⟩
        cases isAfter
  · exact (Canon.fail_eq_failed_iff.mp ran).2

theorem visitType_eq_failed {type : TypeRef} {before after : Walker CompanionWalk}
    {failure : Failure}
    (ran : indexCompanions.visitType type before = .error (.failed failure) after) :
    after = before := by
  simp only [indexCompanions, bind_eq_error_iff, get_eq_error_iff, get_eq_ok_iff,
    false_or] at ran
  rcases ran with ⟨_, before, ⟨rfl, rfl⟩, ran⟩
  cases current : before.own.current with
  | none => simp [current, pure_eq_error_iff] at ran
  | some here =>
      simp only [current, bind_eq_error_iff, Walk.ask_eq_failed_iff, false_or,
        Walk.ask_eq_ok_iff] at ran
      rcases ran with ⟨form, _, ⟨-, rfl⟩, ran⟩
      split at ran
      · simp only [CompanionWalk.within, Walk.focus_eq_error_iff,
          Canon.within_eq_error_iff] at ran
        rcases ran with ⟨_, ⟨inner, failing, rfl⟩, rfl⟩
        rw [settleCompanion_eq_failed failing]
      · simp [pure_eq_error_iff] at ran

theorem visitType_of_idle {type : TypeRef} {before after : Walker CompanionWalk} {answer : Unit}
    (idle : before.own.current = none)
    (ran : indexCompanions.visitType type before = .ok answer after) : after = before := by
  simp only [indexCompanions, bind_eq_ok_iff, get_eq_ok_iff] at ran
  rcases ran with ⟨_, _, ⟨rfl, rfl⟩, ran⟩
  simp only [idle, pure_eq_ok_iff] at ran
  exact ran.2.symm

theorem takes_visitType (type : TypeRef) :
    (indexCompanions.visitType type).Takes Program.CompanionStep := by
  rintro before after (⟨answer, ran⟩ | ⟨failure, ran⟩)
  · cases current : before.own.current with
    | none => rw [visitType_of_idle current ran]
    | some here => exact (visits_of_visitType current ran).1.companionSteps
  · rw [visitType_eq_failed ran]

theorem takes_indexCompanions : indexCompanions.Takes Program.CompanionStep where
  enter _ := (Walk.takes_ask _).bind fun _ => Walk.takes_update _
  visit := takes_visitType
  leave _ := show (CompanionWalk.setCurrent none).Takes _ from Walk.takes_update _

/-- Without a fault, a canonicalization takes the steps of its two walks. -/
theorem canonicalizeTypes_ends {options : Options} {before after : Walker (Progress Unit)}
    (ends : Ends (canonicalizeTypes .silent options before) after) :
    ∃ middle : Walker (Progress Unit),
      endState ((variableTypes .silent).walkProgram before) = middle ∧
      before.program.Steps middle.program ∧ middle.program.CompanionSteps after.program := by
  have takes := takes_variableTypes.walkProgram before
  rcases ends_bind_iff.mp ends with ⟨failure, ran⟩ | ⟨_, middle, ran, rest⟩
  · exact ⟨after, by rw [ran]; rfl, takes after (.inr ⟨failure, ran⟩), .refl⟩
  · refine ⟨middle, by rw [ran]; rfl, takes middle (.inl ⟨_, ran⟩), ?_⟩
    split at rest
    · obtain ⟨inner, walked, rfl⟩ := Walk.ends_focus rest
      exact takes_indexCompanions.walkProgram _ _ walked
    · exact Walk.takes_pure _ _ _ rest

end StructuralTypes
