import StructuralTypes.Proofs.Mirroring
import StructuralTypes.Proofs.Homes
import StructuralTypes.Proofs.Operations

/-! The books of a run. Whatever canonicalizing variables does, one entry after the other changes
the program and what is counted and journaled together: a declaration is counted in the entry that
makes it, and in no other one. -/

namespace StructuralTypes

/-! ## Hooks that only note their calls -/

namespace SequenceHook

variable {τ : Type}

def noting (note : Program → TypeRef → τ → τ) : SequenceHook τ where
  materialize type journal := fun program => .ok (note program type journal) program

def witnessing : SequenceHook (List (TypeRef × Program)) :=
  noting fun program type calls => calls ++ [(type, program)]

theorem recording_eq_noting : recording = noting fun _ type calls => calls ++ [type] :=
  rfl

theorem noting_mirrors_silent (note : Program → TypeRef → τ → τ) :
    (noting note).Mirrors (fun _ => ()) silent :=
  fun _ _ => rfl

theorem witnessing_mirrors_recording : witnessing.Mirrors (List.map Prod.fst) recording := by
  intro type calls
  funext program
  change EStateM.Result.ok (calls.map Prod.fst ++ [type]) program =
    .ok ((calls ++ [(type, program)]).map Prod.fst) program
  rw [List.map_append]
  rfl

end SequenceHook

/-! ## Entries -/

namespace Program

def Owned (program : Program) (type : TypeRef) : Prop :=
  ∃ form ref symbol, program.types.get? type = some { form, symbol := some ref } ∧
    program.symbols.get? ref = some symbol

/-- A change that declares nothing. What is declared keeps its element, and a symbol that declares a
type other than a scalar keeps that type. -/
inductive Revises (before : Program) : Program → Prop
  | intern (text : String) : Revises before { before with names := (before.names.intern text).2 }
  | reform {type : TypeRef} {change : TypeForm → TypeForm} {types : Arena .type TypeNode}
      (shaped : ∀ form, (change form).shape = form.shape)
      (kept : ∀ form ref, before.types.get? type = some { form, symbol := some ref } →
        (change form).element? = form.element?)
      (modified : before.types.modify type
        (fun node => { node with form := change node.form }) = .ok types) :
      Revises before { before with types }
  | retype {var : SymbolRef} {symbol : Symbol} {type : TypeRef} {symbols : Arena .symbol Symbol}
      (stored : before.symbols.get? var = some symbol)
      (free : ∀ form, before.types.get? symbol.type = some { form, symbol := some var } →
        form.Scalar)
      (modified : before.symbols.modify var (fun symbol => { symbol with type }) = .ok symbols) :
      Revises before { before with symbols }

end Program

section

variable {τ α β : Type} {note : Program → TypeRef → τ → τ}

def Progress.declared (note : Program → TypeRef → τ → τ) (program : Program) (shape : Shape)
    (type : TypeRef) (own : Progress τ) : Progress τ where
  tally := own.tally.countCreated shape
  journal := if shape = .sequence then note program type own.journal else own.journal

/-- One entry in the books: a change of the program, with what is counted and journaled for it. -/
inductive Entry (note : Program → TypeRef → τ → τ) (before : Walker (Progress τ)) :
    Walker (Progress τ) → Prop
  | revise {program : Program} (revises : before.program.Revises program) :
      Entry note before { before with program }
  | reuse : Entry note before
      { before with own := { before.own with tally := before.own.tally.countReused } }
  | declare {scope : ScopeRef} {text : String} {fresh : TypeRef} {form : TypeForm}
      {position : Position} {program : Program}
      (stored : before.program.types.get? fresh = some { form, symbol := none })
      (structural : ¬form.Scalar)
      (named : ∀ element, form.element? = some element → before.program.Owned element)
      (free : before.program.Free scope (before.program.names.intern text).1)
      (introduces : before.program.Introduces scope text fresh id position program) :
      Entry note before ⟨program, before.own.declared note program form.shape fresh⟩

abbrev Books (note : Program → TypeRef → τ → τ) :
    Walker (Progress τ) → Walker (Progress τ) → Prop :=
  Relation.ReflTransGen (Entry note)

namespace Canon

/-! ## Computations that only read -/

variable {before : Session τ} {reach : Session τ → Session τ → Prop}

theorem leads_ask [Std.Refl reach] (question : Program → Except Fault α) :
    Leads reach (ask question : Canon τ α) before := by
  refine leads_of_unchanged ?_
  rintro after (⟨answer, ran⟩ | ⟨failure, ran⟩)
  · exact (ask_eq_ok_iff.mp ran).2
  · exact (ask_eq_failed_iff.mp ran).elim

theorem leads_fail [Std.Refl reach] (cause : Cause) :
    Leads reach (fail cause : Canon τ α) before := by
  refine leads_of_unchanged ?_
  rintro after (⟨answer, ran⟩ | ⟨failure, ran⟩)
  · exact (fail_eq_ok_iff.mp ran).elim
  · exact (fail_eq_failed_iff.mp ran).2

theorem leads_fault (fault : Fault) : Leads reach (Canon.fault fault : Canon τ α) before := by
  rintro after (⟨answer, ran⟩ | ⟨failure, ran⟩)
  · exact (fault_eq_ok_iff.mp ran).elim
  · exact (fault_eq_failed_iff.mp ran).elim

theorem leads_perform {edit : Edit α}
    (leads : ∀ answer program, edit before.program = .ok answer program →
      reach before { before with program }) : Leads reach (perform edit) before := by
  rintro after (⟨answer, ran⟩ | ⟨failure, ran⟩)
  · obtain ⟨program, edited, rfl⟩ := perform_eq_ok_iff.mp ran
    exact leads answer program edited
  · exact (perform_eq_failed_iff.mp ran).elim

section

variable [Std.Refl reach] [IsTrans (Session τ) reach]

theorem leads_expectAnonymous (type : TypeRef) :
    Leads reach (expectAnonymous type : Canon τ Unit) before := by
  refine (leads_ask _).bind fun name middle _ => ?_
  cases name with
  | none => exact leads_pure _
  | some name => exact (leads_ask _).bind fun _ _ _ => leads_fail _

theorem leads_componentNames (position : Nat) (components : List TypeRef) :
    Leads reach (componentNames position components : Canon τ (List String)) before := by
  induction components generalizing position before with
  | nil => exact leads_pure _
  | cons head tail induction =>
      refine (leads_ask _).bind fun name middle _ => ?_
      cases name with
      | some name => exact (induction (position + 1)).bind fun _ _ _ => leads_pure _
      | none => exact leads_fail _

theorem leads_indexKeyOfVariable (symbol : SymbolRef) (lookupScope : ScopeRef) :
    Leads reach (indexKeyOfVariable symbol lookupScope : Canon τ CanonicalKey) before := by
  refine (leads_ask _).bind fun declared _ _ => (leads_ask _).bind fun found middle _ => ?_
  cases found with
  | none => exact (leads_ask _).bind fun _ _ _ => leads_fail _
  | some found =>
      refine (leads_ask _).bind fun denoting _ _ => (leads_ask _).bind fun shape _ _ => ?_
      split
      · refine (leads_ask _).bind fun name middle _ => ?_
        cases name with
        | some text => exact leads_pure _
        | none => exact leads_fail _
      · exact (leads_ask _).bind fun _ _ _ => leads_fail _

theorem leads_indexKey (subject : ExpressionRef) (lookupScope : ScopeRef) :
    Leads reach (indexKey subject lookupScope : Canon τ CanonicalKey) before := by
  refine (leads_ask _).bind fun expression middle _ => ?_
  cases expression with
  | literal value => exact leads_pure _
  | iteration domains => exact leads_fail _
  | reference symbol => exact leads_indexKeyOfVariable symbol lookupScope

theorem leads_rangeDomain (range : ExpressionRef) :
    Leads reach (rangeDomain range : Canon τ (TypeRef × Nat)) before := by
  refine (leads_ask _).bind fun expression _ _ => ?_
  split
  · refine (leads_ask _).bind fun single _ _ => ?_
    split
    · refine (leads_ask _).bind fun symbol _ _ => (leads_ask _).bind fun form _ _ => ?_
      split
      · exact leads_pure _
      · exact (leads_ask _).bind fun _ _ _ => leads_fail _
    · exact leads_fail _
  · exact leads_fail _
  · exact leads_fail _

theorem leads_elementSymbol (shape : Shape) (element : TypeRef) :
    Leads reach (elementSymbol shape element : Canon τ SymbolRef) before := by
  refine (leads_ask _).bind fun symbol middle _ => ?_
  cases symbol with
  | some symbol => exact leads_pure _
  | none => exact (leads_ask _).bind fun _ _ _ => leads_fail _

end

/-! ## Settling a type is one entry -/

theorem settle_books_of_failed {walker : Walker (Progress τ)} {scope : ScopeRef}
    {statement : StatementRef} {text : String} {fresh : TypeRef} {placement : Placement}
    {after : Session τ} {failure : Failure}
    (ran : settle text fresh placement ⟨walker, scope, statement⟩ =
      .error (.failed failure) after) : Books note walker after.toWalker := by
  rcases settle_eq_unanchored ran with ⟨_, _, _, _, _, _, _, _, _, rfl⟩
  exact .single (.revise (.intern text))

/-! ## What a session does is entered -/

abbrev Entered (note : Program → TypeRef → τ → τ) : Session τ → Session τ → Prop :=
  Function.onFun (Books note) Session.toWalker

theorem leads_inScope {scope : ScopeRef} {action : Canon τ α}
    (leads : Leads (Entered note) action { before with scope }) :
    Leads (Entered note) (inScope scope action) before := by
  rintro after (⟨answer, ran⟩ | ⟨failure, ran⟩)
  · obtain ⟨inner, done, rfl⟩ := inScope_eq_ok_iff.mp ran
    exact leads inner (.inl ⟨answer, done⟩)
  · obtain ⟨inner, done, rfl⟩ := inScope_eq_error_iff.mp ran
    exact leads inner (.inr ⟨failure, done⟩)

theorem leads_changeForm {type : TypeRef} {change : TypeForm → TypeForm}
    (shaped : ∀ form, (change form).shape = form.shape)
    (kept : ∀ form ref, before.program.types.get? type = some { form, symbol := some ref } →
      (change form).element? = form.element?) :
    Leads (Entered note) (perform (.changeForm type change)) before := by
  refine leads_perform fun _ program edited => ?_
  obtain ⟨types, modified, rfl⟩ := Edit.changeForm_eq_ok_iff.mp edited
  exact .single (.revise (.reform shaped kept modified))

section

variable {walker : Walker (Progress τ)} {scope : ScopeRef} {statement : StatementRef}
  {fresh : TypeRef} {form : TypeForm} {text : String} {placement : Placement} {after : Session τ}

theorem entered_of_reused {existing : TypeRef}
    (ran : settle text fresh placement ⟨walker, scope, statement⟩ = .ok (.reused existing) after) :
    Books note walker after.toWalker := by
  rcases settle_eq_reused ran with ⟨_, _, _, _, _, rfl⟩
  exact (Relation.ReflTransGen.single (Entry.revise (.intern text))).tail .reuse

variable (stored : walker.program.types.get? fresh = some { form, symbol := none })
  (structural : ¬form.Scalar)
  (named : ∀ element, form.element? = some element → walker.program.Owned element)
include stored structural named

theorem entered_of_created {created : TypeRef}
    (ran : settle text fresh placement ⟨walker, scope, statement⟩ = .ok (.created created) after) :
    created = fresh ∧ Books note walker ⟨after.program,
      { after.own with
        journal := if form.shape = .sequence then note after.program fresh after.own.journal
          else after.own.journal }⟩ := by
  rcases settle_eq_created ran with
    ⟨rfl, _, _, position, program, again, free, -, introduces, rfl⟩
  cases Option.mem_unique stored again
  exact ⟨rfl, .single (.declare stored structural named free introduces)⟩

theorem leads_settle (quiet : form.shape ≠ .sequence) :
    Leads (Entered note) (settle text fresh placement) ⟨walker, scope, statement⟩ := by
  rintro after (⟨settled, ran⟩ | ⟨failure, ran⟩)
  · cases settled with
    | reused existing => exact entered_of_reused ran
    | created created =>
        have entered : _ ∧ Books note walker _ := entered_of_created stored structural named ran
        rw [if_neg quiet] at entered
        exact entered.2
  · exact settle_books_of_failed ran

theorem leads_settleShared (quiet : form.shape ≠ .sequence) (key : CanonicalKey) :
    Leads (Entered note) (settleShared key fresh) ⟨walker, scope, statement⟩ :=
  leads_inScope ((leads_settle stored structural named quiet).bind fun _ _ _ => leads_pure _)

end

/-! ## Leaves -/

theorem leads_form {type : TypeRef} {rest : TypeForm → Canon τ α}
    (leads : ∀ form symbol, before.program.types.get? type = some { form, symbol } →
      Leads (Entered note) (rest form) before) :
    Leads (Entered note) (ask (·.form type) >>= rest) before := by
  refine (leads_ask _).bind fun form before asked => ?_
  obtain ⟨⟨symbol, stored⟩, rfl⟩ := (ask_eq_ok_iff.mp asked).imp_left Program.form_eq_ok_iff.mp
  exact leads form symbol stored

theorem leads_anonymous {type : TypeRef} {form : TypeForm} {symbol : Option SymbolRef}
    {rest : Unit → Canon τ α} (stored : before.program.types.get? type = some { form, symbol })
    (leads : before.program.types.get? type = some { form, symbol := none } →
      Leads (Entered note) (rest ()) before) :
    Leads (Entered note) (expectAnonymous type >>= rest) before := by
  refine (leads_expectAnonymous type).bind fun _ _ anonymous => ?_
  obtain ⟨rfl, isNone⟩ := expectAnonymous_eq_ok anonymous
  cases isNone _ _ stored
  exact leads stored

theorem leads_domain (type : TypeRef) :
    Leads (Entered note) (domain type : Canon τ TypeRef) before := by
  refine leads_form fun form symbol stored => ?_
  split
  · refine leads_anonymous stored fun stored => ?_
    split
    · exact leads_fail _
    · refine (leads_changeForm (by simp) fun _ _ named => ?_).bind fun _ middle changed => ?_
      · rw [stored] at named
        cases named
      · obtain ⟨_, edited, rfl⟩ := perform_eq_ok_iff.mp changed
        obtain ⟨types, modified, rfl⟩ := Edit.changeForm_eq_ok_iff.mp edited
        have here := (Arena.get?_of_modify_same modified).trans (congrArg _ stored)
        refine leads_settleShared here ?_ ?_ ?_ _ <;>
          simp [TypeForm.Scalar, TypeForm.shape, TypeForm.withRank, TypeForm.element?]
  · exact leads_fail _

theorem leads_tuple (type : TypeRef) :
    Leads (Entered note) (tuple type : Canon τ TypeRef) before := by
  refine leads_form fun form symbol stored => ?_
  split
  · refine leads_anonymous stored fun stored => ?_
    refine (leads_componentNames _ _).bind fun names middle naming => ?_
    obtain ⟨rfl, -⟩ := componentNames_eq_ok naming
    refine leads_settleShared stored ?_ ?_ ?_ _ <;>
      simp [TypeForm.Scalar, TypeForm.shape, TypeForm.element?]
  · exact leads_fail _

theorem leads_index (type : TypeRef) (lookupScope : ScopeRef) :
    Leads (Entered note) (index type lookupScope : Canon τ TypeRef) before := by
  refine leads_form fun form symbol stored => ?_
  split
  · refine leads_anonymous stored fun stored => ?_
    refine (leads_indexKey _ lookupScope).bind fun key middle keying => ?_
    obtain rfl : _ = middle := leads_indexKey _ _ middle (.inl ⟨key, keying⟩)
    refine leads_settleShared stored ?_ ?_ ?_ _ <;>
      simp [TypeForm.Scalar, TypeForm.shape, TypeForm.element?]
  · exact leads_fail _

theorem leads_indexOrSelf (type : TypeRef) (lookupScope : ScopeRef) :
    Leads (Entered note) (indexOrSelf type lookupScope : Canon τ TypeRef) before := by
  refine (leads_ask _).bind fun shape middle _ => ?_
  split
  · exact leads_index type lookupScope
  · exact leads_pure _

/-! ## Arrays and sequences -/

section

variable {action : TypeRef → Canon τ TypeRef} {other : TypeRef → Canon Unit TypeRef}
  (mirrors : ∀ type, Mirrors (Session.seen fun _ => ()) (action type) (other type))
  (ruled : Ruled other) (leads : ∀ type before, Leads (Entered note) (action type) before)
include mirrors ruled

section

variable {type element : TypeRef} {form : TypeForm}
  (stored : before.program.types.get? type = some { form, symbol := none })
  (found : form.element? = some element)
include stored found

theorem settleElement_stands {shape : Shape} {ref : SymbolRef} {home : Home} {after : Session τ}
    (ran : settleElement shape action type element before = .ok (ref, home) after) :
    ∃ inner, after.program.Owned inner ∧ (form.withElement inner).element? = some inner ∧
      after.program.types.get? type = some { form := form.withElement inner, symbol := none } := by
  obtain ⟨-, inner, middle, types, nested, rewritten, same, named, beside⟩ :=
    settleElement_eq_ok ruled ((mirrors_settleElement mirrors shape type element).ok ran)
  rw [show after.program = { middle with types } from same]
  obtain ⟨innerForm, innerStored⟩ := Program.typeSymbol?_eq_ok_iff.mp named
  obtain ⟨symbol, -, symbolStored, -⟩ := Program.homeBeside_eq_ok_iff.mp beside
  refine ⟨inner, ⟨innerForm, ref, symbol, innerStored, symbolStored⟩, ?_,
    (nested.takes_in stored found rewritten).2⟩
  cases form <;> first | rfl | cases found

include leads

theorem leads_settleElement (shape : Shape) :
    Leads (Entered note) (settleElement shape action type element) before := by
  refine (leads element before).bind fun inner middle ran => ?_
  have still : middle.program.types.get? type = some { form, symbol := none } :=
    (ruled _ _ _ _ ((mirrors element).ok ran)).2.outer_kept stored found
  refine (leads_changeForm (by simp) fun _ _ named => ?_).bind fun _ _ _ =>
    (leads_elementSymbol _ _).bind fun _ _ _ => (leads_ask _).bind fun _ _ _ => leads_pure _
  rw [still] at named
  cases named

end

include leads

theorem leads_arrayWith (type : TypeRef) :
    Leads (Entered note) (arrayWith action type) before := by
  refine leads_form fun form symbol stored => ?_
  split
  · refine leads_anonymous stored fun stored => ?_
    refine (leads_settleElement mirrors ruled leads stored rfl _).bind
      fun pair middle settling => ?_
    obtain ⟨inner, named, found, here⟩ := settleElement_stands mirrors ruled stored rfl settling
    refine leads_inScope ((leads_rangeDomain _).bind fun ranged _ ranging => ?_)
    obtain ⟨rfl, -⟩ := rangeDomain_eq_ok ranging
    refine (leads_ask _).bind fun text _ asked => ?_
    obtain ⟨-, rfl⟩ := ask_eq_ok_iff.mp asked
    refine (leads_settle here (by simp [TypeForm.Scalar, TypeForm.shape, TypeForm.withElement])
      ?_ (by simp [TypeForm.shape, TypeForm.withElement])).bind fun settled _ _ => ?_
    · intro element isElement
      cases found.symm.trans isElement
      exact named
    · cases settled with
      | reused existing => exact leads_pure _
      | created created =>
          refine (leads_changeForm (by simp) fun form _ _ => ?_).bind fun _ _ _ => leads_pure _
          cases form <;> rfl
  · exact leads_fail _

theorem leads_sequenceWith (type : TypeRef) :
    Leads (Entered note) (sequenceWith (.noting note) action type) before := by
  refine leads_form fun form symbol stored => ?_
  split
  · refine leads_anonymous stored fun stored => ?_
    refine (leads_settleElement mirrors ruled leads stored rfl _).bind
      fun pair middle settling => ?_
    obtain ⟨inner, named, found, here⟩ := settleElement_stands mirrors ruled stored rfl settling
    -- Settling and telling the hook are one entry, so they are not led along one by one.
    intro after ends
    rcases ends_bind_iff.mp ends with ⟨failure, failed⟩ | ⟨settled, last, ran, rest⟩
    · obtain ⟨_, stopped, rfl⟩ := inScope_eq_error_iff.mp failed
      rcases bind_eq_error_iff.mp stopped with asked | ⟨_, _, asked, settling⟩
      · exact (ask_eq_failed_iff.mp asked).elim
      · obtain ⟨-, rfl⟩ := ask_eq_ok_iff.mp asked
        have entered : Books note middle.toWalker _ := settle_books_of_failed settling
        exact entered
    · obtain ⟨last, done, rfl⟩ := inScope_eq_ok_iff.mp ran
      obtain ⟨_, _, asked, settling⟩ := bind_eq_ok_iff.mp done
      obtain ⟨-, rfl⟩ := ask_eq_ok_iff.mp asked
      cases settled with
      | reused existing =>
          have entered : Books note middle.toWalker _ := entered_of_reused settling
          rw [← eq_of_ends_pure rest]
          exact entered
      | created created =>
          have entered : _ ∧ Books note middle.toWalker _ := entered_of_created here
            (by simp [TypeForm.Scalar, TypeForm.shape, TypeForm.withElement])
            (fun element isElement => Option.some.inj (found.symm.trans isElement) ▸ named)
            settling
          obtain ⟨rfl, entered⟩ := entered
          rcases ends_bind_iff.mp rest with ⟨failure, failed⟩ | ⟨_, _, materialized, rest⟩
          · cases failed
          · cases materialized
            rw [← eq_of_ends_pure rest]
            exact entered
  · exact leads_fail _

end

/-! ## All levels -/

theorem leads_elementWith {composite : TypeRef → Canon τ TypeRef}
    (leads : ∀ type before, Leads (Entered note) (composite type) before) (element : TypeRef)
    (before : Session τ) : Leads (Entered note) (elementWith composite element) before := by
  refine (leads_ask _).bind fun symbol _ _ => ?_
  cases symbol with
  | some symbol => exact leads_pure _
  | none =>
      refine (leads_ask _).bind fun shape _ _ => ?_
      split
      · exact leads_get.bind fun session _ _ => leads_index element session.scope
      · exact leads element _

theorem leads_compositeWithin (depth : Nat) (type : TypeRef) (before : Session τ) :
    Leads (Entered note) (compositeWithin (.noting note) depth type) before := by
  induction depth generalizing type before with
  | zero => exact leads_fault _
  | succ depth induction =>
      have mirrors := mirrors_elementWith
        (mirrors_compositeWithin (SequenceHook.noting_mirrors_silent note) depth)
      have leads := leads_elementWith induction
      refine (leads_ask _).bind fun shape _ _ => ?_
      cases shape with
      | array => exact leads_arrayWith mirrors (ruled_elements depth) leads type
      | domain => exact leads_domain type
      | tuple => exact leads_tuple type
      | sequence => exact leads_sequenceWith mirrors (ruled_elements depth) leads type
      | primitive | nominal | index => exact leads_pure _

theorem leads_declaredType (type : TypeRef) (scope : ScopeRef) (before : Session τ) :
    Leads (Entered note) (declaredType (.noting note) type scope) before := by
  refine Leads.bind ?_ fun canonical middle _ => leads_indexOrSelf canonical scope
  exact Leads.bind (leads_get.bind fun _ _ _ => leads_pure _) fun depth middle _ =>
    leads_compositeWithin _ type middle

end Canon

/-! ## The walk over the variables -/

theorem Walk.leads_within {reach : Walker (Progress τ) → Walker (Progress τ) → Prop}
    {statement : StatementRef} {scope : ScopeRef} {action : Canon τ α}
    {before : Walker (Progress τ)}
    (leads : Leads (Function.onFun reach Session.toWalker) action
      { before with scope, statement }) :
    Leads reach (Canon.within statement scope action) before := by
  intro after ends
  obtain ⟨inner, done, rfl⟩ := Canon.ends_within ends
  exact leads inner done

theorem Program.Steps.new_holder {before after : Program} (steps : before.Steps after)
    {type : TypeRef} {form later : TypeForm} {ref : SymbolRef}
    (anonymous : before.types.get? type = some { form, symbol := none })
    (named : after.types.get? type = some { form := later, symbol := some ref }) :
    before.symbols.get? ref = none := by
  induction steps generalizing later with
  | refl =>
      rw [anonymous] at named
      cases named
  | @tail middle after steps step induction =>
      cases step with
      | intern => exact induction named
      | reform _ _ modified =>
          obtain ⟨old, oldStored⟩ := Program.declared_of_modify modified named
          exact induction oldStored
      | introduce _ _ _ _ _ _ _ introduces =>
          obtain ⟨old, stored, same⟩ := Arena.get?_eq_some_of_modify introduces.types named
          split at same
          · cases same
            exact (Steps.continues steps).next_symbol
          · cases same
            exact induction stored
      | retype => exact induction named

theorem Program.Adopts.not_declared {before after : Program} {scope : ScopeRef}
    {type canonical : TypeRef} (adopts : before.Adopts scope type canonical after)
    {var : SymbolRef} {symbol : Symbol} (stored : before.symbols.get? var = some symbol)
    {form : TypeForm} (declared : after.types.get? type = some { form, symbol := some var }) :
    form.Scalar := by
  have steps := adopts.steps
  cases adopts with
  | scalar found scalar =>
      cases found.symm.trans declared
      exact scalar
  | settled found | twice found =>
      rw [steps.new_holder found declared] at stored
      contradiction

theorem leads_variableTypes (note : Program → TypeRef → τ → τ) :
    (variableTypes (.noting note)).Leads (Books note) where
  visit _ _ := leads_pure _
  leave _ _ := leads_pure _
  enter ref before := by
    refine (Walk.leads_ask _).bind fun statement _ _ => ?_
    split
    · rename_i var
      refine (Walk.leads_ask _).bind fun symbol before asked => ?_
      obtain ⟨stored, rfl⟩ := (Walk.ask_eq_ok_iff.mp asked).imp_left Program.symbol_eq_ok_iff.mp
      refine (Walk.leads_within (Canon.leads_declaredType _ _ _)).bind
        fun canonical middle ran => ?_
      obtain ⟨inner, declared, rfl⟩ := Canon.within_eq_ok_iff.mp ran
      have hooks := SequenceHook.noting_mirrors_silent note
      have adopts := adopts_of_declaredType (by rfl)
        ((Canon.mirrors_declaredType hooks _ _).ok declared)
      rintro after (⟨_, ran⟩ | ⟨failure, ran⟩)
      · obtain ⟨program, edited, rfl⟩ := Walk.perform_eq_ok_iff.mp ran
        obtain ⟨symbols, modified, rfl⟩ := Edit.changeSymbol_eq_ok_iff.mp edited
        exact .single (.revise (.retype (adopts.symbols stored)
          (fun _ declared => adopts.not_declared stored declared) modified))
      · exact (Walk.perform_eq_failed_iff.mp ran).elim
    · exact leads_pure _

theorem Traversal.Leads.walk {ε σ : Type} {reach : Walker σ → Walker σ → Prop} [Std.Refl reach]
    [IsTrans (Walker σ) reach] {traversal : Traversal ε σ} (leads : traversal.Leads reach)
    (course : Course) (before : Walker σ) :
    StructuralTypes.Leads reach (traversal.walk course) before := by
  cases course with
  | program => exact leads.walkProgram before
  | statement ref => exact leads.walkStatement ref before
  | type type => exact leads.walkType type before

theorem Traversal.Mirrors.walk {ε σ ρ : Type} {view : σ → ρ} {first : Traversal ε σ}
    {second : Traversal ε ρ} (mirrors : Traversal.Mirrors view first second) (course : Course) :
    StructuralTypes.Mirrors (Walker.seen view) (first.walk course) (second.walk course) := by
  cases course with
  | program => exact mirrors.walkProgram
  | statement ref => exact mirrors.walkStatement ref
  | type type => exact mirrors.walkType type

end

end StructuralTypes
