import StructuralTypes.Proofs.Innermost
import StructuralTypes.Proofs.Fitting
import StructuralTypes.Proofs.Restoration

/-! Walks over the variables that fail. Such a walk has done what comes before the statement that
its failure names, variable by variable, and fails just as that statement does by itself. -/

namespace StructuralTypes

/-! ## Variables and their declarations -/

def StatementKind.var? : StatementKind → Option SymbolRef
  | .varDeclaration var => some var
  | .typeDeclaration _ | .expression _ | .block _ => none

theorem StatementKind.var?_eq_some_iff {kind : StatementKind} {var : SymbolRef} :
    kind.var? = some var ↔ kind = .varDeclaration var := by
  cases kind <;> simp [var?]

namespace Program

def declaredVar? (program : Program) (ref : StatementRef) : Option SymbolRef :=
  (program.layout.statements.get? ref).bind fun placed => placed.statement.kind.var?

variable {before after : Program} {ref : StatementRef} {var : SymbolRef} {type : TypeRef}

theorem declaredVar?_of_statement {statement : Statement}
    (found : before.statement ref = .ok statement) :
    before.declaredVar? ref = statement.kind.var? := by
  rcases Layout.statement_eq_ok_iff.mp found with ⟨body, stored⟩
  rw [declaredVar?, stored, Option.bind_some]

theorem Steps.declaredVar? (steps : Steps before after) (ref : StatementRef) :
    after.declaredVar? ref = before.declaredVar? ref := by
  have extension := steps.continues.layout
  cases stored : after.layout.statements.get? ref with
  | some placed =>
      rcases extension.synthesized ref placed stored with old | ⟨symbol, body, rfl⟩
      · rw [Program.declaredVar?, Program.declaredVar?, stored, old]
      · rw [Program.declaredVar?, Program.declaredVar?, stored]
        cases old : before.layout.statements.get? ref with
        | none => rfl
        | some placed =>
            cases Option.mem_unique (extension.statements ref placed old) stored
            rfl
  | none =>
      rw [Program.declaredVar?, Program.declaredVar?, stored]
      cases old : before.layout.statements.get? ref with
      | none => rfl
      | some placed =>
          rw [extension.statements ref placed old] at stored
          cases stored

theorem Resolves.typeOf?_of_other (resolves : before.Resolves ref after)
    (other : before.declaredVar? ref ≠ some var) (typed : before.typeOf? var = some type) :
    after.typeOf? var = some type := by
  cases resolves with
  | @declaration statement declared symbol canonical middle symbols found declares stored adopts
      changed =>
      rcases Option.map_eq_some_iff.mp typed with ⟨old, oldStored, rfl⟩
      have different : declared ≠ var := by
        rintro rfl
        exact other ((declaredVar?_of_statement found).trans
          (StatementKind.var?_eq_some_iff.mpr declares))
      apply typeOf?_eq_some
      exact (Arena.get?_of_modify_of_ne changed different).trans (adopts.symbols oldStored)
  | other => exact typed

theorem ResolvesAll.typeOf?_of_others {order : List StatementRef}
    (resolves : before.ResolvesAll order after) (others : ∀ ref ∈ order,
      before.declaredVar? ref ≠ some var) (typed : before.typeOf? var = some type) :
    after.typeOf? var = some type := by
  induction resolves with
  | nil => exact typed
  | cons first _ induction =>
      rw [List.forall_mem_cons] at others
      apply induction
      · intro ref member
        rw [first.steps.declaredVar?]
        exact others.2 ref member
      · exact first.typeOf?_of_other others.1 typed

theorem Resolves.exists_typeOf? (resolves : before.Resolves ref after)
    (declares : before.declaredVar? ref = some var) : ∃ type, before.typeOf? var = some type := by
  cases resolves with
  | declaration found isVar stored =>
      rw [declaredVar?_of_statement found, isVar] at declares
      cases declares
      exact ⟨_, typeOf?_eq_some stored⟩
  | other found silent =>
      rw [declaredVar?_of_statement found] at declares
      exact absurd (StatementKind.var?_eq_some_iff.mp declares) (silent var)

theorem Steps.exists_typeOf? (steps : Steps before after)
    (typed : ∃ type, before.typeOf? var = some type) :
    ∃ type, after.typeOf? var = some type := by
  rcases typed with ⟨type, typed⟩
  rcases Option.map_eq_some_iff.mp typed with ⟨symbol, stored, -⟩
  rcases steps.continues.symbols var symbol stored with ⟨later, found⟩
  exact ⟨later, typeOf?_eq_some found⟩

theorem ResolvesAll.exists_typeOf? {order : List StatementRef}
    (resolves : before.ResolvesAll order after) (member : ref ∈ order)
    (declares : before.declaredVar? ref = some var) : ∃ type, after.typeOf? var = some type := by
  induction resolves with
  | nil => cases member
  | cons first later induction =>
      rcases List.mem_cons.mp member with rfl | member
      · apply later.steps.exists_typeOf?
        exact first.steps.exists_typeOf? (first.exists_typeOf? declares)
      · exact induction member ((first.steps.declaredVar? ref).trans declares)

end Program

/-! ## One statement -/

section

variable {before after : Walker (Progress Unit)} {ref : StatementRef} {failure : Failure}

theorem walkStatement_of_other (silent : before.program.declaredVar? ref = none)
    (ran : (variableTypes .silent).walkStatement ref before = .ok () after) : after = before := by
  have entered := enterStatement_of_walkStatement ran
  simp only [variableTypes, bind_eq_ok_iff, Walk.ask_eq_ok_iff] at entered
  rcases entered with ⟨statement, _, ⟨found, rfl⟩, entered⟩
  rw [Program.declaredVar?_of_statement found] at silent
  cases declares : statement.kind with
  | varDeclaration var =>
      rw [declares] at silent
      cases silent
  | _ =>
      simp only [declares, pure_eq_ok_iff] at entered
      exact entered.2.symm

theorem walkTypeWithin_ne_failed {depth : Nat} {type : TypeRef} :
    (variableTypes .silent).walkTypeWithin depth type before ≠ .error (.failed failure) after := by
  induction depth generalizing before type with
  | zero => simp [Traversal.walkTypeWithin, Walk.fault_eq_failed_iff]
  | succ depth induction =>
      intro ran
      simp only [Traversal.walkTypeWithin, variableTypes, bind_eq_error_iff, pure_eq_error_iff,
        false_or, Walk.ask_eq_failed_iff] at ran
      rcases ran with ⟨_, visited, -, form, inner, -, ran⟩
      generalize form.children = parts at ran
      induction parts generalizing inner with
      | nil => exact pure_eq_error_iff.mp ran
      | cons head tail later =>
          rcases bind_eq_error_iff.mp ran with failed | ⟨_, next, -, failed⟩
          · exact induction failed
          · exact later next failed

theorem symbols_of_declaredType_eq_failed {before after : Session Unit} {type : TypeRef}
    {scope : ScopeRef}
    (ran : Canon.declaredType .silent type scope before = .error (.failed failure) after)
    {other : SymbolRef} {symbol : Symbol}
    (stored : before.program.symbols.get? other = some symbol) :
    after.program.symbols.get? other = some symbol := by
  rcases bind_eq_error_iff.mp ran with composing | ⟨canonical, middle, composing, settling⟩
  · exact (interrupts_of_composite composing).symbols stored
  · have kept : middle.program.symbols.get? other = some symbol := by
      change Canon.compositeWithin .silent (before.program.types.size + 1) type before = _
        at composing
      rcases (compositeWithin_eq_ok composing).2 with ⟨_, _, -, -, -, same⟩ | ⟨-, canonicalizes⟩
      · rw [same]
        exact stored
      · exact canonicalizes.symbols stored
    simp only [Canon.indexOrSelf, bind_eq_error_iff, Canon.ask_eq_failed_iff, false_or,
      Canon.ask_eq_ok_iff] at settling
    rcases settling with ⟨shape, _, ⟨-, rfl⟩, settling⟩
    split at settling
    · rw [index_eq_failed settling]
      exact kept
    · exact (pure_eq_error_iff.mp settling).elim

/-- A statement that fails declares a variable, and is what the failure names. No variable has
another type then. -/
theorem walkStatement_eq_failed
    (ran : (variableTypes .silent).walkStatement ref before = .error (.failed failure) after) :
    (∃ var, before.program.declaredVar? ref = some var) ∧ failure.statement = ref ∧
      ∀ other symbol, before.program.symbols.get? other = some symbol →
        after.program.symbols.get? other = some symbol := by
  simp only [Traversal.walkStatement, bind_eq_error_iff, Walk.ask_eq_failed_iff, false_or] at ran
  rcases ran with entering | ⟨_, entered, -, statement, _, -, ran⟩
  · simp only [variableTypes, bind_eq_error_iff, Walk.ask_eq_failed_iff, false_or,
      Walk.ask_eq_ok_iff] at entering
    rcases entering with ⟨statement, _, ⟨found, rfl⟩, entering⟩
    cases declares : statement.kind with
    | varDeclaration var =>
        simp only [declares, bind_eq_error_iff, Walk.ask_eq_failed_iff, false_or,
          Walk.ask_eq_ok_iff, Walk.perform_eq_failed_iff, and_false, exists_false, or_false,
          Canon.within_eq_error_iff] at entering
        rcases entering with ⟨symbol, _, ⟨-, rfl⟩, inner, failed, rfl⟩
        refine ⟨⟨var, ?_⟩, ((Canon.restores_declaredType _ _ _).failed _ _ _ failed).1,
          fun other record stored => symbols_of_declaredType_eq_failed failed stored⟩
        exact (Program.declaredVar?_of_statement found).trans
          (StatementKind.var?_eq_some_iff.mpr declares)
    | _ => simp [declares, pure_eq_error_iff] at entering
  · cases declared : statement.declared? with
    | none => simp [declared, variableTypes, pure_eq_error_iff] at ran
    | some symbol =>
        simp only [declared, bind_eq_error_iff, Walk.ask_eq_failed_iff, false_or,
          Traversal.walkType, get_eq_error_iff] at ran
        rcases ran with ⟨symbol, _, -, ⟨_, _, -, walking⟩ | ⟨_, _, -, leaving⟩⟩
        · exact absurd walking walkTypeWithin_ne_failed
        · simp [variableTypes, pure_eq_error_iff] at leaving

end

/-! ## The whole walk -/

section

variable {ε σ α : Type} {action : α → EStateM ε σ PUnit}

theorem exists_of_forM_eq_error {elements : List α} {before after : σ} {failure : ε}
    (ran : elements.forM action before = .error failure after) :
    ∃ front element back middle, elements = front ++ element :: back ∧
      front.forM action before = .ok ⟨⟩ middle ∧ action element middle = .error failure after := by
  induction elements generalizing before with
  | nil => exact (pure_eq_error_iff.mp ran).elim
  | cons head tail induction =>
      rcases bind_eq_error_iff.mp ran with failed | ⟨_, next, first, rest⟩
      · exact ⟨[], head, tail, before, rfl, rfl, failed⟩
      · rcases induction rest with ⟨front, element, back, middle, rfl, walked, failed⟩
        exact ⟨head :: front, element, back, middle, rfl, (bind_of_ok first).trans walked, failed⟩

end

theorem forM_declarations {source : Program} {refs : List StatementRef}
    {before after : Walker (Progress Unit)} (steps : source.Steps before.program)
    (ran : refs.forM (variableTypes .silent).walkStatement before = .ok () after) :
    (refs.filter fun ref => (source.declaredVar? ref).isSome).forM
      (variableTypes .silent).walkStatement before = .ok () after := by
  induction refs generalizing before with
  | nil => exact ran
  | cons head tail induction =>
      rcases bind_eq_ok_iff.mp ran with ⟨_, middle, first, rest⟩
      have later := induction (steps.trans (resolves_of_walkStatement first).steps) rest
      cases declares : source.declaredVar? head with
      | some var =>
          rw [List.filter_cons_of_pos (by simp [declares])]
          exact (bind_of_ok first).trans later
      | none =>
          rw [List.filter_cons_of_neg (by simp [declares])]
          rwa [walkStatement_of_other ((steps.declaredVar? head).trans declares) first] at later

/-- A walk over the variables that fails stops at the declaration that the failure names. That
variable and all that are declared later have their types still. The variables that are declared
before have the types that canonicalizing just them, one after the other, gives them. And from there
the one that failed fails in the same way, and leaves the same. -/
theorem variableTypes_stops_where_it_fails {source : Program} {own : Progress Unit}
    {order : List StatementRef} (listed : source.preorder = .ok order)
    (distinct : (order.filterMap source.declaredVar?).Nodup) {failure : Failure}
    {final : Walker (Progress Unit)}
    (ran : (variableTypes .silent).walkProgram ⟨source, own⟩ = .error (.failed failure) final) :
    ∃ front back middle, order = front ++ failure.statement :: back ∧
      (∃ var, source.declaredVar? failure.statement = some var) ∧
      (∀ ref ∈ failure.statement :: back, ∀ var, source.declaredVar? ref = some var →
        ∀ type, source.typeOf? var = some type → final.program.typeOf? var = some type) ∧
      (front.filter fun ref => (source.declaredVar? ref).isSome).forM
        (variableTypes .silent).walkStatement ⟨source, own⟩ = .ok () middle ∧
      (∀ ref ∈ front, ∀ var, source.declaredVar? ref = some var →
        ∃ type, middle.program.typeOf? var = some type ∧
          final.program.typeOf? var = some type) ∧
      (variableTypes .silent).walkStatement failure.statement middle =
        .error (.failed failure) final := by
  simp only [Traversal.walkProgram, bind_eq_error_iff, Walk.ask_eq_failed_iff, false_or,
    Walk.ask_eq_ok_iff] at ran
  rcases ran with ⟨again, _, ⟨listedAgain, rfl⟩, ran⟩
  cases listed.symm.trans listedAgain
  rcases exists_of_forM_eq_error ran with ⟨front, ref, back, middle, rfl, walked, failed⟩
  have resolves := resolvesAll_of_forM walked
  rcases walkStatement_eq_failed failed with ⟨⟨var, declares⟩, rfl, kept⟩
  have typed : ∀ other type, middle.program.typeOf? other = some type →
      final.program.typeOf? other = some type := by
    intro other type found
    rcases Option.map_eq_some_iff.mp found with ⟨symbol, stored, rfl⟩
    exact Program.typeOf?_eq_some (kept other symbol stored)
  refine ⟨front, back, middle, rfl, ⟨var, (resolves.steps.declaredVar? _).symm.trans declares⟩, ?_,
    forM_declarations .refl walked, ?_, failed⟩
  · intro ref member other isOther type found
    apply typed
    refine resolves.typeOf?_of_others ?_ found
    intro earlier inFront same
    -- No variable is declared both before and after the failure.
    rw [List.filterMap_append] at distinct
    exact (List.disjoint_of_nodup_append distinct)
      (List.mem_filterMap.mpr ⟨earlier, inFront, same⟩)
      (List.mem_filterMap.mpr ⟨ref, member, isOther⟩)
  · intro ref member other isOther
    rcases resolves.exists_typeOf? member isOther with ⟨type, found⟩
    exact ⟨type, found, typed other type found⟩

def tupleBetweenCalls : List Call :=
  [.addModule, .addType (.sequence ⟨1⟩), .declareVar ⟨1⟩ "a" ⟨7⟩, .addType (.sequence ⟨1⟩),
    .declareVar ⟨1⟩ "b" ⟨8⟩, .addType (.sequence ⟨1⟩), .addType (.tuple [⟨9⟩]),
    .declareVar ⟨1⟩ "c" ⟨10⟩, .addType (.sequence ⟨1⟩), .declareVar ⟨1⟩ "d" ⟨11⟩]

/-- The second sequence is that of the first variable by the time that the tuple fails, and the last
one has not been looked at. -/
theorem variableTypes_stops_where_it_fails_at_tuple :
    ∃ (source : Program) (final : Walker (Progress Unit)) (order : List StatementRef)
      (failure : Failure),
      (source.preorder = .ok order ∧ (order.filterMap source.declaredVar?).Nodup ∧
        (variableTypes .silent).walkProgram ⟨source, { journal := () }⟩ =
          .error (.failed failure) final) ∧
      failure = ⟨⟨2⟩, .unsupported (.anonymousComponent 0)⟩ ∧
      source.typeOf? ⟨8⟩ = some ⟨8⟩ ∧ final.program.typeOf? ⟨8⟩ = some ⟨7⟩ ∧
      final.program.typeOf? ⟨10⟩ = some ⟨11⟩ ∧
      ∃ front back middle, order = front ++ failure.statement :: back ∧
        (∃ var, source.declaredVar? failure.statement = some var) ∧
        (∀ ref ∈ failure.statement :: back, ∀ var, source.declaredVar? ref = some var →
          ∀ type, source.typeOf? var = some type → final.program.typeOf? var = some type) ∧
        (front.filter fun ref => (source.declaredVar? ref).isSome).forM
          (variableTypes .silent).walkStatement ⟨source, { journal := () }⟩ = .ok () middle ∧
        (∀ ref ∈ front, ∀ var, source.declaredVar? ref = some var →
          ∃ type, middle.program.typeOf? var = some type ∧
            final.program.typeOf? var = some type) ∧
        (variableTypes .silent).walkStatement failure.statement middle =
          .error (.failed failure) final := by
  rcases (show ∃ source ∈ (layOut tupleBetweenCalls).toOption,
      ∃ order ∈ source.preorder.toOption, (order.filterMap source.declaredVar?).Nodup ∧
      ∃ failed ∈ failed? ((variableTypes .silent).walkProgram ⟨source, { journal := () }⟩),
        failed.1 = ⟨⟨2⟩, .unsupported (.anonymousComponent 0)⟩ ∧
        source.typeOf? ⟨8⟩ = some ⟨8⟩ ∧ failed.2.program.typeOf? ⟨8⟩ = some ⟨7⟩ ∧
        failed.2.program.typeOf? ⟨10⟩ = some ⟨11⟩ by decide +kernel) with
    ⟨source, -, order, isListed, distinct, ⟨failure, final⟩, isFailed, rfl, declared, retyped,
      later⟩
  have listed := Except.toOption_eq_some_iff.mp isListed
  have ran := failed?_eq_some_iff.mp isFailed
  exact ⟨source, final, order, _, ⟨listed, distinct, ran⟩, rfl, declared, retyped, later,
    variableTypes_stops_where_it_fails listed distinct ran⟩

end StructuralTypes
