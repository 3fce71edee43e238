import StructuralTypes.Proofs.Descent
import StructuralTypes.Proofs.Fitting
import StructuralTypes.Proofs.Stock
import StructuralTypes.Proofs.Totality
import StructuralTypes.Proofs.Validity

/-! A second run after one that ended well. Both walks find nothing left to do and pass every
statement by, up to the first variable whose type is structural: that type has a declaration by
then, and is refused. -/

namespace StructuralTypes

/-! ## Computations that leave the state alone -/

section

variable {ε σ α : Type} {before : σ}

theorem forM_rests {action : α → EStateM ε σ PUnit} {elements : List α}
    (each : ∀ element ∈ elements, action element before = .ok ⟨⟩ before) :
    elements.forM action before = .ok ⟨⟩ before := by
  induction elements with
  | nil => rfl
  | cons head tail induction =>
      obtain ⟨first, others⟩ := List.forall_mem_cons.mp each
      exact (bind_of_ok first).trans (induction others)

theorem forM_fails {action : α → EStateM ε σ PUnit} {front back : List α} {element : α}
    {failure : ε} (passed : ∀ earlier ∈ front, action earlier before = .ok ⟨⟩ before)
    (failed : action element before = .error failure before) :
    (front ++ element :: back).forM action before = .error failure before := by
  induction front with
  | nil => exact bind_of_error failed
  | cons head tail induction =>
      obtain ⟨first, others⟩ := List.forall_mem_cons.mp passed
      exact (bind_of_ok first).trans (induction others)

end

/-- Over a program without cycles a walk through a type leaves alone what its visits do. -/
theorem Traversal.walkTypeWithin_rests {ε σ : Type} {traversal : Traversal ε σ}
    {walker : Walker σ} (acyclic : walker.program.Acyclic)
    (referents : walker.program.ReferentsStored)
    {depth : Nat} {type : TypeRef} (stored : ∃ node, walker.program.types.get? type = some node)
    (visits : ∀ part, walker.program.Reaches type part →
      (∃ node, walker.program.types.get? part = some node) →
      traversal.visitType part walker = .ok () walker)
    (roomy : walker.program.Roomy depth type) :
    traversal.walkTypeWithin depth type walker = .ok () walker := by
  induction depth generalizing type with
  | zero => exact absurd roomy.1 (lt_irrefl 0)
  | succ depth induction =>
      obtain ⟨⟨form, symbol⟩, found⟩ := stored
      refine (bind_of_ok (visits type .self ⟨_, found⟩)).trans ?_
      have asked := Program.form_eq_ok_iff.mpr ⟨symbol, found⟩
      refine (bind_of_ok (Walk.ask_of_ok asked)).trans (forM_rests fun part member => ?_)
      have isPart : walker.program.PartOf part type := ⟨_, found, member⟩
      exact induction (referents.parts part type isPart)
        (fun inner reaches => visits inner (.child found member reaches))
        (roomy.part acyclic isPart)

/-! ## Variables -/

def Program.DeclaresStructural (program : Program) (ref : StatementRef) (type : TypeRef)
    (shape : Shape) : Prop :=
  ∃ statement var symbol, program.statement ref = .ok statement ∧
    statement.kind = .varDeclaration var ∧ program.symbols.get? var = some symbol ∧
    symbol.type = type ∧ program.shape type = .ok shape ∧ shape ≠ .primitive ∧ shape ≠ .nominal

namespace Canon

variable {τ : Type} (hook : SequenceHook τ) {session : Session τ} {type : TypeRef}

theorem composite_eq : composite hook type session =
    compositeWithin hook (session.program.types.size + 1) type session :=
  rfl

theorem expectAnonymous_of_named {shape : Shape} {name : String}
    (shaped : session.program.shape type = .ok shape)
    (named : session.program.typeName? type = .ok (some name)) :
    (expectAnonymous type : Canon τ Unit) session =
      .error (.failed ⟨session.statement, .alreadyResolved shape name⟩) session := by
  refine (bind_of_ok (ask_of_ok named)).trans ?_
  exact (bind_of_ok (ask_of_ok shaped)).trans rfl

theorem declaredType_of_scalar (scope : ScopeRef) {shape : Shape}
    (shaped : session.program.shape type = .ok shape)
    (scalar : shape = .primitive ∨ shape = .nominal) :
    declaredType hook type scope session = .ok type session := by
  have asked : (ask (·.shape type) : Canon τ Shape) session = .ok shape session :=
    ask_of_ok shaped
  have kept : composite hook type session = .ok type session := by
    refine (composite_eq hook).trans ((bind_of_ok asked).trans ?_)
    rcases scalar with rfl | rfl <;> rfl
  refine (bind_of_ok kept).trans ((bind_of_ok asked).trans ?_)
  rcases scalar with rfl | rfl <;> rfl

theorem declaredType_of_named (scope : ScopeRef) {shape : Shape} {name : String}
    (shaped : session.program.shape type = .ok shape)
    (structural : shape ≠ .primitive ∧ shape ≠ .nominal)
    (named : session.program.typeName? type = .ok (some name)) :
    declaredType hook type scope session =
      .error (.failed ⟨session.statement, .alreadyResolved shape name⟩) session := by
  have refused := expectAnonymous_of_named shaped named
  have asked : (ask (·.shape type) : Canon τ Shape) session = .ok shape session :=
    ask_of_ok shaped
  obtain ⟨⟨form, symbol⟩, stored, rfl⟩ := Program.shape_eq_ok_iff.mp shaped
  have read : (ask (·.form type) : Canon τ TypeForm) session = .ok form session :=
    ask_of_ok (Program.form_eq_ok_iff.mpr ⟨symbol, stored⟩)
  cases form with
  | primitive => exact absurd rfl structural.1
  | nominal => exact absurd rfl structural.2
  | index subject =>
      refine (bind_of_ok ((composite_eq hook).trans (bind_of_ok asked))).trans ?_
      refine (bind_of_ok asked).trans ((bind_of_ok read).trans (bind_of_error refused))
  | array | domain | tuple | sequence =>
      refine bind_of_error ((composite_eq hook).trans ((bind_of_ok asked).trans ?_))
      exact (bind_of_ok read).trans (bind_of_error refused)

end Canon

theorem Edit.setSymbolType_same {program : Program} {ref : SymbolRef} {symbol : Symbol}
    (stored : program.symbols.get? ref = some symbol) :
    setSymbolType ref symbol.type program = .ok () program :=
  changeSymbol_eq_ok_iff.mpr ⟨program.symbols, Arena.modify_same stored rfl, rfl⟩

section

variable {τ : Type} (hook : SequenceHook τ) {walker : Walker (Progress τ)} {ref : StatementRef}
  {statement : Statement} (found : walker.program.statement ref = .ok statement)
include found

theorem enterStatement_rests (referents : walker.program.ReferentsStored)
    (plain : ∀ type shape, ¬walker.program.DeclaresStructural ref type shape) :
    (variableTypes hook).enterStatement ref walker = .ok () walker := by
  obtain ⟨body, placed⟩ := Layout.statement_eq_ok_iff.mp found
  refine (bind_of_ok (Walk.ask_of_ok found)).trans ?_
  cases declares : statement.kind with
  | varDeclaration var =>
      have declared : statement.declared? = some var := by simp only [Statement.declared?, declares]
      obtain ⟨symbol, stored⟩ := referents.symbols ref _ var placed declared
      obtain ⟨node, typeStored⟩ := referents.typed var symbol stored
      have shaped := Program.shape_eq_ok_iff.mpr ⟨node, typeStored, rfl⟩
      have scalar : node.form.shape = .primitive ∨ node.form.shape = .nominal := by
        by_contra structural
        exact plain _ _ ⟨statement, var, symbol, found, declares, stored, rfl, shaped,
          not_or.mp structural⟩
      have kept : Canon.within ref symbol.scope
          (Canon.declaredType hook symbol.type symbol.scope) walker = .ok symbol.type walker :=
        Canon.within_eq_ok_iff.mpr
          ⟨_, Canon.declaredType_of_scalar hook symbol.scope shaped scalar, rfl⟩
      refine (bind_of_ok (Walk.ask_of_ok (Program.symbol_eq_ok_iff.mpr stored))).trans ?_
      refine (bind_of_ok kept).trans (Walk.perform_eq_ok_iff.mpr ?_)
      exact ⟨walker.program, Edit.setSymbolType_same stored, rfl⟩
  | _ => rfl

theorem walkStatement_rests (acyclic : walker.program.Acyclic)
    (referents : walker.program.ReferentsStored)
    (plain : ∀ type shape, ¬walker.program.DeclaresStructural ref type shape) :
    (variableTypes hook).walkStatement ref walker = .ok () walker := by
  obtain ⟨body, placed⟩ := Layout.statement_eq_ok_iff.mp found
  refine (bind_of_ok (enterStatement_rests hook found referents plain)).trans ?_
  refine (bind_of_ok (Walk.ask_of_ok found)).trans ?_
  cases declares : statement.declared? with
  | none => rfl
  | some declared =>
      obtain ⟨symbol, stored⟩ := referents.symbols ref _ declared placed declares
      refine (bind_of_ok (Walk.ask_of_ok (Program.symbol_eq_ok_iff.mpr stored))).trans ?_
      refine (bind_of_ok (Traversal.walkTypeWithin_rests acyclic referents
        (referents.typed declared symbol stored) (fun _ _ _ => rfl) ?_)).trans rfl
      exact Program.roomy_of_size_lt acyclic (Nat.lt_succ_self _) symbol.type

theorem walkStatement_of_named {type : TypeRef} {shape : Shape} {name : String}
    (declares : walker.program.DeclaresStructural ref type shape)
    (named : walker.program.typeName? type = .ok (some name)) :
    (variableTypes hook).walkStatement ref walker =
      .error (.failed ⟨ref, .alreadyResolved shape name⟩) walker := by
  obtain ⟨_, var, symbol, again, isVar, stored, rfl, shaped, structural⟩ := declares
  cases Except.ok.inj (found.symm.trans again)
  refine bind_of_error ((bind_of_ok (Walk.ask_of_ok found)).trans ?_)
  simp only [isVar]
  refine (bind_of_ok (Walk.ask_of_ok (Program.symbol_eq_ok_iff.mpr stored))).trans ?_
  refine bind_of_error (Canon.within_eq_error_iff.mpr ?_)
  exact ⟨_, Canon.declaredType_of_named hook symbol.scope shaped structural named, rfl⟩

end

/-! ## Companions -/

theorem visitType_rests {walker : Walker CompanionWalk} {statement : StatementRef}
    {scope : ScopeRef} (here : walker.own.current = some (statement, scope)) {type : TypeRef}
    (stored : ∃ node, walker.program.types.get? type = some node)
    (fitted : walker.program.Fitted type) :
    indexCompanions.visitType type walker = .ok () walker := by
  obtain ⟨⟨form, symbol⟩, found⟩ := stored
  rw [visitType_eq here found]
  cases isDomain : form.companion? with
  | none => rfl
  | some companion =>
      obtain ⟨rank, parent, rfl⟩ := TypeForm.eq_domain_of_companion? isDomain
      obtain ⟨subject, ref, declares⟩ := fitted rank parent companion symbol found
      have settled : Canon.settleCompanion type companion
          ⟨⟨walker.program, walker.own.toProgress⟩, scope, statement⟩ =
          .ok () ⟨⟨walker.program, walker.own.toProgress⟩, scope, statement⟩ := by
        have shaped := Program.shape_eq_ok_iff.mpr ⟨_, declares, rfl⟩
        refine (bind_of_ok (Canon.ask_of_ok shaped)).trans ?_
        have declared := Program.typeSymbol?_eq_ok_iff.mpr ⟨_, declares⟩
        exact (bind_of_ok (Canon.ask_of_ok declared)).trans rfl
      exact Walk.focus_eq_ok_iff.mpr ⟨_, Canon.within_eq_ok_iff.mpr ⟨_, settled, rfl⟩, rfl⟩

theorem walkStatement_rests_of_walked {program : Program} (progress : Progress Unit)
    {ref : StatementRef} {statement : Statement} (found : program.statement ref = .ok statement)
    (walked : ∀ declared, statement.declared? = some declared →
      ∃ symbol, program.symbols.get? declared = some symbol ∧
        indexCompanions.walkTypeWithin (companionNesting program) symbol.type
          ⟨program, progress, some (ref, symbol.scope)⟩ =
            .ok () ⟨program, progress, some (ref, symbol.scope)⟩) :
    indexCompanions.walkStatement ref ⟨program, progress, none⟩ =
      .ok () ⟨program, progress, none⟩ := by
  have entered : ∀ {scope}, program.statementScope? ref = .ok scope →
      indexCompanions.enterStatement ref ⟨program, progress, none⟩ =
        .ok () ⟨program, progress, scope.map fun scope => (ref, scope)⟩ :=
    fun asked => (bind_of_ok (Walk.ask_of_ok asked)).trans rfl
  cases declares : statement.declared? with
  | none =>
      refine (bind_of_ok (entered (statementScope?_of_silent found declares))).trans ?_
      refine (bind_of_ok (Walk.ask_of_ok found)).trans ?_
      simp only [declares]
      rfl
  | some declared =>
      obtain ⟨symbol, stored, passed⟩ := walked declared declares
      refine (bind_of_ok (entered (statementScope?_of_declared found declares stored))).trans ?_
      refine (bind_of_ok (Walk.ask_of_ok found)).trans ?_
      simp only [declares]
      refine (bind_of_ok (Walk.ask_of_ok (Program.symbol_eq_ok_iff.mpr stored))).trans ?_
      exact (bind_of_ok passed).trans rfl

theorem walkStatement_rests_of_completed {program : Program} (acyclic : program.Acyclic)
    (referents : program.ReferentsStored) (indexed : program.CompanionsIndex)
    (progress : Progress Unit)
    {ref : StatementRef} {statement : Statement} (found : program.statement ref = .ok statement)
    (completed : ∀ declared symbol, statement.declared? = some declared →
      program.symbols.get? declared = some symbol → program.Completed symbol.type) :
    indexCompanions.walkStatement ref ⟨program, progress, none⟩ =
      .ok () ⟨program, progress, none⟩ := by
  obtain ⟨body, placed⟩ := Layout.statement_eq_ok_iff.mp found
  refine walkStatement_rests_of_walked progress found fun declared declares => ?_
  obtain ⟨symbol, stored⟩ := referents.symbols ref _ declared placed declares
  have roomy : program.Roomy (companionNesting program) symbol.type :=
    Program.roomy_of_size_lt acyclic (by simp only [companionNesting]; omega) symbol.type
  refine ⟨symbol, stored, Traversal.walkTypeWithin_rests acyclic referents
    (referents.typed declared symbol stored) (fun part reaches partStored => ?_) roomy⟩
  refine visitType_rests rfl partStored fun rank parent companion holder found => ?_
  have companioned := completed declared symbol declares stored part reaches
  exact Program.namedIndex_iff.mpr ⟨companioned rank parent companion holder found,
    indexed part _ found companion rfl⟩

theorem walkTypeWithin_rests_of_fitted {walker : Walker CompanionWalk} {statement : StatementRef}
    {scope : ScopeRef} (here : walker.own.current = some (statement, scope)) {depth : Nat}
    {type : TypeRef} (fitted : walker.program.FittedWithin depth type) :
    indexCompanions.walkTypeWithin depth type walker = .ok () walker := by
  induction depth generalizing type with
  | zero => exact fitted.elim
  | succ depth induction =>
      obtain ⟨visited, form, found, parts⟩ := fitted
      obtain ⟨symbol, stored⟩ := Program.form_eq_ok_iff.mp found
      refine (bind_of_ok (visitType_rests here ⟨_, stored⟩ visited)).trans ?_
      exact (bind_of_ok (Walk.ask_of_ok found)).trans
        (forM_rests fun part member => induction (parts part member))

/-! ## What a run leaves behind -/

/-- A program with nothing left to do but to refuse variables of structural types. -/
structure Program.AtRest (program : Program) (options : Options) (order : List StatementRef) :
    Prop where
  listed : program.preorder = .ok order
  acyclic : program.Acyclic
  referents : program.ReferentsStored
  named : ∀ ref ∈ order, ∀ type shape, program.DeclaresStructural ref type shape →
    ∃ name, program.typeName? type = .ok (some name)
  indexed : program.CompanionsIndex
  completed : options.companions = true → ∀ ref ∈ order, ∀ statement declared symbol,
    program.statement ref = .ok statement → statement.declared? = some declared →
    program.symbols.get? declared = some symbol → program.Completed symbol.type
  checked : options.checking.enabled = true → program.violations = .ok []

namespace Program

variable {source : Program}

theorem violations_of_canonicalize {options : Options} {before after : Walker (Progress Unit)}
    (ran : canonicalize .silent options before = .ok () after)
    (checking : options.checking.enabled = true) : after.program.violations = .ok [] := by
  simp only [canonicalize, checking, if_true, checkCanonical, bind_eq_ok_iff,
    Walk.ask_eq_ok_iff] at ran
  obtain ⟨_, middle, -, violations, _, ⟨found, rfl⟩, passed⟩ := ran
  split at passed
  · rename_i isEmpty
    obtain ⟨-, rfl⟩ := pure_eq_ok_iff.mp passed
    rw [found, List.isEmpty_iff.mp isEmpty]
  · exact absurd passed (by simp [Walk.fault_eq_ok_iff])

theorem exists_name_of_structural {final : Program} (wellFormed : source.WellFormed)
    (sound : Sound source final) (stays : StaysStored source final)
    {read later : List StatementRef}
    (sources : ∀ ref ∈ later, ∀ placed,
      source.layout.statements.get? ref = some placed → ref ∈ read)
    (typed : ∀ ref ∈ read, ∀ var, source.DeclaredBy ref var → final.Typed var)
    {ref : StatementRef} (member : ref ∈ later) {type : TypeRef} {shape : Shape}
    (declares : final.DeclaresStructural ref type shape) :
    ∃ name, final.typeName? type = .ok (some name) := by
  obtain ⟨statement, var, symbol, found, isVar, stored, rfl, -⟩ := declares
  obtain ⟨⟨placed, old, declaresOld⟩, -⟩ :=
    sound.variable_source wellFormed.toIntact found isVar
  obtain ⟨type, isType, named⟩ :=
    typed ref (sources ref member placed old) var ⟨placed, old, declaresOld⟩
  obtain ⟨_, again, rfl⟩ := Option.map_eq_some_iff.mp isType
  cases Option.mem_unique stored again
  exact stays.exists_typeName? wellFormed named

theorem atRest_of_canonicalize {own : Progress Unit} {options : Options}
    {final : Walker (Progress Unit)} (wellFormed : source.WellFormed) (acyclic : source.Acyclic)
    (scalars : source.VariableScalarsNamed) (indexed : source.CompanionsIndex)
    (unreserved : source.Unreserved)
    (ran : canonicalize .silent options ⟨source, own⟩ = .ok () final) :
    ∃ order, final.program.AtRest options order := by
  have intact := wellFormed.toIntact
  have checked := violations_of_canonicalize ran
  obtain ⟨last, walked, same⟩ := canonicalizeTypes_of_canonicalize ran
  rw [same] at checked ⊢
  have sound := sound_of_canonicalizeTypes intact walked
  obtain ⟨read, listed, typed⟩ := typed_of_canonicalizeTypes intact scalars unreserved walked
  obtain ⟨middle, ranFirst, completing⟩ := canonicalizeTypes_eq_ok walked
  obtain ⟨_, -, resolves⟩ := resolvesAll_of_walkProgram ranFirst
  have steps := resolves.steps
  have stays :=
    (StaysStored.refl wellFormed.toReferentsStored indexed).steps intact unreserved steps
  have acyclicMiddle := acyclic_of_walkProgram wellFormed acyclic unreserved ranFirst
  have companionSteps : middle.program.CompanionSteps last.program := by
    split at completing
    · obtain ⟨_, -, completes⟩ := completing
      exact completes.companionSteps
    · exact completing ▸ .refl
  have staysLast := stays.companionSteps intact unreserved companionSteps
  have retains := (Steps.retains steps).trans (CompanionSteps.retains companionSteps)
  obtain ⟨later, listedLater, sources⟩ := retains.preorder listed
  refine ⟨later, listedLater, stays.acyclic_of_companionSteps intact unreserved acyclicMiddle
    companionSteps, staysLast.referents, fun ref member type shape declares => ?_,
    staysLast.indexed, fun companions ref member statement declared symbol => ?_, checked⟩
  · exact exists_name_of_structural wellFormed sound staysLast sources typed member declares
  · rw [if_pos companions] at completing
    obtain ⟨order, listedMiddle, completes⟩ := completing
    exact stays.completed intact unreserved listedMiddle completes listedLater member

end Program

/-! ## The second run -/

section

variable {options : Options} {program : Program} {order : List StatementRef}
  (atRest : program.AtRest options order) {τ : Type} (hook : SequenceHook τ)
  (progress : Progress τ)
include atRest

theorem exists_statement_of_atRest {ref : StatementRef} (member : ref ∈ order) :
    ∃ statement, program.statement ref = .ok statement := by
  obtain ⟨⟨placed, stored⟩, -⟩ := Layout.reachable_of_mem_preorder atRest.listed member
  exact ⟨_, Layout.statement_eq_ok_iff.mpr ⟨placed.body, stored⟩⟩

theorem walkStatement_of_atRest {ref : StatementRef} (member : ref ∈ order)
    (plain : ∀ type shape, ¬program.DeclaresStructural ref type shape) :
    (variableTypes hook).walkStatement ref ⟨program, progress⟩ = .ok () ⟨program, progress⟩ := by
  obtain ⟨statement, found⟩ := exists_statement_of_atRest atRest member
  have found : (Walker.mk program progress).program.statement ref = .ok statement := found
  exact walkStatement_rests hook found atRest.acyclic atRest.referents plain

theorem settleCompanions_of_atRest (companions : options.companions = true) :
    settleCompanions ⟨program, progress⟩ = .ok () ⟨program, progress⟩ := by
  have passed : ∀ ref ∈ order, indexCompanions.walkStatement ref
      ⟨program, CompanionWalk.start progress.tally⟩ =
        .ok () ⟨program, CompanionWalk.start progress.tally⟩ := by
    intro ref member
    obtain ⟨statement, found⟩ := exists_statement_of_atRest atRest member
    exact walkStatement_rests_of_completed atRest.acyclic atRest.referents atRest.indexed _ found
      fun declared symbol => atRest.completed companions ref member statement declared symbol found
  have walked : indexCompanions.walkProgram ⟨program, CompanionWalk.start progress.tally⟩ =
      .ok () ⟨program, CompanionWalk.start progress.tally⟩ :=
    (bind_of_ok (Walk.ask_of_ok atRest.listed)).trans (forM_rests passed)
  exact Walk.focus_eq_ok_iff.mpr ⟨_, walked, rfl⟩

theorem canonicalize_of_plain
    (plain : ∀ ref ∈ order, ∀ type shape, ¬program.DeclaresStructural ref type shape) :
    canonicalize hook options ⟨program, progress⟩ = .ok () ⟨program, progress⟩ := by
  have walked : (variableTypes hook).walkProgram ⟨program, progress⟩ =
      .ok () ⟨program, progress⟩ :=
    (bind_of_ok (Walk.ask_of_ok atRest.listed)).trans
      (forM_rests fun ref member => walkStatement_of_atRest atRest hook progress member
        (plain ref member))
  have typed : canonicalizeTypes hook options ⟨program, progress⟩ = .ok () ⟨program, progress⟩ := by
    refine (bind_of_ok walked).trans ?_
    split
    · rename_i companions
      exact settleCompanions_of_atRest atRest progress companions
    · rfl
  refine (bind_of_ok typed).trans ?_
  split
  · rename_i checking
    have checked : (Walker.mk program progress).program.violations = .ok [] :=
      atRest.checked checking
    exact (bind_of_ok (Walk.ask_of_ok checked)).trans rfl
  · rfl

theorem canonicalize_of_structural {front back : List StatementRef} {ref : StatementRef}
    (split : order = front ++ ref :: back)
    (plain : ∀ earlier ∈ front, ∀ type shape, ¬program.DeclaresStructural earlier type shape)
    {type : TypeRef} {shape : Shape} {name : String}
    (declares : program.DeclaresStructural ref type shape)
    (named : program.typeName? type = .ok (some name)) :
    canonicalize hook options ⟨program, progress⟩ =
      .error (.failed ⟨ref, .alreadyResolved shape name⟩) ⟨program, progress⟩ := by
  subst split
  obtain ⟨statement, found⟩ := exists_statement_of_atRest atRest (List.mem_append_cons_self)
  have found : (Walker.mk program progress).program.statement ref = .ok statement := found
  have failed := walkStatement_of_named hook found declares named
  have walked : (front ++ ref :: back).forM (variableTypes hook).walkStatement
      ⟨program, progress⟩ =
        .error (.failed ⟨ref, .alreadyResolved shape name⟩) ⟨program, progress⟩ := by
    refine forM_fails (fun earlier member => ?_) failed
    exact walkStatement_of_atRest atRest hook progress (List.mem_append_left _ member)
      (plain earlier member)
  exact bind_of_error (bind_of_error ((bind_of_ok (Walk.ask_of_ok atRest.listed)).trans walked))

end

/-- After a run that has ended well a second one changes nothing and tells its hook of nothing. It
refuses the first variable of a structural type under the name that the type has by then, and ends
well with nothing counted if there is no such variable. -/
theorem canonicalize_again {source : Program} {own : Progress Unit} {options : Options}
    {final : Walker (Progress Unit)} (wellFormed : source.WellFormed) (acyclic : source.Acyclic)
    (scalars : source.VariableScalarsNamed) (indexed : source.CompanionsIndex)
    (unreserved : source.Unreserved)
    (ran : canonicalize .silent options ⟨source, own⟩ = .ok () final) :
    ∃ order, final.program.preorder = .ok order ∧
      ((∀ ref ∈ order, ∀ type shape, ¬final.program.DeclaresStructural ref type shape) ∧
          (∀ {τ : Type} (hook : SequenceHook τ) (progress : Progress τ),
            canonicalize hook options ⟨final.program, progress⟩ =
              .ok () ⟨final.program, progress⟩) ∨
        ∃ front ref back type shape name, order = front ++ ref :: back ∧
          (∀ earlier ∈ front, ∀ type shape, ¬final.program.DeclaresStructural earlier type shape) ∧
          final.program.DeclaresStructural ref type shape ∧
          final.program.typeName? type = .ok (some name) ∧
          ∀ {τ : Type} (hook : SequenceHook τ) (progress : Progress τ),
            canonicalize hook options ⟨final.program, progress⟩ =
              .error (.failed ⟨ref, .alreadyResolved shape name⟩) ⟨final.program, progress⟩) := by
  obtain ⟨order, atRest⟩ :=
    Program.atRest_of_canonicalize wellFormed acyclic scalars indexed unreserved ran
  refine ⟨order, atRest.listed, ?_⟩
  -- A second run stops at the first variable of a structural type, if there is one.
  classical
  cases first : order.find? fun ref =>
      decide (∃ type shape, final.program.DeclaresStructural ref type shape) with
  | none =>
      have plain : ∀ ref ∈ order, ∀ type shape, ¬final.program.DeclaresStructural ref type shape :=
        fun ref member type shape declares =>
          List.find?_eq_none.mp first ref member (decide_eq_true ⟨type, shape, declares⟩)
      exact .inl ⟨plain, fun hook progress => canonicalize_of_plain atRest hook progress plain⟩
  | some ref =>
      obtain ⟨isFirst, front, back, split, passed⟩ := List.find?_eq_some_iff_append.mp first
      obtain ⟨type, shape, declares⟩ := of_decide_eq_true isFirst
      have plain : ∀ earlier ∈ front, ∀ type shape,
          ¬final.program.DeclaresStructural earlier type shape := by
        simpa using passed
      obtain ⟨name, named⟩ := atRest.named ref (by simp [split]) type shape declares
      exact .inr ⟨front, ref, back, type, shape, name, split, plain, declares, named,
        fun hook progress => canonicalize_of_structural atRest hook progress split plain declares
          named⟩

/-- The second run refuses the domain, which the first one has left with its companion. -/
theorem canonicalize_again_companion :
    ∃ source final, layOut companionCalls = .ok source ∧
      canonicalize .silent {} ⟨source, { journal := () }⟩ = .ok () final ∧
      ∃ ref shape name, ∀ {τ : Type} (hook : SequenceHook τ) (progress : Progress τ),
        canonicalize hook {} ⟨final.program, progress⟩ =
          .error (.failed ⟨ref, .alreadyResolved shape name⟩) ⟨final.program, progress⟩ := by
  obtain ⟨source, isBuilt, scalars, indexed, unreserved, final, isFinal, stopped⟩ :
    ∃ source ∈ (layOut companionCalls).toOption, source.ScalarsNamed ∧ source.CompanionsIndex ∧
      source.Unreserved ∧
      ∃ final ∈ finished? (canonicalize .silent {} ⟨source, { journal := () }⟩),
        (finished? (canonicalize .silent {} ⟨final.program, { journal := () }⟩)).isNone := by
    decide +kernel
  have built := Except.toOption_eq_some_iff.mp isBuilt
  have ran := finished?_eq_some_iff.mp isFinal
  have laid := laidOut_of_layOut built
  obtain ⟨order, -, ⟨-, passed⟩ | ⟨_, ref, _, _, shape, name, -, -, -, -, refused⟩⟩ :=
    canonicalize_again (Program.wellFormed_of_laidOut laid) (Program.acyclic_of_laidOut laid)
      scalars.ofVariables indexed unreserved ran
  · rw [passed] at stopped
    cases stopped
  · exact ⟨source, final, built, ran, ref, shape, name, refused⟩

end StructuralTypes
