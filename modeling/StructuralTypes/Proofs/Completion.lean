import StructuralTypes.Canonical.Pipeline
import StructuralTypes.Proofs.Closure

/-! The walk that settles companions, as rules, and what it leaves behind: whatever it
has gone through has companions with declarations, and later visits leave that alone. -/

namespace StructuralTypes

namespace Program

/-! ## Rules -/

def Companioned (program : Program) (type : TypeRef) : Prop :=
  ∀ rank parent companion symbol,
    program.types.get? type = some { form := .domain rank parent (some companion), symbol } →
    program.Named companion

/-- What visiting a type for `statement` does: the companion of a domain settles. -/
inductive Visits (before : Program) (statement : StatementRef) (type : TypeRef) :
    Program → Prop
  | settled {rank : Nat} {parent : Option TypeRef} {companion canonical : TypeRef}
      {symbol : Option SymbolRef} {subject : ExpressionRef} {text : String}
      {middle : Program} {types : Arena .type TypeNode}
      (stored : before.types.get? type =
        some { form := .domain rank parent (some companion), symbol })
      (anonymous : before.types.get? companion =
        some { form := .index subject, symbol := none })
      (name : before.typeName? type = .ok (some text))
      (settles : before.Settles sharedScope (CanonicalKey.indexOfDomain text).name companion id
        (.before statement) canonical middle)
      (recorded : middle.types.modify type
        (fun node => { node with form := node.form.withCompanion canonical }) = .ok types) :
      Visits before statement type { middle with types }
  | passed (companioned : before.Companioned type) : Visits before statement type before

inductive Completes (statement : StatementRef) : Program → List TypeRef → Program → Prop
  | nil {program : Program} : Completes statement program [] program
  | cons {before visited middle after : Program} {type : TypeRef} {rest : List TypeRef}
      {form : TypeForm} {symbol : Option SymbolRef}
      (visits : before.Visits statement type visited)
      (stored : visited.types.get? type = some { form, symbol })
      (inner : Completes statement visited form.children middle)
      (later : Completes statement middle rest after) :
      Completes statement before (type :: rest) after

inductive CompletesAll : Program → List StatementRef → Program → Prop
  | nil {program : Program} : CompletesAll program [] program
  | declaration {before middle after : Program} {ref : StatementRef}
      {rest : List StatementRef} {statement : Statement} {declared : SymbolRef}
      {symbol : Symbol} (found : before.statement ref = .ok statement)
      (declares : statement.declared? = some declared)
      (stored : before.symbols.get? declared = some symbol)
      (completes : Completes ref before [symbol.type] middle)
      (later : CompletesAll middle rest after) : CompletesAll before (ref :: rest) after
  | other {before after : Program} {ref : StatementRef} {rest : List StatementRef}
      {statement : Statement} (found : before.statement ref = .ok statement)
      (silent : statement.declared? = none) (later : CompletesAll before rest after) :
      CompletesAll before (ref :: rest) after

end Program

/-! ## Computations follow the rules -/

section

variable {before after : Walker CompanionWalk} {answer : Unit}

theorem visits_of_settleCompanion {statement : StatementRef} {type companion : TypeRef}
    {before after : Session Unit}
    (here : before.statement = statement)
    {rank : Nat} {parent : Option TypeRef} {symbol : Option SymbolRef}
    (stored : before.program.types.get? type =
      some { form := .domain rank parent (some companion), symbol })
    (ran : Canon.settleCompanion type companion before = .ok answer after) :
    before.program.Visits statement type after.program := by
  subst here
  simp only [Canon.settleCompanion, bind_eq_ok_iff, Canon.ask_eq_ok_iff,
    Program.shape_eq_ok_iff, Program.typeSymbol?_eq_ok_iff] at ran
  rcases ran with
    ⟨shape, before, ⟨⟨node, nodeStored, shaped⟩, rfl⟩, holder, _, ⟨⟨form, again⟩, rfl⟩, ran⟩
  cases Option.mem_unique nodeStored again
  split at ran
  · rename_i ref
    simp only [pure_eq_ok_iff] at ran
    rcases ran with ⟨-, rfl⟩
    refine .passed fun otherRank otherParent otherCompanion otherSymbol otherStored => ?_
    rw [stored] at otherStored
    simp only [Option.some.injEq, TypeNode.mk.injEq, TypeForm.domain.injEq] at otherStored
    rcases otherStored with ⟨⟨-, -, rfl⟩, -⟩
    exact ⟨form, ref, nodeStored⟩
  · simp only [bind_eq_ok_iff, Canon.ask_eq_ok_iff] at ran
    rcases ran with ⟨name, before, ⟨named, rfl⟩, ran⟩
    cases name with
    | none => simp [Canon.unsupported_eq_ok_iff] at ran
    | some text =>
        simp only [bind_eq_ok_iff, get_eq_ok_iff, Canon.inScope_eq_ok_iff,
          Canon.perform_eq_ok_iff, Edit.changeForm_eq_ok_iff] at ran
        rcases ran with
          ⟨settled, _, ⟨inner, ⟨_, _, ⟨rfl, rfl⟩, settling⟩, rfl⟩, _, ⟨types, recorded, rfl⟩, rfl⟩
        rcases settles_of_settle settling with ⟨-, settles⟩
        cases form with
        | index subject => exact .settled stored nodeStored named settles recorded
        | _ => simp [TypeForm.shape] at shaped
  · simp [Canon.fail_eq_ok_iff] at ran

theorem visits_of_visitType {statement : StatementRef} {scope : ScopeRef} {type : TypeRef}
    (here : before.own.current = some (statement, scope))
    (ran : indexCompanions.visitType type before = .ok answer after) :
    before.program.Visits statement type after.program ∧
      after.own.current = some (statement, scope) := by
  simp only [indexCompanions, bind_eq_ok_iff, get_eq_ok_iff] at ran
  rcases ran with ⟨_, before, ⟨rfl, rfl⟩, ran⟩
  simp only [here, bind_eq_ok_iff, Walk.ask_eq_ok_iff, Program.form_eq_ok_iff] at ran
  rcases ran with ⟨form, before, ⟨⟨symbol, stored⟩, rfl⟩, ran⟩
  split at ran
  · rename_i rank parent companion
    simp only [CompanionWalk.within, Walk.focus_eq_ok_iff, Canon.within_eq_ok_iff] at ran
    rcases ran with ⟨_, ⟨inner, settling, rfl⟩, rfl⟩
    exact ⟨visits_of_settleCompanion (by rfl) stored settling, here⟩
  · rename_i notDomain
    simp only [pure_eq_ok_iff] at ran
    rcases ran with ⟨-, rfl⟩
    refine ⟨.passed fun rank parent companion holder again => ?_, here⟩
    rw [stored] at again
    simp only [Option.some.injEq, TypeNode.mk.injEq] at again
    exact absurd again.1 (notDomain rank parent companion)

theorem completes_of_walkTypeWithin {statement : StatementRef} {scope : ScopeRef}
    {depth : Nat} {type : TypeRef} (here : before.own.current = some (statement, scope))
    (ran : indexCompanions.walkTypeWithin depth type before = .ok answer after) :
    before.program.Completes statement [type] after.program := by
  suffices before.program.Completes statement [type] after.program ∧
      after.own.current = some (statement, scope) from this.1
  induction depth generalizing before after type with
  | zero => simp [Traversal.walkTypeWithin, Walk.fault_eq_ok_iff] at ran
  | succ depth induction =>
      simp only [Traversal.walkTypeWithin, bind_eq_ok_iff, Walk.ask_eq_ok_iff,
        Program.form_eq_ok_iff] at ran
      rcases ran with ⟨_, visited, visiting, form, _, ⟨⟨symbol, stored⟩, rfl⟩, ran⟩
      rcases visits_of_visitType here visiting with ⟨visits, current⟩
      have inner : ∀ {types : List TypeRef} {start : Walker CompanionWalk},
          start.own.current = some (statement, scope) →
          types.forM (indexCompanions.walkTypeWithin depth) start = .ok answer after →
          start.program.Completes statement types after.program ∧
            after.own.current = some (statement, scope) := by
        intro types
        induction types with
        | nil =>
            intro start isCurrent walked
            simp only [List.forM, pure_eq_ok_iff] at walked
            rcases walked with ⟨-, rfl⟩
            exact ⟨.nil, isCurrent⟩
        | cons head tail rest =>
            intro start isCurrent walked
            simp only [List.forM, bind_eq_ok_iff] at walked
            rcases walked with ⟨_, middle, first, later⟩
            rcases induction isCurrent first with ⟨completes, stillCurrent⟩
            rcases rest stillCurrent later with ⟨completesRest, lastCurrent⟩
            cases completes with
            | cons visits stored inner later =>
                cases later with
                | nil => exact ⟨.cons visits stored inner completesRest, lastCurrent⟩
      rcases inner current ran with ⟨completes, lastCurrent⟩
      exact ⟨.cons visits stored completes .nil, lastCurrent⟩

theorem statementScope?_eq_ok {program : Program} {ref : StatementRef} {statement : Statement}
    (found : program.statement ref = .ok statement) {scope : Option ScopeRef}
    (asked : program.statementScope? ref = .ok scope) :
    ∀ declared, statement.declared? = some declared →
      ∃ symbol, program.symbols.get? declared = some symbol ∧ scope = some symbol.scope := by
  intro declared declares
  simp only [Program.statementScope?, Except.bind_eq_ok_iff] at asked
  rcases asked with ⟨again, againFound, asked⟩
  rw [found] at againFound
  cases Except.ok.inj againFound
  simp only [declares, Option.mapM_some, Program.symbol, Arena.get, bind, Except.bind, pure,
    Except.pure, Functor.map, Except.map] at asked
  cases stored : program.symbols.get? declared with
  | none => simp [stored] at asked
  | some symbol =>
      simp only [stored, Except.ok.injEq] at asked
      exact ⟨symbol, rfl, asked.symm⟩

theorem statementScope?_of_silent {program : Program} {ref : StatementRef} {statement : Statement}
    (found : program.statement ref = .ok statement) (silent : statement.declared? = none) :
    program.statementScope? ref = .ok none := by
  simp only [Program.statementScope?, found, silent, bind, Except.bind]
  rfl

theorem statementScope?_of_declared {program : Program} {ref : StatementRef}
    {statement : Statement} {declared : SymbolRef} {symbol : Symbol}
    (found : program.statement ref = .ok statement)
    (declares : statement.declared? = some declared)
    (stored : program.symbols.get? declared = some symbol) :
    program.statementScope? ref = .ok (some symbol.scope) := by
  simp only [Program.statementScope?, found, declares, Option.mapM_some,
    Program.symbol_eq_ok_iff.mpr stored, bind, Except.bind]
  rfl

theorem completesAll_of_forM {order : List StatementRef}
    (ran : order.forM indexCompanions.walkStatement before = .ok answer after) :
    before.program.CompletesAll order after.program := by
  induction order generalizing before with
  | nil =>
      simp only [List.forM, pure_eq_ok_iff] at ran
      rcases ran with ⟨-, rfl⟩
      exact .nil
  | cons ref rest induction =>
      simp only [List.forM, bind_eq_ok_iff, Traversal.walkStatement, Walk.ask_eq_ok_iff] at ran
      rcases ran with ⟨_, left, ⟨_, entered, entering, statement, _, ⟨found, rfl⟩, walking⟩, later⟩
      simp only [indexCompanions, bind_eq_ok_iff, Walk.ask_eq_ok_iff, CompanionWalk.setCurrent,
        Walk.update, modify_eq_ok_iff] at entering
      rcases entering with ⟨scope, _, ⟨asked, rfl⟩, rfl⟩
      cases declares : statement.declared? with
      | some declared =>
          simp only [declares, bind_eq_ok_iff, Walk.ask_eq_ok_iff, Program.symbol_eq_ok_iff,
            Traversal.walkType, get_eq_ok_iff] at walking
          rcases walking with
            ⟨symbol, _, ⟨stored, rfl⟩, _, walked, ⟨_, _, ⟨rfl, rfl⟩, walking⟩, leaving⟩
          simp only [indexCompanions, CompanionWalk.setCurrent, Walk.update,
            modify_eq_ok_iff] at leaving
          subst leaving
          rcases statementScope?_eq_ok found asked declared declares with ⟨content, -, rfl⟩
          have completes := completes_of_walkTypeWithin (by rfl) walking
          have laterCompletes := induction later
          exact .declaration found declares stored completes laterCompletes
      | none =>
          simp only [declares, indexCompanions, CompanionWalk.setCurrent, Walk.update,
            modify_eq_ok_iff] at walking
          subst walking
          have laterCompletes := induction later
          exact .other found declares laterCompletes

end

theorem canonicalizeTypes_eq_ok {options : Options} {before after : Walker (Progress Unit)}
    (ran : canonicalizeTypes .silent options before = .ok () after) :
    ∃ middle : Walker (Progress Unit),
      (variableTypes .silent).walkProgram before = .ok () middle ∧
      if options.companions then
        ∃ order, middle.program.preorder = .ok order ∧
          middle.program.CompletesAll order after.program
      else after.program = middle.program := by
  simp only [canonicalizeTypes, bind_eq_ok_iff] at ran
  rcases ran with ⟨_, middle, walked, completed⟩
  refine ⟨middle, walked, ?_⟩
  split at completed
  · rename_i companions
    rw [if_pos companions]
    simp only [settleCompanions, Walk.focus_eq_ok_iff, Traversal.walkProgram, bind_eq_ok_iff,
      Walk.ask_eq_ok_iff] at completed
    rcases completed with ⟨inner, ⟨order, _, ⟨listed, rfl⟩, completed⟩, rfl⟩
    have completes := completesAll_of_forM completed
    exact ⟨order, listed, completes⟩
  · rename_i companions
    rw [if_neg companions]
    simp only [pure_eq_ok_iff] at completed
    rw [completed.2]

theorem canonicalizeTypes_of_canonicalize {options : Options}
    {before after : Walker (Progress Unit)}
    (ran : canonicalize .silent options before = .ok () after) :
    ∃ final, canonicalizeTypes .silent options before = .ok () final ∧
      after.program = final.program := by
  simp only [canonicalize, bind_eq_ok_iff] at ran
  rcases ran with ⟨_, final, completed, checked⟩
  refine ⟨final, completed, ?_⟩
  split at checked
  · simp only [checkCanonical, bind_eq_ok_iff, Walk.ask_eq_ok_iff] at checked
    rcases checked with ⟨violations, _, ⟨-, rfl⟩, checked⟩
    split at checked
    · simp only [pure_eq_ok_iff] at checked
      rw [checked.2]
    · simp [Walk.fault_eq_ok_iff] at checked
  · simp only [pure_eq_ok_iff] at checked
    rw [checked.2]

theorem canonicalize_eq_ok {options : Options} {before after : Walker (Progress Unit)}
    (ran : canonicalize .silent options before = .ok () after) :
    ∃ middle : Walker (Progress Unit),
      (variableTypes .silent).walkProgram before = .ok () middle ∧
      if options.companions then
        ∃ order, middle.program.preorder = .ok order ∧
          middle.program.CompletesAll order after.program
      else after.program = middle.program := by
  rcases canonicalizeTypes_of_canonicalize ran with ⟨final, completed, same⟩
  rw [same]
  exact canonicalizeTypes_eq_ok completed

namespace Program

variable {before after : Program}

/-! ## Symbols -/

theorem Visits.symbols {statement : StatementRef} {type : TypeRef}
    (visits : before.Visits statement type after) {ref : SymbolRef} {symbol : Symbol}
    (stored : before.symbols.get? ref = some symbol) :
    after.symbols.get? ref = some symbol := by
  cases visits with
  | settled _ _ _ settles _ => exact settles.symbols stored
  | passed => exact stored

theorem Completes.symbols {statement : StatementRef} {types : List TypeRef}
    (completes : Completes statement before types after) {ref : SymbolRef} {symbol : Symbol}
    (stored : before.symbols.get? ref = some symbol) :
    after.symbols.get? ref = some symbol := by
  induction completes with
  | nil => exact stored
  | cons visits _ _ _ inner later => exact later (inner (visits.symbols stored))

theorem CompletesAll.symbols {order : List StatementRef}
    (completes : CompletesAll before order after) {ref : SymbolRef} {symbol : Symbol}
    (stored : before.symbols.get? ref = some symbol) :
    after.symbols.get? ref = some symbol := by
  induction completes with
  | nil => exact stored
  | declaration _ _ _ completes _ induction => exact induction (completes.symbols stored)
  | other _ _ _ induction => exact induction stored

/-! ## What later visits leave alone -/

structure Enriches (before after : Program) : Prop where
  advances : Advances before after
  forms : ∀ type form symbol, after.types.get? type = some { form, symbol } →
    before.Companioned type → ∃ holder, before.types.get? type = some { form, symbol := holder }

namespace Enriches

theorem refl (program : Program) : Enriches program program where
  advances := .refl program
  forms _ _ symbol stored _ := ⟨symbol, stored⟩

theorem companioned (enriches : Enriches before after) {type : TypeRef}
    (companioned : before.Companioned type) : after.Companioned type := by
  intro rank parent companion symbol stored
  rcases enriches.forms type _ symbol stored companioned with ⟨holder, old⟩
  exact enriches.advances.named _ (companioned rank parent companion holder old)

theorem trans {middle : Program} (first : Enriches before middle)
    (second : Enriches middle after) : Enriches before after where
  advances := first.advances.trans second.advances
  forms type form symbol stored companioned := by
    rcases second.forms type form symbol stored (first.companioned companioned) with
      ⟨holder, between⟩
    exact first.forms type form holder between companioned

end Enriches

/-- Everything that `type` reaches has settled companions. -/
def Completed (program : Program) (type : TypeRef) : Prop :=
  ∀ part, program.Reaches type part → program.Companioned part

theorem Completed.child {program : Program} {type child : TypeRef} {form : TypeForm}
    {symbol : Option SymbolRef} (completed : program.Completed type)
    (stored : program.types.get? type = some { form, symbol }) (member : child ∈ form.children) :
    program.Completed child :=
  fun part reaches => completed part (.child stored member reaches)

theorem Completed.of_enriches (enriches : Enriches before after) {type : TypeRef}
    (completed : before.Completed type) : after.Completed type := by
  intro part reaches
  induction reaches with
  | self => exact enriches.companioned (completed _ .self)
  | child stored member _ induction =>
      rcases enriches.forms _ _ _ stored (completed _ .self) with ⟨_, old⟩
      exact induction (completed.child old member)

/-! ## Visits complete types -/

theorem Visits.enriches {statement : StatementRef} {type : TypeRef}
    (visits : before.Visits statement type after) : Enriches before after := by
  cases visits with
  | passed => exact .refl before
  | @settled rank parent companion canonical symbol subject text middle types stored anonymous
      name settles recorded =>
      have different : type ≠ companion := by
        rintro rfl
        rw [stored] at anonymous
        simp at anonymous
      refine ⟨(settles.advances anonymous).trans (advances_of_changeForm recorded), ?_⟩
      intro other form holder found companioned
      have isOther : type ≠ other := by
        rintro rfl
        rcases companioned rank parent companion symbol stored with ⟨_, _, named⟩
        rw [anonymous] at named
        simp at named
      dsimp only at found
      rw [Arena.get?_of_modify_of_ne recorded isOther] at found
      by_cases isCompanion : other = companion
      · subst isCompanion
        cases settles with
        | reused => exact ⟨_, found⟩
        | created _ _ _ introduces =>
            rw [introduces.type_same anonymous] at found
            simp only [Option.some.injEq, TypeNode.mk.injEq] at found
            rcases found with ⟨rfl, -⟩
            exact ⟨_, anonymous⟩
      · exact ⟨_, (settles.type_other isCompanion).symm.trans found⟩

theorem companioned_of_recorded {middle : Program} {type companion canonical : TypeRef} {rank : Nat}
    {parent : Option TypeRef} {symbol : Option SymbolRef} {types : Arena .type TypeNode}
    (stored : middle.types.get? type =
      some { form := .domain rank parent (some companion), symbol })
    (named : middle.Named canonical)
    (recorded : middle.types.modify type
      (fun node => { node with form := node.form.withCompanion canonical }) = .ok types) :
    Program.Companioned { middle with types } type := by
  have recording : Advances middle { middle with types } := advances_of_changeForm recorded
  intro otherRank otherParent other holder found
  dsimp only at found
  rw [Arena.get?_of_modify_same recorded, stored] at found
  simp only [Option.map_some, TypeForm.withCompanion, Option.some.injEq, TypeNode.mk.injEq,
    TypeForm.domain.injEq] at found
  rcases found with ⟨⟨-, -, rfl⟩, -⟩
  exact recording.named _ named

/-- Visits for `statement` settle what they visit, in programs that are good and stay so. -/
def Settling (good : Program → Prop) (statement : StatementRef) : Prop :=
  ∀ before type after, good before → before.Visits statement type after →
    good after ∧ after.Companioned type

section

variable {good : Program → Prop}

theorem Completes.completed {statement : StatementRef} {types : List TypeRef}
    (settling : Settling good statement) (isGood : good before)
    (completes : Completes statement before types after) :
    good after ∧ Enriches before after ∧ ∀ type ∈ types, after.Completed type := by
  induction completes with
  | nil => exact ⟨isGood, .refl _, by simp⟩
  | @cons before visited middle after type rest form symbol visits stored _ _ inner later =>
      rcases settling _ _ _ isGood visits with ⟨goodVisited, companioned⟩
      rcases inner goodVisited with ⟨goodMiddle, parting, children⟩
      rcases later goodMiddle with ⟨goodAfter, resting, others⟩
      refine ⟨goodAfter, (visits.enriches.trans parting).trans resting, ?_⟩
      intro other member
      rcases List.mem_cons.mp member with rfl | inRest
      · apply Completed.of_enriches resting
        intro part reaches
        cases reaches with
        | self => exact parting.companioned companioned
        | child again inForm rest =>
            rcases parting.forms _ _ _ again companioned with ⟨_, old⟩
            rcases node_unique stored old with ⟨rfl, -⟩
            exact children _ inForm part rest
      · exact others other inRest

theorem Advances.statement {ref : StatementRef} {statement : Statement}
    (advances : Advances before after) (found : before.statement ref = .ok statement) :
    after.statement ref = .ok statement := by
  rcases Layout.statement_eq_ok_iff.mp found with ⟨body, stored⟩
  rcases advances.layout.statements ref _ stored with ⟨⟨_, later⟩, laterStored, rfl, -⟩
  exact Layout.statement_eq_ok_iff.mpr ⟨later, laterStored⟩

theorem CompletesAll.completed_of_settling {order : List StatementRef}
    (settling : ∀ ref ∈ order, Settling good ref) (isGood : good before)
    (completes : CompletesAll before order after) :
    good after ∧ Enriches before after ∧ ∀ ref ∈ order, ∀ statement declared symbol,
      before.statement ref = .ok statement → statement.declared? = some declared →
      before.symbols.get? declared = some symbol → after.Completed symbol.type := by
  induction completes with
  | nil => exact ⟨isGood, .refl _, by simp⟩
  | @declaration before middle after ref rest statement declared symbol found declares stored
      completes _ induction =>
      rw [List.forall_mem_cons] at settling
      rcases completes.completed settling.1 isGood with ⟨goodMiddle, first, completed⟩
      rcases induction settling.2 goodMiddle with ⟨goodAfter, later, others⟩
      refine ⟨goodAfter, first.trans later, ?_⟩
      intro other member otherStatement otherDeclared otherSymbol otherFound otherDeclares
        otherStored
      rcases List.mem_cons.mp member with rfl | inRest
      · rw [found] at otherFound
        cases Except.ok.inj otherFound
        cases Option.mem_unique declares otherDeclares
        cases Option.mem_unique stored otherStored
        exact Completed.of_enriches later (completed _ List.mem_cons_self)
      · exact others other inRest otherStatement otherDeclared otherSymbol
          (first.advances.statement otherFound) otherDeclares (completes.symbols otherStored)
  | @other before after ref rest statement found silent _ induction =>
      rcases induction (List.forall_mem_cons.mp settling).2 isGood with ⟨goodAfter, later, others⟩
      refine ⟨goodAfter, later, ?_⟩
      intro other member otherStatement otherDeclared otherSymbol otherFound otherDeclares
      rcases List.mem_cons.mp member with rfl | inRest
      · rw [found] at otherFound
        cases Except.ok.inj otherFound
        rw [silent] at otherDeclares
        contradiction
      · exact others other inRest otherStatement otherDeclared otherSymbol otherFound
          otherDeclares

end

theorem Visits.closed {statement : StatementRef} {type : TypeRef} (closed : Closed before)
    (linked : before.Linked statement) (visits : before.Visits statement type after) :
    Closed after ∧ after.Companioned type := by
  cases visits with
  | passed companioned => exact ⟨closed, companioned⟩
  | @settled rank parent companion canonical symbol subject text middle types stored anonymous
      name settles recorded =>
      rcases settles.closed closed anonymous
          (by simp [TypeForm.parts, TypeForm.children]) (CanonicalKey.reserved_name _)
          (fun _ same => Placement.before.inj same ▸ linked) with
        ⟨closedMiddle, -, canonicalNamed⟩
      have different : type ≠ companion := by
        rintro rfl
        rw [stored] at anonymous
        simp at anonymous
      have storedMiddle := (settles.type_other different).trans stored
      refine ⟨closedMiddle.changeForm storedMiddle ?_ recorded,
        companioned_of_recorded storedMiddle canonicalNamed recorded⟩
      intro declared part member
      rcases Option.ne_none_iff_exists'.mp declared with ⟨ref, rfl⟩
      exact closedMiddle.parts type _ ref storedMiddle part member

theorem CompletesAll.completed {order : List StatementRef} (closed : Closed before)
    (linked : ∀ ref ∈ order, before.Linked ref) (completes : CompletesAll before order after) :
    Closed after ∧ Enriches before after ∧ ∀ ref ∈ order, ∀ statement declared symbol,
      before.statement ref = .ok statement → statement.declared? = some declared →
      before.symbols.get? declared = some symbol → after.Completed symbol.type := by
  have settling : ∀ ref ∈ order,
      Settling (fun program => Closed program ∧ ∀ ref ∈ order, program.Linked ref) ref := by
    rintro ref member before type after ⟨closed, linked⟩ visits
    rcases visits.closed closed (linked ref member) with ⟨closedAfter, companioned⟩
    exact ⟨⟨closedAfter, fun other isOther =>
      visits.enriches.advances.linked (linked other isOther)⟩, companioned⟩
  rcases completes.completed_of_settling settling ⟨closed, linked⟩ with ⟨⟨closedAfter, -⟩, rest⟩
  exact ⟨closedAfter, rest⟩

theorem Closed.named_of_reaches {program : Program} (closed : Closed program)
    {type part : TypeRef} (named : program.Named type) (completed : program.Completed type)
    (reaches : program.Reaches type part) : program.Named part := by
  induction reaches with
  | self => exact named
  | @child type child part form symbol stored member _ induction =>
      refine induction ?_ (completed.child stored member)
      rcases named with ⟨_, ref, found⟩
      rcases node_unique stored found with ⟨rfl, rfl⟩
      cases form with
      | domain rank parent companion =>
          rcases List.mem_append.mp member with isParent | isCompanion
          · exact closed.parts type _ ref stored child isParent
          · cases Option.mem_toList.mp isCompanion
            exact completed type .self rank parent child _ stored
      | _ => exact closed.parts type _ ref stored child member

end Program

/-- After both walks everything that the types of variables are made of, companions
included, has a declaration that is built in or stands where it can be reached. -/
theorem canonicalize_closes {calls : List Call} {source : Program} {own : Progress Unit}
    {options : Options} {final : Walker (Progress Unit)} (built : layOut calls = .ok source)
    (scalars : ∀ type node, source.types.get? type = some node →
      (node.symbol ≠ none ↔ node.form.Scalar))
    (unreserved : source.Unreserved) (precede : source.RangesPrecede)
    (companions : options.companions = true)
    (ran : canonicalize .silent options ⟨source, own⟩ = .ok () final) :
    ∀ var ∈ source.declaredVariables, ∃ type, final.program.typeOf? var = some type ∧
      ∀ part, final.program.Reaches type part → ∃ form ref,
        final.program.types.get? part = some { form, symbol := some ref } ∧
        final.program.Declared ref := by
  have laid := laidOut_of_layOut built
  rcases canonicalize_eq_ok ran with ⟨middle, walked, completing⟩
  rw [if_pos companions] at completing
  rcases completing with ⟨order, listed, completes⟩
  rcases Program.closed_of_walkProgram laid unreserved scalars precede walked with
    ⟨closed, resolved⟩
  have linked : ∀ ref ∈ order, middle.program.Linked ref := by
    intro ref member
    rcases Layout.reachable_of_mem_preorder listed member with ⟨⟨placed, stored⟩, -⟩
    exact closed.statements ref placed stored
  rcases completes.completed closed linked with ⟨closedFinal, enriches, completed⟩
  rcases Program.resolved_of_walkProgram laid unreserved walked with ⟨tracks, -⟩
  intro var member
  rcases resolved var member with ⟨type, typed, named⟩
  rcases Option.map_eq_some_iff.mp typed with ⟨symbol, stored, rfl⟩
  refine ⟨symbol.type, Program.typeOf?_eq_some (completes.symbols stored), ?_⟩
  have completedType : final.program.Completed symbol.type := by
    rcases Program.mem_declaredVariables_iff.mp member with ⟨ref, placed, placedStored, declares⟩
    rcases tracks.layout.statements ref placed placedStored with ⟨later, laterStored, same, -⟩
    have inOrder := (closed.statements ref later laterStored).mem_preorder listed
    refine completed ref inOrder later.statement var symbol
      (Layout.statement_eq_ok_iff.mpr ⟨later.body, laterStored⟩) ?_ stored
    simp only [Statement.declared?, same, declares]
  intro part reaches
  rcases closedFinal.named_of_reaches (enriches.advances.named _ named) completedType reaches with
    ⟨form, ref, partStored⟩
  exact ⟨form, ref, partStored, closedFinal.declared part form ref partStored⟩

theorem Program.Reaches.index_le {program : Program} (laid : LaidOut program)
    {type part : TypeRef} (reaches : program.Reaches type part) : part.index ≤ type.index := by
  induction reaches with
  | self => exact Nat.le_refl _
  | child stored member _ induction =>
      exact Nat.le_trans induction (Nat.le_of_lt (laid.parts_below _ _ stored _ member))

def companionCalls : List Call :=
  [.addModule, .addExpression (.literal 0), .addType (.index ⟨0⟩),
    .addType (.domain 1 none (some ⟨7⟩)), .declareVar ⟨1⟩ "D" ⟨8⟩,
    .addExpression (.reference ⟨7⟩), .addExpression (.iteration [⟨1⟩]),
    .addType (.array ⟨2⟩ ⟨2⟩ none), .declareVar ⟨1⟩ "a" ⟨9⟩]

theorem canonicalize_closes_companion :
    ∃ source final, layOut companionCalls = .ok source ∧
      canonicalize .silent {} ⟨source, { journal := () }⟩ = .ok () final ∧
      ∃ type, final.program.typeOf? ⟨8⟩ = some type ∧
        ∀ part, final.program.Reaches type part → ∃ form ref,
          final.program.types.get? part = some { form, symbol := some ref } ∧
          final.program.Declared ref := by
  obtain ⟨source, isBuilt, scalars, unreserved, member, isListed, ⟨first, firstStored, declares⟩,
      isDomain, arrays, references, finishes⟩ :
    ∃ source ∈ (layOut companionCalls).toOption,
      (∀ type node, source.types.get? type = some node →
        (node.symbol ≠ none ↔ node.form.Scalar)) ∧ source.Unreserved ∧
      ⟨8⟩ ∈ source.declaredVariables ∧ source.preorder.toOption = some [⟨0⟩, ⟨1⟩] ∧
      (∃ first ∈ source.layout.statements.get? ⟨0⟩,
        first.statement.kind = .varDeclaration ⟨7⟩) ∧
      source.typeOf? ⟨7⟩ = some ⟨8⟩ ∧
      (∀ type node, source.types.get? type = some node →
        node.form.shape = .array → 8 < type.index) ∧
      (∀ subject expression, source.expressions.get? subject = some expression →
        expression = .reference ⟨7⟩ ∨ expression = .literal 0 ∨
          expression = .iteration [⟨1⟩]) ∧
      (finished? (canonicalize .silent {} ⟨source, { journal := () }⟩)).isSome := by
    decide +kernel
  have built := Except.toOption_eq_some_iff.mp isBuilt
  rcases Option.isSome_iff_exists.mp finishes with ⟨final, isFinal⟩
  have ran := finished?_eq_some_iff.mp isFinal
  have precede : source.RangesPrecede := by
    intro order listed front ref back split var symbol declared stored type element range recorded
      holder reaches array singles _ single _ used refers
    rw [Except.toOption_eq_some_iff.mp isListed] at listed
    cases Except.ok.inj listed
    obtain rfl : used = ⟨7⟩ := by
      rcases references single _ refers with same | same | same <;> simp_all
    cases front with
    | cons head rest =>
        rcases List.cons.inj split with ⟨rfl, -⟩
        exact ⟨_, List.mem_cons_self, first, firstStored, declares⟩
    | nil =>
        -- The first statement declares the domain, which no array is a part of.
        rcases List.cons.inj split with ⟨rfl, -⟩
        rcases declared with ⟨placed, placedStored, declaresVar⟩
        rw [Option.mem_def, placedStored] at firstStored
        cases Option.some.inj firstStored
        rw [declares] at declaresVar
        cases StatementKind.varDeclaration.inj declaresVar
        rw [Program.typeOf?_eq_some stored] at isDomain
        have below := reaches.index_le (laidOut_of_layOut built)
        have above := arrays type _ array rfl
        rw [Option.some.inj isDomain] at below
        exact absurd below (Nat.not_le.mpr above)
  exact ⟨source, final, built, ran,
    canonicalize_closes built scalars unreserved precede rfl ran ⟨8⟩ member⟩

end StructuralTypes
