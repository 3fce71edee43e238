import StructuralTypes.Proofs.Retention

/-! What the walk that settles companions leaves of the domains that it comes to. Each visit leaves
its domain with a declared index type, and nothing that comes later takes that away. -/

namespace StructuralTypes

/-! ## The types that a walk comes to -/

section

variable {ε σ α : Type}

theorem forM_append_cons_eq_ok_iff {action : α → EStateM ε σ PUnit} {front back : List α}
    {element : α} {before after : σ} :
    (front ++ element :: back).forM action before = .ok ⟨⟩ after ↔
      ∃ middle inner, front.forM action before = .ok ⟨⟩ middle ∧
        action element middle = .ok ⟨⟩ inner ∧ back.forM action inner = .ok ⟨⟩ after := by
  simp only [List.forM_eq_forM, List.forM_append, List.forM_cons, bind_eq_ok_iff]
  constructor
  · rintro ⟨_, middle, walked, _, inner, visited, rest⟩
    exact ⟨middle, inner, walked, visited, rest⟩
  · rintro ⟨middle, inner, walked, visited, rest⟩
    exact ⟨_, middle, walked, _, inner, visited, rest⟩

end

namespace Traversal

variable {ε σ : Type}

inductive MeetsWithin (traversal : Traversal ε σ) (met : TypeRef) (state : Walker σ) :
    Nat → TypeRef → Walker σ → Prop
  | self {depth : Nat} : MeetsWithin traversal met state (depth + 1) met state
  | part {depth : Nat} {type part : TypeRef} {before middle inner : Walker σ} {form : TypeForm}
      {front back : List TypeRef}
      (visited : traversal.visitType type before = .ok () middle)
      (found : middle.program.form type = .ok form)
      (parts : form.children = front ++ part :: back)
      (walked : front.forM (traversal.walkTypeWithin depth) middle = .ok () inner)
      (meets : MeetsWithin traversal met state depth part inner) :
      MeetsWithin traversal met state (depth + 1) type before

/-- Walking over a program from `before`, the traversal comes to `met` inside what `ref` declares,
and is about to visit it. -/
inductive Meets (traversal : Traversal ε σ) (before : Walker σ) (ref : StatementRef)
    (met : TypeRef) (state : Walker σ) : Prop
  | intro {front back : List StatementRef} {middle inner : Walker σ} {statement : Statement}
      {declared : SymbolRef} {symbol : Symbol}
      (listed : before.program.preorder = .ok (front ++ ref :: back))
      (walked : front.forM traversal.walkStatement before = .ok () middle)
      (entered : traversal.enterStatement ref middle = .ok () inner)
      (found : inner.program.statement ref = .ok statement)
      (declares : statement.declared? = some declared)
      (stored : inner.program.symbol declared = .ok symbol)
      (meets : traversal.MeetsWithin met state (traversal.nesting inner.program) symbol.type inner)

variable {traversal : Traversal ε σ} {reach : Walker σ → Walker σ → Prop}
  [Std.Refl reach] [IsTrans (Walker σ) reach]

theorem MeetsWithin.leads
    (visit : ∀ type before, StructuralTypes.Leads reach (traversal.visitType type) before)
    {met : TypeRef} {state before after : Walker σ} {depth : Nat} {type : TypeRef}
    (meets : traversal.MeetsWithin met state depth type before)
    (ran : traversal.walkTypeWithin depth type before = .ok () after) :
    reach before state ∧
      ∃ visited, traversal.visitType met state = .ok () visited ∧ reach visited after := by
  have walks := leads_walkTypeWithin visit
  induction meets generalizing after with
  | self =>
      simp only [walkTypeWithin, bind_eq_ok_iff, Walk.ask_eq_ok_iff] at ran
      obtain ⟨_, _, visiting, form, visited, ⟨-, rfl⟩, walked⟩ := ran
      exact ⟨refl state, visited, visiting,
        leads_forM (walks _) form.children visited after (.inl ⟨(), walked⟩)⟩
  | part visiting found parts walked meets induction =>
      simp only [walkTypeWithin, bind_eq_ok_iff, Walk.ask_eq_ok_iff] at ran
      obtain ⟨_, middle, visitingAgain, form, _, ⟨foundAgain, rfl⟩, ran⟩ := ran
      cases visiting.symm.trans visitingAgain
      cases Except.ok.inj (found.symm.trans foundAgain)
      rw [parts, forM_append_cons_eq_ok_iff] at ran
      obtain ⟨inner, done, walkedAgain, walkedPart, walkedRest⟩ := ran
      cases walked.symm.trans walkedAgain
      obtain ⟨reached, visited, visits, rest⟩ := induction walkedPart
      have toMiddle := visit _ _ _ (.inl ⟨(), visiting⟩)
      have toInner := leads_forM (walks _) _ _ _ (.inl ⟨(), walked⟩)
      have toEnd := leads_forM (walks _) _ _ _ (.inl ⟨(), walkedRest⟩)
      exact ⟨IsTrans.trans _ _ _ (IsTrans.trans _ _ _ toMiddle toInner) reached, visited, visits,
        IsTrans.trans _ _ _ rest toEnd⟩

theorem Meets.leads {within : Walker σ → Walker σ → Prop} [Std.Refl within]
    [IsTrans (Walker σ) within] (leads : traversal.Leads reach)
    (visit : ∀ type before, StructuralTypes.Leads within (traversal.visitType type) before)
    {before state after : Walker σ} {ref : StatementRef} {met : TypeRef}
    (meets : traversal.Meets before ref met state)
    (ran : traversal.walkProgram before = .ok () after) :
    ∃ middle inner visited statement declared, reach before middle ∧
      traversal.enterStatement ref middle = .ok () inner ∧
      inner.program.statement ref = .ok statement ∧ statement.declared? = some declared ∧
      within inner state ∧ traversal.visitType met state = .ok () visited ∧
      reach visited after := by
  obtain @⟨_, _, middle, inner, _, _, _, listed, walked, entered, found, declares, stored, meets⟩ :=
    meets
  simp only [walkProgram, bind_eq_ok_iff, Walk.ask_eq_ok_iff] at ran
  obtain ⟨_, _, ⟨again, rfl⟩, ran⟩ := ran
  cases Except.ok.inj (listed.symm.trans again)
  obtain ⟨_, done, walkedAgain, walking, rest⟩ := forM_append_cons_eq_ok_iff.mp ran
  cases walkedAgain.symm.trans walked
  simp only [walkStatement, bind_eq_ok_iff, Walk.ask_eq_ok_iff] at walking
  obtain ⟨_, _, enteredAgain, _, _, ⟨foundAgain, rfl⟩, walking⟩ := walking
  cases enteredAgain.symm.trans entered
  cases Except.ok.inj (found.symm.trans foundAgain)
  simp only [declares, bind_eq_ok_iff, Walk.ask_eq_ok_iff, walkType, get_eq_ok_iff] at walking
  obtain ⟨_, _, ⟨storedAgain, rfl⟩, _, last, ⟨_, _, ⟨rfl, rfl⟩, walking⟩, leaving⟩ := walking
  cases Except.ok.inj (stored.symm.trans storedAgain)
  obtain ⟨reached, visited, visiting, -⟩ := meets.leads visit walking
  obtain ⟨-, _, visitingAgain, toLast⟩ := meets.leads leads.visit walking
  cases visiting.symm.trans visitingAgain
  have toMiddle := leads_forM leads.walkStatement _ _ _ (.inl ⟨(), walked⟩)
  have toDone := leads.leave ref last _ (.inl ⟨(), leaving⟩)
  have toEnd := leads_forM leads.walkStatement _ _ _ (.inl ⟨(), rest⟩)
  exact ⟨middle, _, visited, _, _, toMiddle, entered, found, declares, reached, visiting,
    IsTrans.trans _ _ _ (IsTrans.trans _ _ _ toLast toDone) toEnd⟩

end Traversal

/-! ## What visits keep -/

namespace Program

variable {program before after : Program}

def VisitStep (before after : Program) : Prop :=
  ∃ statement type, before.Visits statement type after

abbrev VisitSteps : Program → Program → Prop := Relation.ReflTransGen VisitStep

theorem VisitSteps.companionSteps (steps : VisitSteps before after) :
    CompanionSteps before after := by
  induction steps with
  | refl => exact .refl
  | tail _ step induction =>
      obtain ⟨_, _, visits⟩ := step
      exact induction.trans visits.companionSteps

theorem VisitSteps.enriches (steps : VisitSteps before after) : Enriches before after := by
  induction steps with
  | refl => exact .refl before
  | tail _ step induction =>
      obtain ⟨_, _, visits⟩ := step
      exact induction.trans visits.enriches

theorem VisitSteps.form_kept (steps : VisitSteps before after) {type : TypeRef} {form : TypeForm}
    {symbol : Option SymbolRef} (stored : before.types.get? type = some { form, symbol })
    (companioned : before.Companioned type) :
    ∃ holder, after.types.get? type = some { form, symbol := holder } := by
  obtain ⟨⟨later, holder⟩, found, -⟩ := steps.companionSteps.retains.forms type _ stored
  obtain ⟨_, old⟩ := steps.enriches.forms type later holder found companioned
  obtain ⟨rfl, -⟩ := node_unique stored old
  exact ⟨holder, found⟩

theorem CompanionSteps.find?_kept (steps : CompanionSteps before after) {text : String}
    {name : NameRef} (found : before.names.find? text = some name) :
    after.names.find? text = some name := by
  induction steps with
  | refl => exact found
  | tail _ step induction =>
      cases step with
      | intern text => exact NameTable.find?_intern_of_find? text induction
      | introduce _ _ _ introduces =>
          rw [introduces.names]
          exact NameTable.find?_intern_of_find? _ induction
      | recompanion => exact induction

theorem Settles.form_kept {scope : ScopeRef} {text : String} {fresh canonical : TypeRef}
    {placement : Placement} (settles : before.Settles scope text fresh id placement canonical after)
    {type : TypeRef} {form : TypeForm} {symbol : Option SymbolRef}
    (stored : before.types.get? type = some { form, symbol }) :
    ∃ holder, after.types.get? type = some { form, symbol := holder } := by
  by_cases same : type = fresh
  · subst same
    cases settles with
    | reused => exact ⟨_, stored⟩
    | created _ _ _ introduces => exact ⟨_, introduces.type_same stored⟩
  · exact ⟨_, (settles.type_other same).trans stored⟩

/-- What is no index type is reached as before: a visit puts one companion in the place of another,
which is an index type and has no parts. -/
theorem Visits.reaches {statement : StatementRef} {visited : TypeRef}
    (visits : before.Visits statement visited after) {type part : TypeRef}
    (reaches : before.Reaches type part) (other : before.shape part ≠ .ok .index) :
    after.Reaches type part := by
  cases visits with
  | passed => exact reaches
  | settled stored anonymous _ settles recorded =>
      induction reaches with
      | self => exact .self
      | @child type child part form symbol found member rest induction =>
          obtain ⟨holder, kept⟩ := settles.form_kept found
          by_cases same : visited = type
          · subst same
            obtain ⟨rfl, -⟩ := node_unique stored found
            have recordedNode := Arena.get?_of_modify_same recorded
            rw [kept] at recordedNode
            refine .child recordedNode ?_ (induction other)
            simp only [TypeForm.withCompanion, TypeForm.children, List.mem_append,
              Option.mem_toList] at member ⊢
            refine member.imp_right fun isCompanion => ?_
            cases isCompanion
            cases rest with
            | self => exact absurd (shape_eq_ok_iff.mpr ⟨_, anonymous, rfl⟩) other
            | child again inner =>
                obtain ⟨rfl, -⟩ := node_unique anonymous again
                cases inner
          · exact .child ((Arena.get?_of_modify_of_ne recorded same).trans kept) member
              (induction other)

/-! ## Declared index types -/

def NamedIndex (program : Program) (type : TypeRef) : Prop :=
  ∃ subject ref, program.types.get? type = some { form := .index subject, symbol := some ref }

theorem NamedIndex.kept {type : TypeRef} (named : before.NamedIndex type)
    (steps : CompanionSteps before after) : after.NamedIndex type := by
  obtain ⟨subject, ref, stored⟩ := named
  obtain ⟨later, found, recompanions⟩ := steps.continues.types type _ ref stored
  cases recompanions
  exact ⟨subject, ref, found⟩

theorem namedIndex_iff {type : TypeRef} :
    program.NamedIndex type ↔ program.Named type ∧ program.shape type = .ok .index := by
  simp only [shape_eq_ok_iff]
  constructor
  · rintro ⟨subject, ref, stored⟩
    exact ⟨⟨_, ref, stored⟩, _, stored, rfl⟩
  · rintro ⟨⟨form, ref, stored⟩, node, again, shaped⟩
    cases Option.mem_unique stored again
    cases form with
    | index subject => exact ⟨subject, ref, stored⟩
    | _ => cases shaped

theorem exists_node_iff_namedIndex {type : TypeRef} :
    (∃ node ∈ program.types.get? type, node.form.shape = .index ∧ node.symbol.isSome) ↔
      program.NamedIndex type := by
  constructor
  · rintro ⟨⟨form, symbol⟩, stored, shaped, declared⟩
    obtain ⟨ref, rfl⟩ := Option.isSome_iff_exists.mp declared
    exact namedIndex_iff.mpr ⟨⟨form, ref, stored⟩, shape_eq_ok_iff.mpr ⟨_, stored, shaped⟩⟩
  · rintro ⟨subject, ref, stored⟩
    exact ⟨_, stored, rfl, rfl⟩

instance (program : Program) (type : TypeRef) : Decidable (program.NamedIndex type) :=
  decidable_of_iff _ exists_node_iff_namedIndex

/-- If `type` is a domain with a companion, the companion is an index type with a declaration. -/
def Fitted (program : Program) (type : TypeRef) : Prop :=
  ∀ rank parent companion symbol,
    program.types.get? type = some { form := .domain rank parent (some companion), symbol } →
    program.NamedIndex companion

theorem Fitted.companioned {type : TypeRef} (fitted : program.Fitted type) :
    program.Companioned type :=
  fun rank parent companion symbol stored =>
    (namedIndex_iff.mp (fitted rank parent companion symbol stored)).1

theorem Fitted.kept {type : TypeRef} (fitted : before.Fitted type)
    (steps : VisitSteps before after) : after.Fitted type := by
  intro rank parent companion symbol stored
  obtain ⟨holder, old⟩ := steps.enriches.forms type _ symbol stored fitted.companioned
  exact (fitted rank parent companion holder old).kept steps.companionSteps

/-- All that a walk of at most `depth` levels into `type` comes to is stored and fitted. -/
def FittedWithin (program : Program) : (depth : Nat) → TypeRef → Prop
  | 0, _ => False
  | depth + 1, type => program.Fitted type ∧
      ∃ form, program.form type = .ok form ∧ ∀ part ∈ form.children, program.FittedWithin depth part

theorem FittedWithin.kept {depth : Nat} {type : TypeRef} (fitted : before.FittedWithin depth type)
    (steps : VisitSteps before after) : after.FittedWithin depth type := by
  induction depth generalizing type with
  | zero => exact fitted
  | succ depth induction =>
      obtain ⟨here, form, found, parts⟩ := fitted
      obtain ⟨symbol, stored⟩ := form_eq_ok_iff.mp found
      obtain ⟨holder, kept⟩ := steps.form_kept stored here.companioned
      exact ⟨here.kept steps, form, form_eq_ok_iff.mpr ⟨holder, kept⟩,
        fun part member => induction (parts part member)⟩

theorem fittedWithin_of_index {type : TypeRef} (isIndex : program.shape type = .ok .index)
    (depth : Nat) : program.FittedWithin (depth + 1) type := by
  obtain ⟨⟨form, symbol⟩, stored, shaped⟩ := shape_eq_ok_iff.mp isIndex
  cases form with
  | index subject =>
      refine ⟨fun rank parent companion holder found => ?_, _,
        form_eq_ok_iff.mpr ⟨symbol, stored⟩, fun _ member => absurd member List.not_mem_nil⟩
      cases (node_unique stored found).1
  | _ => cases shaped

theorem FittedWithin.fitted {depth : Nat} {type part : TypeRef}
    (within : program.FittedWithin depth type) (reaches : program.Reaches type part) :
    program.Fitted part := by
  induction reaches generalizing depth with
  | self =>
      cases depth with
      | zero => exact within.elim
      | succ depth => exact within.1
  | child stored member _ induction =>
      cases depth with
      | zero => exact within.elim
      | succ depth =>
          obtain ⟨-, form, found, parts⟩ := within
          obtain ⟨_, again⟩ := form_eq_ok_iff.mp found
          obtain ⟨rfl, -⟩ := node_unique stored again
          exact induction (parts _ member)

/-! ## Names of index types -/

def IndexNamesBound (program : Program) : Prop :=
  ∀ name ref, program.Binds sharedScope name ref →
    ∃ text, program.names.get? name = some text ∧
      ("_index_".toList <+: text.toList → ∃ symbol, program.symbols.get? ref = some symbol ∧
        program.NamedIndex symbol.type)

theorem bindings_iff_indexNamesBound :
    (∀ content ∈ program.scopes.get? sharedScope, ∀ binding ∈ content.bindings,
      ∀ ref ∈ content.lookup binding.1, ∃ text ∈ program.names.get? binding.1,
        "_index_".toList <+: text.toList → ∃ symbol ∈ program.symbols.get? ref,
          program.NamedIndex symbol.type) ↔ program.IndexNamesBound := by
  constructor
  · rintro bound name ref ⟨content, stored, found⟩
    obtain ⟨front, back, split, -⟩ := List.lookup_eq_some_iff.mp found
    exact bound content stored (name, ref) (by simp [split]) ref found
  · intro bound content stored binding _ ref found
    exact bound binding.1 ref ⟨content, stored, found⟩

instance (program : Program) : Decidable program.IndexNamesBound :=
  decidable_of_iff _ bindings_iff_indexNamesBound

theorem IndexNamesBound.namedIndex (bound : program.IndexNamesBound) {text : String}
    {name : NameRef} {ref : SymbolRef} {symbol : Symbol}
    (binds : program.Binds sharedScope name ref)
    (named : program.names.get? name = some (CanonicalKey.indexOfDomain text).name)
    (stored : program.symbols.get? ref = some symbol) : program.NamedIndex symbol.type := by
  obtain ⟨_, again, isIndex⟩ := bound name ref binds
  cases Option.mem_unique named again
  obtain ⟨_, storedAgain, index⟩ := isIndex (by simp [CanonicalKey.name])
  cases Option.mem_unique stored storedAgain
  exact index

theorem IndexNamesBound.companionStep (bound : before.IndexNamesBound)
    (step : CompanionStep before after) : after.IndexNamesBound := by
  have kept : ∀ name ref, before.Binds sharedScope name ref →
      ∃ text, after.names.get? name = some text ∧
        ("_index_".toList <+: text.toList → ∃ symbol, after.symbols.get? ref = some symbol ∧
          after.NamedIndex symbol.type) := by
    intro name ref binds
    obtain ⟨text, named, isIndex⟩ := bound name ref binds
    refine ⟨text, step.retains.names name text named, fun starts => ?_⟩
    obtain ⟨symbol, stored, index⟩ := isIndex starts
    exact ⟨symbol, step.symbol_kept stored, index.kept (.single step)⟩
  cases step with
  | intern | recompanion => exact kept
  | introduce stored _ _ introduces =>
      intro name ref binds
      rcases introduces.binds_cases binds with ⟨-, rfl, rfl⟩ | old
      · exact ⟨_, introduces.new_name, fun _ =>
          ⟨_, introduces.new_symbol, _, _, introduces.type_same stored⟩⟩
      · exact kept name ref old

theorem IndexNamesBound.companionSteps (bound : before.IndexNamesBound)
    (steps : CompanionSteps before after) : after.IndexNamesBound := by
  induction steps with
  | refl => exact bound
  | tail _ step induction => exact induction.companionStep step

/-- The shared scope binds the name of the index types of domains called `text` to `type`. -/
def BindsIndex (program : Program) (text : String) (type : TypeRef) : Prop :=
  ∃ name ref symbol, program.names.find? (CanonicalKey.indexOfDomain text).name = some name ∧
    program.Binds sharedScope name ref ∧ program.symbols.get? ref = some symbol ∧
    symbol.type = type

theorem BindsIndex.kept {text : String} {type : TypeRef} (binds : before.BindsIndex text type)
    (steps : CompanionSteps before after) : after.BindsIndex text type := by
  obtain ⟨name, ref, symbol, found, bound, stored, isType⟩ := binds
  exact ⟨name, ref, symbol, steps.find?_kept found, steps.continues.binds _ _ _ bound,
    steps.symbol_kept stored, isType⟩

theorem Settles.bindsIndex {text : String} {fresh canonical : TypeRef}
    {finish : TypeForm → TypeForm} {placement : Placement}
    (settles : before.Settles sharedScope (CanonicalKey.indexOfDomain text).name fresh finish
      placement canonical after) : after.BindsIndex text canonical := by
  cases settles with
  | reused bound found => exact ⟨_, _, _, NameTable.find?_intern _ _, bound, found, rfl⟩
  | created _ _ _ introduces =>
      have named := NameTable.find?_intern before.names (CanonicalKey.indexOfDomain text).name
      rw [← introduces.names] at named
      exact ⟨_, _, _, named, introduces.new_bound, introduces.new_symbol, rfl⟩

theorem Visits.binds_index {statement : StatementRef} {type : TypeRef}
    (visits : before.Visits statement type after) {rank : Nat} {parent : Option TypeRef}
    {companion : TypeRef} {symbol : Option SymbolRef}
    (stored : before.types.get? type =
      some { form := .domain rank parent (some companion), symbol })
    (anonymous : before.typeSymbol? companion = .ok none) :
    ∃ text canonical, before.typeName? type = .ok (some text) ∧
      after.types.get? type = some { form := .domain rank parent (some canonical), symbol } ∧
      after.BindsIndex text canonical := by
  obtain ⟨form, isAnonymous⟩ := typeSymbol?_eq_ok_iff.mp anonymous
  cases visits with
  | passed companioned =>
      obtain ⟨_, _, named⟩ := companioned rank parent companion symbol stored
      cases (node_unique isAnonymous named).2
  | @settled _ _ _ canonical _ _ text _ _ again index name settles recorded =>
      obtain ⟨isDomain, rfl⟩ := node_unique stored again
      cases isDomain
      have different := ne_of_shape_ne stored index (by simp [TypeForm.shape])
      refine ⟨text, canonical, name, ?_, ?_⟩
      · rw [Arena.get?_of_modify_same recorded, settles.type_other different, stored]
        rfl
      · exact settles.bindsIndex

theorem IndexNamesBound.namedIndex_of_bindsIndex (bound : program.IndexNamesBound) {text : String}
    {type : TypeRef} (binds : program.BindsIndex text type) : program.NamedIndex type := by
  obtain ⟨name, ref, symbol, found, bindsName, stored, rfl⟩ := binds
  exact bound.namedIndex bindsName (NameTable.get?_of_find? found) stored

theorem Visits.fitted (bound : before.IndexNamesBound) {statement : StatementRef} {type : TypeRef}
    (visits : before.Visits statement type after)
    (indexed : ∀ rank parent companion symbol, before.types.get? type =
      some { form := .domain rank parent (some companion), symbol } →
      before.shape companion = .ok .index) : after.Fitted type := by
  cases visits with
  | passed companioned =>
      intro rank parent companion symbol stored
      exact namedIndex_iff.mpr ⟨companioned _ _ _ _ stored, indexed _ _ _ _ stored⟩
  | settled stored anonymous name settles recorded =>
      have visits := Visits.settled stored anonymous name settles recorded
      obtain ⟨_, canonical, -, found, binds⟩ :=
        visits.binds_index stored (typeSymbol?_eq_ok_iff.mpr ⟨_, anonymous⟩)
      intro rank parent companion symbol again
      obtain ⟨isDomain, -⟩ := node_unique found again
      cases isDomain
      exact (bound.companionSteps visits.companionSteps).namedIndex_of_bindsIndex binds

end Program

/-! ## The walk that settles companions -/

def CompanionWalk.Attends (before after : Walker CompanionWalk) : Prop :=
  after.own.current = before.own.current ∧ before.program.VisitSteps after.program

instance : Std.Refl CompanionWalk.Attends where
  refl _ := ⟨rfl, .refl⟩

instance : IsTrans (Walker CompanionWalk) CompanionWalk.Attends where
  trans _ _ _ first second := ⟨second.1.trans first.1, first.2.trans second.2⟩

theorem attends_visitType (type : TypeRef) (before : Walker CompanionWalk) :
    Leads CompanionWalk.Attends (indexCompanions.visitType type) before := by
  rintro after (⟨answer, ran⟩ | ⟨failure, ran⟩)
  · cases current : before.own.current with
    | none =>
        rw [visitType_of_idle current ran]
        exact refl before
    | some here =>
        obtain ⟨visits, still⟩ := visits_of_visitType current ran
        exact ⟨still.trans current.symm, .single ⟨_, _, visits⟩⟩
  · rw [visitType_eq_failed ran]
    exact refl before

theorem takes_visits : indexCompanions.Takes Program.VisitStep where
  enter _ := (Walk.takes_ask _).bind fun _ => Walk.takes_update _
  visit type before after ends := (attends_visitType type before after ends).2
  leave _ := show (CompanionWalk.setCurrent none).Takes _ from Walk.takes_update _

section

variable {before after : Walker CompanionWalk} {answer : Unit}

theorem shape_of_settleCompanion {type companion : TypeRef} {before after : Session Unit}
    (ran : Canon.settleCompanion type companion before = .ok answer after) :
    before.program.shape companion = .ok .index := by
  simp only [Canon.settleCompanion, bind_eq_ok_iff, Canon.ask_eq_ok_iff] at ran
  obtain ⟨shape, _, ⟨shaped, rfl⟩, holder, _, ⟨-, rfl⟩, ran⟩ := ran
  split at ran
  · exact shaped
  · exact shaped
  · simp [Canon.fail_eq_ok_iff] at ran

theorem fitted_of_visitType (bound : before.program.IndexNamesBound) {statement : StatementRef}
    {scope : ScopeRef} {type : TypeRef} (here : before.own.current = some (statement, scope))
    (ran : indexCompanions.visitType type before = .ok answer after) :
    after.program.Fitted type := by
  refine (visits_of_visitType here ran).1.fitted bound fun rank parent companion symbol stored => ?_
  simp only [indexCompanions, bind_eq_ok_iff, get_eq_ok_iff] at ran
  obtain ⟨_, before, ⟨rfl, rfl⟩, ran⟩ := ran
  simp only [here, bind_eq_ok_iff, Walk.ask_eq_ok_iff,
    Program.form_eq_ok_iff.mpr ⟨symbol, stored⟩] at ran
  obtain ⟨_, _, ⟨isDomain, rfl⟩, ran⟩ := ran
  cases Except.ok.inj isDomain
  simp only [CompanionWalk.within, Walk.focus_eq_ok_iff, Canon.within_eq_ok_iff] at ran
  obtain ⟨_, ⟨_, settling, rfl⟩, rfl⟩ := ran
  exact shape_of_settleCompanion settling

theorem fittedWithin_of_walkTypeWithin (bound : before.program.IndexNamesBound)
    {here : StatementRef × ScopeRef} (current : before.own.current = some here) {depth : Nat}
    {type : TypeRef} (ran : indexCompanions.walkTypeWithin depth type before = .ok answer after) :
    after.program.FittedWithin depth type := by
  have walks := Traversal.leads_walkTypeWithin attends_visitType
  induction depth generalizing before after type answer with
  | zero => simp [Traversal.walkTypeWithin, Walk.fault_eq_ok_iff] at ran
  | succ depth induction =>
      simp only [Traversal.walkTypeWithin, bind_eq_ok_iff, Walk.ask_eq_ok_iff] at ran
      obtain ⟨_, visited, visiting, form, _, ⟨found, rfl⟩, walked⟩ := ran
      have fitted := fitted_of_visitType bound current visiting
      obtain ⟨same, steps⟩ := attends_visitType _ _ _ (.inl ⟨_, visiting⟩)
      obtain ⟨-, rest⟩ := leads_forM (walks depth) _ _ _ (.inl ⟨_, walked⟩)
      obtain ⟨symbol, stored⟩ := Program.form_eq_ok_iff.mp found
      obtain ⟨holder, kept⟩ := rest.form_kept stored fitted.companioned
      refine ⟨fitted.kept rest, form, Program.form_eq_ok_iff.mpr ⟨holder, kept⟩, ?_⟩
      intro part member
      obtain ⟨front, back, split⟩ := List.append_of_mem member
      rw [split, forM_append_cons_eq_ok_iff] at walked
      obtain ⟨middle, inner, walkedFront, within, walkedBack⟩ := walked
      obtain ⟨still, toMiddle⟩ := leads_forM (walks depth) _ _ _ (.inl ⟨_, walkedFront⟩)
      obtain ⟨-, toEnd⟩ := leads_forM (walks depth) _ _ _ (.inl ⟨_, walkedBack⟩)
      have toInner : before.program.VisitSteps middle.program := steps.trans toMiddle
      have boundMiddle := bound.companionSteps toInner.companionSteps
      exact (induction boundMiddle (still.trans (same.trans current)) within).kept toEnd

theorem program_of_enterStatement {ref : StatementRef}
    (entered : indexCompanions.enterStatement ref before = .ok answer after) :
    after.program = before.program := by
  simp only [indexCompanions, bind_eq_ok_iff, Walk.ask_eq_ok_iff, CompanionWalk.setCurrent,
    Walk.update, modify_eq_ok_iff] at entered
  obtain ⟨scope, _, ⟨-, rfl⟩, rfl⟩ := entered
  rfl

theorem current_of_enterStatement {ref : StatementRef} {statement : Statement}
    {declared : SymbolRef} (entered : indexCompanions.enterStatement ref before = .ok answer after)
    (found : after.program.statement ref = .ok statement)
    (declares : statement.declared? = some declared) :
    ∃ scope, after.own.current = some (ref, scope) := by
  simp only [indexCompanions, bind_eq_ok_iff, Walk.ask_eq_ok_iff, CompanionWalk.setCurrent,
    Walk.update, modify_eq_ok_iff] at entered
  obtain ⟨scope, _, ⟨asked, rfl⟩, rfl⟩ := entered
  obtain ⟨_, -, rfl⟩ := statementScope?_eq_ok found asked declared declares
  exact ⟨_, rfl⟩

theorem fittedWithin_of_walkStatements (bound : before.program.IndexNamesBound)
    {order : List StatementRef}
    (ran : order.forM indexCompanions.walkStatement before = .ok ⟨⟩ after) {ref : StatementRef}
    (member : ref ∈ order) {statement : Statement} {declared : SymbolRef}
    (found : before.program.statement ref = .ok statement)
    (declares : statement.declared? = some declared) :
    ∃ symbol, after.program.symbols.get? declared = some symbol ∧
      after.program.FittedWithin (companionNesting before.program) symbol.type := by
  obtain ⟨front, back, rfl⟩ := List.append_of_mem member
  obtain ⟨middle, done, walked, walking, rest⟩ := forM_append_cons_eq_ok_iff.mp ran
  have toMiddle : before.program.VisitSteps middle.program :=
    Walk.takes_forM takes_visits.walkStatement _ _ _ (.inl ⟨(), walked⟩)
  have toEnd : done.program.VisitSteps after.program :=
    Walk.takes_forM takes_visits.walkStatement _ _ _ (.inl ⟨(), rest⟩)
  simp only [Traversal.walkStatement, bind_eq_ok_iff, Walk.ask_eq_ok_iff] at walking
  obtain ⟨_, _, entered, _, inner, ⟨foundInner, rfl⟩, walking⟩ := walking
  have unchanged : inner.program = middle.program := program_of_enterStatement entered
  have again : inner.program.statement ref = .ok statement := by
    rw [unchanged]
    exact toMiddle.enriches.advances.statement found
  cases Except.ok.inj (foundInner.symm.trans again)
  obtain ⟨scope, current⟩ := current_of_enterStatement entered again declares
  rw [← unchanged] at toMiddle
  simp only [declares, bind_eq_ok_iff, Walk.ask_eq_ok_iff, Program.symbol_eq_ok_iff,
    Traversal.walkType, get_eq_ok_iff] at walking
  obtain ⟨symbol, _, ⟨stored, rfl⟩, _, last, ⟨_, _, ⟨rfl, rfl⟩, walking⟩, leaving⟩ := walking
  have fitted :=
    fittedWithin_of_walkTypeWithin (bound.companionSteps toMiddle.companionSteps) current walking
  have toLast := takes_visits.walkTypeWithin _ _ _ _ (.inl ⟨(), walking⟩)
  have toAfter := (takes_visits.leave ref _ _ (.inl ⟨(), leaving⟩)).trans toEnd
  have size := toMiddle.companionSteps.retains.size
  rw [companionNesting, ← size]
  exact ⟨symbol, (Program.VisitSteps.companionSteps (toLast.trans toAfter)).symbol_kept stored,
    fitted.kept toAfter⟩

/-- A companion that has no declaration when the walk comes to its domain makes way for what the
name of its domain is bound to in the end. -/
theorem bindsIndex_of_meets (bound : before.program.IndexNamesBound)
    (ran : indexCompanions.walkProgram before = .ok () after) {ref : StatementRef}
    {met : TypeRef} {state : Walker CompanionWalk}
    (meets : indexCompanions.Meets before ref met state) {rank : Nat} {parent : Option TypeRef}
    {companion : TypeRef} {symbol : Option SymbolRef}
    (stored : state.program.types.get? met =
      some { form := .domain rank parent (some companion), symbol })
    (anonymous : state.program.typeSymbol? companion = .ok none) :
    ∃ text canonical holder, after.program.typeName? met = .ok (some text) ∧
      after.program.types.get? met =
        some { form := .domain rank parent (some canonical), symbol := holder } ∧
      after.program.BindsIndex text canonical := by
  obtain ⟨middle, inner, visited, statement, declared, toMiddle, entered, found, declares, toState,
    visiting, toEnd⟩ := meets.leads takes_visits.leads attends_visitType ran
  have toEnd : visited.program.VisitSteps after.program := toEnd
  obtain ⟨scope, current⟩ := current_of_enterStatement entered found declares
  obtain ⟨same, steps⟩ := toState
  rw [program_of_enterStatement entered] at steps
  have toState : before.program.VisitSteps state.program := toMiddle.trans steps
  have here := same.trans current
  have boundState := bound.companionSteps toState.companionSteps
  have fitted := fitted_of_visitType boundState here visiting
  obtain ⟨visits, -⟩ := visits_of_visitType here visiting
  obtain ⟨text, canonical, named, recorded, binds⟩ := visits.binds_index stored anonymous
  obtain ⟨holder, kept⟩ := toEnd.form_kept recorded fitted.companioned
  refine ⟨text, canonical, holder, ?_, kept, binds.kept toEnd.companionSteps⟩
  exact toEnd.companionSteps.retains.typeName? (visits.companionSteps.retains.typeName? named)

end

end StructuralTypes
