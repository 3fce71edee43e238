import StructuralTypes.Proofs.Operations
import StructuralTypes.Proofs.Repetition

/-! Where the index types that settling companions declares come to stand. Each is declared right
before the statement that it was declared for, whose type has a domain of that name in it, and
no two are declared for domains of one name. -/

namespace StructuralTypes

/-! ## Lists with additions -/

/-- `order` with the statements `added` for each right before it. -/
def withAdded (added : StatementRef → List StatementRef) (order : List StatementRef) :
    List StatementRef :=
  order.flatMap fun ref => added ref ++ [ref]

def addFor (added : StatementRef → List StatementRef) (anchor new : StatementRef) :
    StatementRef → List StatementRef :=
  fun ref => if ref = anchor then added ref ++ [new] else added ref

section

variable {added : StatementRef → List StatementRef} {anchor new ref : StatementRef}
  {order : List StatementRef}

theorem mem_addFor_iff {other : StatementRef} :
    ref ∈ addFor added anchor new other ↔ ref ∈ added other ∨ other = anchor ∧ ref = new := by
  unfold addFor
  split <;> simp_all

theorem mem_withAdded (member : ref ∈ order) : ref ∈ withAdded added order :=
  List.mem_flatMap.mpr ⟨ref, member, List.mem_append_right _ List.mem_cons_self⟩

theorem withAdded_addFor_of_not_mem (missing : anchor ∉ order) :
    withAdded (addFor added anchor new) order = withAdded added order := by
  refine List.flatMap_congr fun ref member => ?_
  rw [addFor, if_neg]
  rintro rfl
  exact missing member

theorem insertBefore_withAdded (unique : (withAdded added order).Nodup)
    (member : anchor ∈ order) :
    insertBefore anchor new (withAdded added order) =
      withAdded (addFor added anchor new) order := by
  obtain ⟨front, back, rfl⟩ := List.append_of_mem member
  have split : withAdded added (front ++ anchor :: back) =
      (withAdded added front ++ added anchor) ++ anchor :: withAdded added back := by
    simp [withAdded]
  rw [split] at unique ⊢
  obtain ⟨notFront, notBack⟩ := not_mem_of_nodup unique
  rw [insertBefore_append_cons _ _ notFront]
  have missingFront : anchor ∉ front := fun inFront =>
    notFront (List.mem_append_left _ (mem_withAdded inFront))
  have missingBack : anchor ∉ back := fun inBack => notBack (mem_withAdded inBack)
  have splitAgain : withAdded (addFor added anchor new) (front ++ anchor :: back) =
      (withAdded (addFor added anchor new) front ++ addFor added anchor new anchor) ++
        anchor :: withAdded (addFor added anchor new) back := by
    simp [withAdded]
  rw [splitAgain, withAdded_addFor_of_not_mem missingFront,
    withAdded_addFor_of_not_mem missingBack, addFor, if_pos rfl]
  simp

end

namespace Program

variable {source program before after : Program}

/-! ## Visits -/

theorem Completes.visitSteps {statement : StatementRef} {types : List TypeRef}
    (completes : Completes statement before types after) : VisitSteps before after := by
  induction completes with
  | nil => exact .refl
  | cons visits _ _ _ inner later => exact (inner.trans later).head ⟨_, _, visits⟩

theorem CompanionStep.orderly (step : CompanionStep before after)
    (orderly : before.layout.Orderly) : after.layout.Orderly := by
  cases step with
  | intern | recompanion => exact orderly
  | introduce _ _ _ introduces => exact (orderly.addStatement _).of_position introduces.layout

theorem CompanionSteps.orderly (steps : CompanionSteps before after)
    (orderly : before.layout.Orderly) : after.layout.Orderly := by
  induction steps with
  | refl => exact orderly
  | tail _ step induction => exact step.orderly induction

/-! ## Declarations of index types -/

def DeclaresIndex (program : Program) (new : StatementRef) (text : String) : Prop :=
  ∃ declared symbol subject, program.statement new = .ok (.synthesizedType declared) ∧
    program.symbols.get? declared = some symbol ∧ symbol.definition = .statement new ∧
    program.names.find? (CanonicalKey.indexOfDomain text).name = some symbol.name ∧
    program.Binds sharedScope symbol.name declared ∧
    program.types.get? symbol.type = some { form := .index subject, symbol := some declared }

def DeclaresWith (program : Program) (ref : StatementRef) (part : TypeRef) : Prop :=
  ∃ statement declared symbol, program.statement ref = .ok statement ∧
    statement.declared? = some declared ∧ program.symbols.get? declared = some symbol ∧
    program.Reaches symbol.type part

theorem DeclaresIndex.unique {first second : StatementRef} {text : String}
    (declares : program.DeclaresIndex first text) (again : program.DeclaresIndex second text) :
    first = second := by
  obtain ⟨declared, symbol, _, -, stored, defined, named, binds, -⟩ := declares
  obtain ⟨other, otherSymbol, _, -, otherStored, otherDefined, otherNamed, otherBinds, -⟩ := again
  rw [Option.mem_unique otherNamed named] at otherBinds
  cases binds_unique binds otherBinds
  cases Option.mem_unique stored otherStored
  exact Definition.statement.inj (defined.symm.trans otherDefined)

theorem Introduces.declaresIndex {text : String} {companion : TypeRef} {subject : ExpressionRef}
    {position : Position}
    (introduces : before.Introduces sharedScope (CanonicalKey.indexOfDomain text).name companion id
      position after)
    (anonymous : before.types.get? companion = some { form := .index subject, symbol := none }) :
    after.DeclaresIndex before.layout.statements.next text := by
  obtain ⟨body, statements⟩ := introduces.new_statement
  have placed := Arena.get?_push_next before.layout.statements
    { statement := .synthesizedType before.symbols.next, body := some body }
  rw [← statements] at placed
  have named := NameTable.find?_intern before.names (CanonicalKey.indexOfDomain text).name
  rw [← introduces.names] at named
  exact ⟨_, _, subject, Layout.statement_eq_ok_iff.mpr ⟨_, placed⟩, introduces.new_symbol, rfl,
    named, introduces.new_bound, introduces.type_same anonymous⟩

theorem DeclaresIndex.kept {new : StatementRef} {text : String}
    (declares : before.DeclaresIndex new text) (steps : CompanionSteps before after) :
    after.DeclaresIndex new text := by
  obtain ⟨declared, symbol, subject, found, stored, defined, named, binds, isIndex⟩ := declares
  have continues := steps.continues
  obtain ⟨body, placed⟩ := Layout.statement_eq_ok_iff.mp found
  obtain ⟨later, laterStored, recompanions⟩ := continues.types _ _ _ isIndex
  cases recompanions
  exact ⟨declared, symbol, subject,
    Layout.statement_eq_ok_iff.mpr ⟨body, continues.layout.statements _ _ placed⟩,
    steps.symbol_kept stored, defined, steps.find?_kept named, continues.binds _ _ _ binds,
    laterStored⟩

theorem DeclaresWith.kept {ref : StatementRef} {part : TypeRef}
    (declares : before.DeclaresWith ref part) (other : before.shape part ≠ .ok .index)
    (steps : VisitSteps before after) : after.DeclaresWith ref part := by
  induction steps with
  | refl => exact declares
  | @tail middle after steps step induction =>
      obtain ⟨statement, declared, symbol, found, declares, stored, reaches⟩ := induction
      obtain ⟨_, _, visits⟩ := step
      have otherMiddle : middle.shape part ≠ .ok .index := fun isIndex =>
        other ((VisitSteps.companionSteps steps).retains.shape_before isIndex)
      exact ⟨statement, declared, symbol, visits.enriches.advances.statement found, declares,
        visits.symbols stored, visits.reaches reaches otherMiddle⟩

theorem Reaches.part {type whole part : TypeRef} {form : TypeForm} {symbol : Option SymbolRef}
    (reaches : program.Reaches type whole)
    (stored : program.types.get? whole = some { form, symbol }) (member : part ∈ form.children) :
    program.Reaches type part := by
  induction reaches with
  | self => exact .child stored member .self
  | child found inner _ induction => exact .child found inner (induction stored)

theorem DeclaresWith.child {ref : StatementRef} {type child : TypeRef} {form : TypeForm}
    {symbol : Option SymbolRef} (declares : program.DeclaresWith ref type)
    (stored : program.types.get? type = some { form, symbol }) (member : child ∈ form.children) :
    program.DeclaresWith ref child := by
  obtain ⟨statement, declared, entry, found, declares, entryStored, reaches⟩ := declares
  exact ⟨statement, declared, entry, found, declares, entryStored, reaches.part stored member⟩

/-! ## What is added -/

/-- `current` is `source` with the statements `added` for each of its statements right before it.
Each of them declares an index type for a domain in what the statement declares something with. -/
structure Supplies (source current : Program) (added : StatementRef → List StatementRef) :
    Prop where
  orders : ∀ body content, source.layout.bodies.get? body = some content →
    ∃ later, current.layout.bodies.get? body = some later ∧
      later.order = withAdded added content.order
  sources : ∀ ref placed, current.layout.statements.get? ref = some placed →
    source.layout.statements.get? ref = none →
    ∃ body anchor, source.layout.Lists body anchor ∧ ref ∈ added anchor
  reasons : ∀ anchor, ∀ new ∈ added anchor, source.layout.statements.get? new = none ∧
    ∃ text domain, current.DeclaresIndex new text ∧ current.DeclaresWith anchor domain ∧
      current.shape domain = .ok .domain ∧ current.typeName? domain = .ok (some text)

namespace Supplies

variable {added : StatementRef → List StatementRef}

theorem refl (source : Program) : Supplies source source fun _ => [] where
  orders _ content stored := ⟨content, stored, by simp [withAdded]⟩
  sources ref placed stored missing := by
    rw [missing] at stored
    contradiction
  reasons _ _ member := absurd member List.not_mem_nil

section

variable (supplies : Supplies source before added)
include supplies

theorem reasons_kept (steps : VisitSteps before after) {anchor new : StatementRef}
    (member : new ∈ added anchor) : source.layout.statements.get? new = none ∧
      ∃ text domain, after.DeclaresIndex new text ∧ after.DeclaresWith anchor domain ∧
        after.shape domain = .ok .domain ∧ after.typeName? domain = .ok (some text) := by
  obtain ⟨isNew, text, domain, declares, reached, isDomain, named⟩ :=
    supplies.reasons anchor new member
  have retains := steps.companionSteps.retains
  exact ⟨isNew, text, domain, declares.kept steps.companionSteps,
    reached.kept (by simp [isDomain]) steps, retains.shape isDomain, retains.typeName? named⟩

theorem of_layout_eq (steps : VisitSteps before after) (same : after.layout = before.layout) :
    Supplies source after added where
  orders body content stored := same ▸ supplies.orders body content stored
  sources ref placed stored := supplies.sources ref placed (same ▸ stored)
  reasons _ _ member := supplies.reasons_kept steps member

theorem insertBefore (orderly : source.layout.Orderly) (orderlyBefore : before.layout.Orderly)
    {body : BodyRef} {anchor : StatementRef} (lists : source.layout.Lists body anchor)
    {statement : Statement} {linked : Layout}
    (placed : (before.layout.addStatement statement).2.insertBefore anchor
      before.layout.statements.next = .ok linked) :
    linked.statements = before.layout.statements.push { statement, body := some body } ∧
      ∀ other content, source.layout.bodies.get? other = some content →
        ∃ later, linked.bodies.get? other = some later ∧
          later.order = withAdded (addFor added anchor before.layout.statements.next)
            content.order := by
  obtain ⟨content, stored, member⟩ := lists
  obtain ⟨middle, middleStored, ordered⟩ := supplies.orders body content stored
  have listsMiddle : before.layout.Lists body anchor :=
    ⟨middle, middleStored, ordered ▸ mem_withAdded member⟩
  rw [Layout.insertBefore, Except.bind_eq_ok_iff] at placed
  obtain ⟨holder, anchored, placed⟩ := placed
  have holds := ((orderlyBefore.addStatement statement).held anchor holder).mp
    (Layout.anchorBody_eq_ok_iff.mp anchored)
  cases orderlyBefore.lists_unique listsMiddle holds
  obtain ⟨statements, found, others⟩ := Layout.link_addStatement placed middleStored
  refine ⟨statements, fun other otherContent otherStored => ?_⟩
  by_cases same : other = body
  · subst same
    cases Option.mem_unique stored otherStored
    refine ⟨_, found, ?_⟩
    have unique := orderlyBefore.unique other middle middleStored
    rw [ordered] at unique
    dsimp only
    rw [ordered, insertBefore_withAdded unique member]
  · obtain ⟨later, laterStored, laterOrdered⟩ := supplies.orders other otherContent otherStored
    refine ⟨later, (others other same).trans laterStored, laterOrdered.trans ?_⟩
    refine (withAdded_addFor_of_not_mem fun inOther => same ?_).symm
    exact orderly.lists_unique ⟨_, otherStored, inOther⟩ ⟨_, stored, member⟩

theorem visit (orderly : source.layout.Orderly) (steps : VisitSteps source before)
    (orderlyBefore : before.layout.Orderly) {body : BodyRef} {ref : StatementRef}
    (lists : source.layout.Lists body ref) {type : TypeRef}
    (declares : before.shape type ≠ .ok .index → before.DeclaresWith ref type)
    (visits : before.Visits ref type after) : ∃ more, Supplies source after more := by
  have step : VisitSteps before after := .single ⟨_, _, visits⟩
  cases visits with
  | passed => exact ⟨added, supplies⟩
  | settled stored anonymous name settles recorded =>
      cases settles with
      | reused => exact ⟨added, supplies.of_layout_eq step rfl⟩
      | created _ _ located introduces =>
          cases located
          obtain ⟨statements, orders⟩ :=
            supplies.insertBefore orderly orderlyBefore lists introduces.layout
          -- Only a companion that gets a declaration of its own adds a statement.
          refine ⟨addFor added ref before.layout.statements.next, orders, ?_, ?_⟩
          · intro other placed found missing
            rw [statements] at found
            rcases Arena.eq_next_or_get?_of_push found with ⟨rfl, -⟩ | old
            · exact ⟨body, ref, lists, mem_addFor_iff.mpr (.inr ⟨rfl, rfl⟩)⟩
            · obtain ⟨holder, anchor, listed, member⟩ := supplies.sources other placed old missing
              exact ⟨holder, anchor, listed, mem_addFor_iff.mpr (.inl member)⟩
          · intro anchor new member
            rcases mem_addFor_iff.mp member with old | ⟨rfl, rfl⟩
            · exact supplies.reasons_kept step old
            · have isDomain : before.shape type = .ok .domain :=
                shape_eq_ok_iff.mpr ⟨_, stored, rfl⟩
              have different := ne_of_shape_ne stored anonymous (by simp [TypeForm.shape])
              have retains := step.companionSteps.retains
              refine ⟨steps.companionSteps.continues.next_statement, _, type, ?_,
                (declares (by simp [isDomain])).kept (by simp [isDomain]) step,
                retains.shape isDomain, retains.typeName? name⟩
              have storedMiddle := (introduces.type_other different).trans stored
              exact (introduces.declaresIndex anonymous).kept
                (.single (.recompanion storedMiddle recorded (.inl rfl)))

theorem completes (orderly : source.layout.Orderly) (steps : VisitSteps source before)
    {body : BodyRef} {ref : StatementRef} (lists : source.layout.Lists body ref)
    {types : List TypeRef}
    (declares : ∀ type ∈ types, before.shape type ≠ .ok .index → before.DeclaresWith ref type)
    (completes : Completes ref before types after) : ∃ more, Supplies source after more := by
  induction completes generalizing added with
  | nil => exact ⟨added, supplies⟩
  | @cons before visited middle after type rest form symbol visits stored inner later
      inductionInner inductionLater =>
      obtain ⟨here, others⟩ := List.forall_mem_cons.mp declares
      have orderlyBefore := steps.companionSteps.orderly orderly
      obtain ⟨_, suppliesVisited⟩ := supplies.visit orderly steps orderlyBefore lists here visits
      have toVisited : VisitSteps before visited := .single ⟨_, _, visits⟩
      have toMiddle : VisitSteps before middle := toVisited.trans inner.visitSteps
      obtain ⟨_, suppliesMiddle⟩ :=
        inductionInner suppliesVisited (steps.trans toVisited) fun child member _ => by
          have isWhole : before.shape type ≠ .ok .index := fun isIndex =>
            not_partOf_of_index (toVisited.companionSteps.retains.shape isIndex)
              ⟨_, stored, member⟩
          exact ((here isWhole).kept isWhole toVisited).child stored member
      refine inductionLater suppliesMiddle (steps.trans toMiddle) fun other member isOther => ?_
      have wasOther : before.shape other ≠ .ok .index := fun isIndex =>
        isOther (toMiddle.companionSteps.retains.shape isIndex)
      exact (others other member wasOther).kept wasOther toMiddle

theorem completesAll (orderly : source.layout.Orderly) (steps : VisitSteps source before)
    {order : List StatementRef} (listed : ∀ ref ∈ order, ∃ body, source.layout.Lists body ref)
    (completes : CompletesAll before order after) : ∃ more, Supplies source after more := by
  induction completes generalizing added with
  | nil => exact ⟨added, supplies⟩
  | declaration found declares stored completes _ induction =>
      obtain ⟨⟨body, lists⟩, others⟩ := List.forall_mem_cons.mp listed
      obtain ⟨_, suppliesMiddle⟩ := supplies.completes orderly steps lists
        (fun type member _ => by
          cases List.mem_singleton.mp member
          exact ⟨_, _, _, found, declares, stored, .self⟩) completes
      exact induction suppliesMiddle (steps.trans completes.visitSteps) others
  | other _ _ _ induction =>
      exact induction supplies steps (List.forall_mem_cons.mp listed).2

end

end Supplies

end Program

/-! ## What a run leaves behind -/

section

variable {source : Program} {tally : Tally} {final : Walker CompanionWalk}
  (bound : source.IndexNamesBound)
  (ran : indexCompanions.walkProgram ⟨source, .start tally⟩ = .ok () final)
include ran

theorem completesAll_of_walkProgram : ∃ order, source.preorder = .ok order ∧
    order.forM indexCompanions.walkStatement ⟨source, .start tally⟩ = .ok ⟨⟩ final ∧
    source.CompletesAll order final.program := by
  simp only [Traversal.walkProgram, bind_eq_ok_iff, Walk.ask_eq_ok_iff] at ran
  obtain ⟨order, _, ⟨listed, rfl⟩, ran⟩ := ran
  exact ⟨order, listed, ran, completesAll_of_forM ran⟩

include bound

/-- All that can be read of the program then declares something fitted, also what was added. -/
theorem fittedWithin_of_walkProgram : ∃ order, final.program.preorder = .ok order ∧
    ∀ ref ∈ order, ∃ statement, final.program.statement ref = .ok statement ∧
      ∀ declared, statement.declared? = some declared →
        ∃ symbol, final.program.symbols.get? declared = some symbol ∧
          final.program.FittedWithin (companionNesting final.program) symbol.type := by
  obtain ⟨read, listed, walked, completes⟩ := completesAll_of_walkProgram ran
  have steps := completes.companionSteps
  have retains := steps.retains
  obtain ⟨order, listedFinal, sources⟩ := retains.preorder listed
  refine ⟨order, listedFinal, fun ref member => ?_⟩
  obtain ⟨⟨placed, stored⟩, -⟩ := Layout.reachable_of_mem_preorder listedFinal member
  have found : final.program.statement ref = .ok placed.statement :=
    Layout.statement_eq_ok_iff.mpr ⟨placed.body, stored⟩
  refine ⟨placed.statement, found, fun declared declares => ?_⟩
  rcases steps.statement_cases stored with old | ⟨other, symbol, isNew, otherStored, isIndex⟩
  · have size : companionNesting final.program = companionNesting source := by
      rw [companionNesting, companionNesting, retains.size]
    rw [size]
    have foundSource : source.statement ref = .ok placed.statement :=
      Layout.statement_eq_ok_iff.mpr ⟨placed.body, old⟩
    exact fittedWithin_of_walkStatements bound walked (sources ref member placed old) foundSource
      declares
  · rw [isNew] at declares
    cases declares
    exact ⟨symbol, otherStored, Program.fittedWithin_of_index isIndex _⟩

end

/-- Settling companions reaches every domain. After a run that has ended well all domains in what
statements declare have no companion or one that is a declared index type; a companion that had no
declaration when the walk came to its domain has made way for what the name of the domain is bound
to; what was added stands right before statements with domains that it was added for, once for each
name; and a second run changes and counts nothing. -/
theorem indexCompanions_reaches_domains {source : Program} {tally : Tally}
    {final : Walker CompanionWalk} (orderly : source.layout.Orderly)
    (bound : source.IndexNamesBound)
    (ran : indexCompanions.walkProgram ⟨source, .start tally⟩ = .ok () final) :
    (∃ order, final.program.preorder = .ok order ∧
      ∀ ref ∈ order, ∀ part, final.program.DeclaresWith ref part → final.program.Fitted part) ∧
    (∀ ref met state, indexCompanions.Meets ⟨source, .start tally⟩ ref met state →
      ∀ rank parent companion symbol, state.program.types.get? met =
          some { form := .domain rank parent (some companion), symbol } →
        state.program.typeSymbol? companion = .ok none →
        ∃ text canonical holder, final.program.typeName? met = .ok (some text) ∧
          final.program.types.get? met =
            some { form := .domain rank parent (some canonical), symbol := holder } ∧
          final.program.BindsIndex text canonical) ∧
    (∃ added, source.Supplies final.program added) ∧ final.program.layout.Orderly ∧
    (∀ first second text, final.program.DeclaresIndex first text →
      final.program.DeclaresIndex second text → first = second) ∧
    ∀ again, indexCompanions.walkProgram ⟨final.program, .start again⟩ =
      .ok () ⟨final.program, .start again⟩ := by
  obtain ⟨order, listed, fitted⟩ := fittedWithin_of_walkProgram bound ran
  obtain ⟨read, listedSource, -, completes⟩ := completesAll_of_walkProgram ran
  refine ⟨⟨order, listed, ?_⟩, ?_, ?_, completes.companionSteps.orderly orderly,
    fun _ _ _ => Program.DeclaresIndex.unique, fun again => ?_⟩
  · intro ref member part declares
    obtain ⟨statement, declared, symbol, found, declares, stored, reaches⟩ := declares
    obtain ⟨_, foundAgain, declared⟩ := fitted ref member
    cases Except.ok.inj (found.symm.trans foundAgain)
    obtain ⟨_, storedAgain, within⟩ := declared _ declares
    cases Option.mem_unique stored storedAgain
    exact within.fitted reaches
  · intro ref met state meets rank parent companion symbol stored anonymous
    exact bindsIndex_of_meets bound ran meets stored anonymous
  · have supplies := Program.Supplies.refl source
    refine supplies.completesAll orderly .refl (fun ref member => ?_) completes
    obtain ⟨-, body, content, -, lists⟩ := Layout.reachable_of_mem_preorder listedSource member
    exact ⟨body, content, lists⟩
  · have passed : ∀ ref ∈ order, indexCompanions.walkStatement ref
        ⟨final.program, CompanionWalk.start again⟩ =
          .ok () ⟨final.program, CompanionWalk.start again⟩ := by
      intro ref member
      obtain ⟨statement, found, declared⟩ := fitted ref member
      refine walkStatement_rests_of_walked _ found fun other declares => ?_
      obtain ⟨symbol, stored, within⟩ := declared other declares
      exact ⟨symbol, stored, walkTypeWithin_rests_of_fitted rfl within⟩
    have asked : (Walker.mk final.program (CompanionWalk.start again)).program.preorder =
        .ok order := listed
    exact (bind_of_ok (Walk.ask_of_ok asked)).trans (forM_rests passed)

def derivedDomainCalls : List Call :=
  [.addModule, .addExpression (.literal 1), .addType (.index ⟨0⟩),
    .addType (.domain 1 none (some ⟨7⟩)), .declareType ⟨1⟩ "D" ⟨8⟩, .addExpression (.literal 2),
    .addType (.index ⟨1⟩), .declareType ⟨0⟩ "_index_E" ⟨9⟩, .addExpression (.literal 3),
    .addType (.index ⟨2⟩), .addType (.domain 1 (some ⟨8⟩) (some ⟨10⟩)), .declareType ⟨1⟩ "E" ⟨11⟩]

/-- When the walk comes to the second domain its companion has no declaration. It makes way for the
index type that was declared by hand. -/
theorem indexCompanions_reaches_derived_domain :
    ∃ source final, layOut derivedDomainCalls = .ok source ∧
      indexCompanions.walkProgram ⟨source, .start {}⟩ = .ok () final ∧
      ∃ state, indexCompanions.Meets ⟨source, .start {}⟩ ⟨2⟩ ⟨11⟩ state ∧
        state.program.typeSymbol? ⟨10⟩ = .ok none ∧
        ∃ canonical holder, final.program.types.get? ⟨11⟩ =
            some { form := .domain 1 (some ⟨8⟩) (some canonical), symbol := holder } ∧
          final.program.BindsIndex "E" canonical := by
  obtain ⟨source, isBuilt, bound, listed, ⟨final, isFinal, named⟩, middle, isMiddle, inner, isInner,
      ⟨placed, found, declares⟩, ⟨symbol, symbolStored, isType⟩, stored, anonymous⟩ :
    ∃ source ∈ (layOut derivedDomainCalls).toOption, source.IndexNamesBound ∧
      source.preorder.toOption = some ([⟨1⟩, ⟨0⟩] ++ ⟨2⟩ :: []) ∧
      (∃ final ∈ finished? (indexCompanions.walkProgram ⟨source, .start {}⟩),
        (final.program.typeName? ⟨11⟩).toOption = some (some "E")) ∧
      ∃ middle ∈ finished? ([⟨1⟩, ⟨0⟩].forM indexCompanions.walkStatement ⟨source, .start {}⟩),
      ∃ inner ∈ finished? (indexCompanions.enterStatement ⟨2⟩ middle),
        (∃ placed ∈ inner.program.layout.statements.get? ⟨2⟩,
          placed.statement.declared? = some ⟨9⟩) ∧
        (∃ symbol ∈ inner.program.symbols.get? ⟨9⟩, symbol.type = ⟨11⟩) ∧
        inner.program.types.get? ⟨11⟩ =
          some { form := .domain 1 (some ⟨8⟩) (some ⟨10⟩), symbol := some ⟨9⟩ } ∧
        inner.program.types.get? ⟨10⟩ = some { form := .index ⟨2⟩, symbol := none } := by
    decide +kernel
  have built := Except.toOption_eq_some_iff.mp isBuilt
  have ran := finished?_eq_some_iff.mp isFinal
  have orderly := (Program.forested_of_history (Program.history_of_layOut built)).orderly
  have unnamed := Program.typeSymbol?_eq_ok_iff.mpr ⟨_, anonymous⟩
  obtain ⟨⟨order, isOrder, fitted⟩, settled, -, -, -⟩ :=
    indexCompanions_reaches_domains orderly bound ran
  have meets : indexCompanions.Meets ⟨source, .start {}⟩ ⟨2⟩ ⟨11⟩ inner := by
    refine .intro (Except.toOption_eq_some_iff.mp listed) (finished?_eq_some_iff.mp isMiddle)
      (finished?_eq_some_iff.mp isInner) (Layout.statement_eq_ok_iff.mpr ⟨placed.body, found⟩)
      declares (Program.symbol_eq_ok_iff.mpr symbolStored) ?_
    rw [isType]
    exact .self
  obtain ⟨text, canonical, holder, isText, isSettled, binds⟩ :=
    settled _ _ _ meets _ _ _ _ stored unnamed
  cases isText.symm.trans (Except.toOption_eq_some_iff.mp named)
  exact ⟨source, final, built, ran, inner, meets, unnamed, canonical, holder, isSettled, binds⟩

end StructuralTypes
