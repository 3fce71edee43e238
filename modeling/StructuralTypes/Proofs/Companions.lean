import StructuralTypes.Proofs.Provenance

/-! Which companion a domain ends with. Domains of one rank settle on one of them, whose
companion is the only one that is kept. If that domain has none, the companions of the others
are lost. -/

namespace StructuralTypes

namespace TypeForm

/-- `change` makes `companion` a part of no form, and takes it from no domain. -/
structure Spares (companion : TypeRef) (change : TypeForm → TypeForm) : Prop where
  children : ∀ form, companion ∈ (change form).children → companion ∈ form.children
  slot : ∀ rank parent, ∃ explicit,
    change (.domain rank parent (some companion)) = .domain explicit parent (some companion)

variable {companion other : TypeRef}

theorem spares_id (companion : TypeRef) : Spares companion id where
  children _ member := member
  slot rank _ := ⟨rank, rfl⟩

theorem spares_withRank (companion : TypeRef) (rank : Nat) :
    Spares companion (·.withRank rank) where
  children form member := by
    cases form <;> exact member
  slot _ _ := ⟨rank, rfl⟩

theorem spares_withElement (different : other ≠ companion) :
    Spares companion (·.withElement other) where
  children form member := by
    cases form with
    | array | sequence =>
        rcases List.mem_cons.mp member with same | later
        · exact absurd same.symm different
        · exact List.mem_cons_of_mem _ later
    | _ => exact member
  slot rank _ := ⟨rank, rfl⟩

theorem spares_withDomain (different : other ≠ companion) :
    Spares companion (·.withDomain other) where
  children form member := by
    cases form with
    | array =>
        rcases List.mem_cons.mp member with isElement | isDomain
        · exact isElement ▸ List.mem_cons_self
        · exact absurd (List.mem_singleton.mp isDomain).symm different
    | _ => exact member
  slot rank _ := ⟨rank, rfl⟩

end TypeForm

namespace Program

variable {source before middle after : Program} {domain companion : TypeRef}

/-! ## Companions of one domain -/

/-- `companion` is an index type without a declaration that nothing but `domain` refers to. -/
structure Owns (program : Program) (domain companion : TypeRef) : Prop where
  slot : ∃ rank parent symbol, program.types.get? domain =
    some { form := .domain rank parent (some companion), symbol }
  waiting : ∃ subject, program.types.get? companion =
    some { form := .index subject, symbol := none }
  unused : ∀ ref symbol, program.symbols.get? ref = some symbol → symbol.type ≠ companion
  only : ∀ type form symbol, program.types.get? type = some { form, symbol } →
    companion ∈ form.children → type = domain

namespace Owns

variable (owns : before.Owns domain companion)
include owns

theorem child_ne {type child : TypeRef} {form : TypeForm} {symbol : Option SymbolRef}
    (different : type ≠ domain) (stored : before.types.get? type = some { form, symbol })
    (member : child ∈ form.children) : child ≠ companion := by
  intro same
  subst same
  exact different (owns.only type form symbol stored member)

theorem part_ne {type part : TypeRef} {form : TypeForm} {symbol : Option SymbolRef}
    (stored : before.types.get? type = some { form, symbol }) (shaped : form.shape ≠ .domain)
    (member : part ∈ form.children) : part ≠ companion := by
  rcases owns.slot with ⟨rank, parent, holder, slot⟩
  exact owns.child_ne (ne_of_shape_ne stored slot shaped) stored member

theorem of_modify {type : TypeRef} {change : TypeNode → TypeNode}
    (modified : before.types.modify type change = .ok after.types) (different : type ≠ companion)
    (children : ∀ node, before.types.get? type = some node →
      companion ∈ (change node).form.children → companion ∈ node.form.children)
    (slot : type = domain → ∀ rank parent symbol, ∃ explicit holder,
      change { form := .domain rank parent (some companion), symbol } =
        { form := .domain explicit parent (some companion), symbol := holder })
    (unused : ∀ ref symbol, after.symbols.get? ref = some symbol → symbol.type ≠ companion) :
    after.Owns domain companion where
  slot := by
    rcases owns.slot with ⟨rank, parent, symbol, stored⟩
    by_cases isDomain : type = domain
    · rcases slot isDomain rank parent symbol with ⟨explicit, holder, changed⟩
      refine ⟨explicit, parent, holder, ?_⟩
      rw [← changed, ← isDomain, Arena.get?_of_modify_same modified, isDomain, stored]
      rfl
    · exact ⟨rank, parent, symbol,
        (Arena.get?_of_modify_of_ne modified isDomain).trans stored⟩
  waiting := by
    rcases owns.waiting with ⟨subject, stored⟩
    exact ⟨subject, (Arena.get?_of_modify_of_ne modified different).trans stored⟩
  unused := unused
  only := by
    intro other form symbol stored member
    by_cases same : type = other
    · subst same
      rw [Arena.get?_of_modify_same modified, Option.map_eq_some_iff] at stored
      rcases stored with ⟨⟨old, holder⟩, oldStored, changed⟩
      refine owns.only type old holder oldStored (children _ oldStored ?_)
      rw [changed]
      exact member
    · rw [Arena.get?_of_modify_of_ne modified same] at stored
      exact owns.only other form symbol stored member

theorem changeForm {type : TypeRef} {change : TypeForm → TypeForm} {types : Arena .type TypeNode}
    (modified : before.types.modify type (fun node => { node with form := change node.form }) =
      .ok types) (different : type ≠ companion) (spares : TypeForm.Spares companion change) :
    Owns { before with types } domain companion := by
  refine owns.of_modify modified different
    (fun node _ => spares.children node.form) ?_ owns.unused
  intro _ rank parent symbol
  rcases spares.slot rank parent with ⟨explicit, changed⟩
  exact ⟨explicit, symbol, by rw [changed]⟩

end Owns

theorem Settles.owns (owns : before.Owns domain companion) {scope : ScopeRef} {text : String}
    {fresh canonical : TypeRef} {finish : TypeForm → TypeForm} {placement : Placement}
    (different : fresh ≠ companion) (spares : TypeForm.Spares companion finish)
    (settles : before.Settles scope text fresh finish placement canonical after) :
    canonical ≠ companion ∧ after.Owns domain companion := by
  cases settles with
  | reused _ stored =>
      exact ⟨owns.unused _ _ stored, owns.slot, owns.waiting, owns.unused, owns.only⟩
  | created _ _ _ introduces =>
      refine ⟨different, owns.of_modify introduces.types different
        (fun node _ => spares.children node.form) ?_ ?_⟩
      · intro _ rank parent symbol
        rcases spares.slot rank parent with ⟨explicit, changed⟩
        exact ⟨explicit, _, by rw [changed]⟩
      · intro ref symbol stored
        rw [introduces.symbols] at stored
        rcases Arena.eq_next_or_get?_of_push stored with ⟨-, rfl⟩ | old
        · exact different
        · exact owns.unused ref symbol old

/-! ## The walk over the variables -/

theorem Canonicalizes.owns (owns : before.Owns domain companion) {scope : ScopeRef}
    {type canonical : TypeRef} (different : type ≠ companion)
    (canonicalizes : before.Canonicalizes scope type canonical after) :
    canonical ≠ companion ∧ after.Owns domain companion := by
  induction canonicalizes with
  | kept | scalar => exact ⟨different, owns⟩
  | index _ _ settles | tuple _ _ settles =>
      exact settles.owns owns different (TypeForm.spares_id companion)
  | domain stored ranked settles =>
      have ranking := owns.changeForm ranked different (TypeForm.spares_withRank companion _)
      exact settles.owns ranking different (TypeForm.spares_id companion)
  | sequence stored _ rewritten _ _ _ settles induction =>
      have elementDifferent := owns.part_ne stored (by simp [TypeForm.shape]) List.mem_cons_self
      rcases induction elementDifferent with ⟨innerDifferent, ownsMiddle⟩
      have replacing := ownsMiddle.changeForm rewritten different
        (TypeForm.spares_withElement innerDifferent)
      exact settles.owns replacing different (TypeForm.spares_id companion)
  | array stored _ rewritten _ _ _ ranges _ settles induction =>
      have elementDifferent := owns.part_ne stored (by simp [TypeForm.shape]) List.mem_cons_self
      rcases induction elementDifferent with ⟨innerDifferent, ownsMiddle⟩
      have replacing := ownsMiddle.changeForm rewritten different
        (TypeForm.spares_withElement innerDifferent)
      rcases rangeDomain?_eq_some_iff.mp ranges with ⟨_, _, content, -, -, contentStored, rfl⟩
      exact settles.owns replacing different
        (TypeForm.spares_withDomain (replacing.unused _ _ contentStored))

theorem Adopts.owns (owns : before.Owns domain companion) {scope : ScopeRef}
    {type canonical : TypeRef} (different : type ≠ companion)
    (adopts : before.Adopts scope type canonical after) :
    canonical ≠ companion ∧ after.Owns domain companion := by
  cases adopts with
  | scalar => exact ⟨different, owns⟩
  | settled _ canonicalizes => exact canonicalizes.owns owns different
  | twice _ canonicalizes _ again =>
      rcases canonicalizes.owns owns different with ⟨firstDifferent, ownsMiddle⟩
      exact again.owns ownsMiddle firstDifferent

theorem Resolves.owns (owns : before.Owns domain companion) {ref : StatementRef}
    (resolves : before.Resolves ref after) : after.Owns domain companion := by
  cases resolves with
  | @declaration _ var symbol canonical middle symbols _ _ stored adopts changed =>
      rcases adopts.owns owns (owns.unused _ _ stored) with ⟨different, ownsMiddle⟩
      refine ⟨ownsMiddle.slot, ownsMiddle.waiting, ?_, ownsMiddle.only⟩
      intro other content found
      dsimp only at found
      by_cases same : var = other
      · subst same
        rw [Arena.get?_of_modify_same changed, Option.map_eq_some_iff] at found
        rcases found with ⟨_, -, rfl⟩
        exact different
      · rw [Arena.get?_of_modify_of_ne changed same] at found
        exact ownsMiddle.unused other content found
  | other => exact owns

theorem ResolvesAll.owns (owns : before.Owns domain companion) {order : List StatementRef}
    (resolves : before.ResolvesAll order after) : after.Owns domain companion := by
  induction resolves with
  | nil => exact owns
  | cons first _ induction => exact induction (first.owns owns)

/-! ## The walk that settles companions -/

def Provided (program : Program) (domain : TypeRef) : Prop :=
  ∃ rank parent index symbol subject ref text,
    program.types.get? domain = some { form := .domain rank parent (some index), symbol } ∧
    program.types.get? index = some { form := .index subject, symbol := some ref } ∧
    program.typeName? domain = .ok (some text) ∧
    program.typeName? index = .ok (some (CanonicalKey.indexOfDomain text).name)

/-- No scope binds a name that reads like the name of a domain or of an index type. -/
def DomainNamesFree (program : Program) : Prop :=
  ∀ text ∈ program.boundNames,
    ¬"_domain_".toList <+: text.toList ∧ ¬"_index_".toList <+: text.toList

instance (program : Program) : Decidable program.DomainNamesFree :=
  inferInstanceAs (Decidable (∀ text ∈ program.boundNames, _ ∧ _))

theorem DomainNamesFree.not_mem_domain (free : source.DomainNamesFree) (rank : Nat) :
    (CanonicalKey.domain rank).name ∉ source.boundNames := by
  intro member
  refine (free _ member).1 ?_
  rw [CanonicalKey.name_eq, String.toList_append]
  exact List.prefix_append ..

theorem DomainNamesFree.not_mem_index (free : source.DomainNamesFree) (text : String) :
    (CanonicalKey.indexOfDomain text).name ∉ source.boundNames := by
  intro member
  refine (free _ member).2 ?_
  rw [CanonicalKey.name_eq, String.toList_append]
  exact List.prefix_append ..

theorem Visits.provided_of_owns (intact : source.Intact) (free : source.DomainNamesFree)
    (sound : Sound source before) (owns : before.Owns domain companion)
    {statement : StatementRef} (visits : before.Visits statement domain after) :
    after.Provided domain := by
  have advance := visits.advance sound
  cases visits with
  | passed companioned =>
      rcases owns.slot with ⟨rank, parent, symbol, slot⟩
      rcases owns.waiting with ⟨subject, waiting⟩
      rcases companioned rank parent companion symbol slot with ⟨_, _, named⟩
      rw [waiting] at named
      simp at named
  | @settled rank parent index canonical symbol subject text middle types stored anonymous name
      settles recorded =>
      have declared := settles.declaredUnder intact sound (free.not_mem_index text)
      have soundMiddle := (settles.advance sound anonymous (.same _) (.index rfl)).sound
      rcases soundMiddle.node_of_declaredUnder declared with
        ⟨form, ref, _, canonicalStored, -, -, shaped⟩
      have different := ne_of_shape_ne stored anonymous (by simp [TypeForm.shape])
      have storedMiddle := (settles.type_other different).trans stored
      have elsewhere := ne_of_shape_ne storedMiddle canonicalStored
        (by rw [shaped]; simp [TypeForm.shape, CanonicalKey.shape])
      have canonicalAfter := (Arena.get?_of_modify_of_ne recorded elsewhere).trans canonicalStored
      have recording : Extends middle { middle with types } :=
        .changeForm storedMiddle (by exact .domain (.inl rfl) rfl) (fun _ => by exact .domain)
          (fun _ found => .inr found) recorded
      have canonicalName := recording.typeName? (soundMiddle.typeName?_of_declaredUnder declared)
      cases form with
      | index indexed =>
          refine ⟨rank, parent, canonical, symbol, indexed, ref, text, ?_, canonicalAfter,
            advance.extension.typeName? name, canonicalName⟩
          rw [Arena.get?_of_modify_same recorded, storedMiddle]
          rfl
      | _ => cases shaped

theorem Visits.owns (owns : before.Owns domain companion) {statement : StatementRef}
    {type : TypeRef} (different : type ≠ domain) (visits : before.Visits statement type after) :
    after.Owns domain companion := by
  cases visits with
  | passed => exact owns
  | @settled rank parent index canonical symbol subject text middle types stored anonymous name
      settles recorded =>
      have indexDifferent : index ≠ companion :=
        owns.child_ne different stored (List.mem_append_right _ (List.mem_singleton.mpr rfl))
      rcases settles.owns owns indexDifferent (TypeForm.spares_id companion) with
        ⟨canonicalDifferent, ownsMiddle⟩
      rcases owns.waiting with ⟨_, waiting⟩
      have typeDifferent := ne_of_shape_ne stored waiting (by simp [TypeForm.shape])
      have isOther := ne_of_shape_ne stored anonymous (by simp [TypeForm.shape])
      have storedMiddle := (settles.type_other isOther).trans stored
      refine ownsMiddle.of_modify recorded typeDifferent ?_
        (fun same => absurd same different) ownsMiddle.unused
      intro node nodeStored member
      cases Option.mem_unique storedMiddle nodeStored
      rcases List.mem_append.mp member with isParent | isCanonical
      · exact List.mem_append_left _ isParent
      · exact absurd (List.mem_singleton.mp isCanonical).symm canonicalDifferent

theorem Visits.provided (sound : Sound source before) (provided : before.Provided domain)
    {statement : StatementRef} {type : TypeRef} (visits : before.Visits statement type after) :
    after.Provided domain := by
  have extension := (visits.advance sound).extension
  rcases provided with
    ⟨rank, parent, index, symbol, subject, ref, text, stored, indexStored, name, indexName⟩
  have kept : ∃ rank parent symbol,
      after.types.get? domain = some { form := .domain rank parent (some index), symbol } := by
    cases visits with
    | passed => exact ⟨rank, parent, symbol, stored⟩
    | @settled _ _ other canonical _ _ _ middle types otherStored anonymous _ settles recorded =>
        have isOther : type ≠ domain := by
          intro same
          subst same
          rcases node_unique stored otherStored with ⟨same, -⟩
          cases same
          rw [indexStored] at anonymous
          simp at anonymous
        have different := ne_of_shape_ne stored anonymous (by simp [TypeForm.shape])
        exact ⟨rank, parent, symbol, (Arena.get?_of_modify_of_ne recorded isOther).trans
          ((settles.type_other different).trans stored)⟩
  rcases kept with ⟨explicit, above, holder, storedAfter⟩
  rcases extension.types index _ _ indexStored with ⟨later, _, indexAfter, rewrites, declared⟩
  rcases declared ref rfl with ⟨rfl, -⟩
  cases rewrites with
  | same =>
      exact ⟨explicit, above, index, holder, subject, ref, text, storedAfter, indexAfter,
        extension.typeName? name, extension.typeName? indexName⟩

theorem Completes.provided (sound : Sound source before) (provided : before.Provided domain)
    {statement : StatementRef} {types : List TypeRef}
    (completes : Completes statement before types after) : after.Provided domain := by
  induction completes with
  | nil => exact provided
  | cons visits _ inner _ innerProvided laterProvided =>
      have visiting := visits.advance sound
      have parting := inner.advance visiting.sound
      exact laterProvided parting.sound
        (innerProvided visiting.sound (visits.provided sound provided))

theorem Completes.provides (intact : source.Intact) (free : source.DomainNamesFree)
    (sound : Sound source before) (owns : before.Owns domain companion)
    {statement : StatementRef} {types : List TypeRef}
    (completes : Completes statement before types after) :
    (after.Owns domain companion ∨ after.Provided domain) ∧
      (domain ∈ types → after.Provided domain) := by
  induction completes with
  | nil => exact ⟨.inl owns, by simp⟩
  | @cons before visited middle after type rest form symbol visits _ inner later innerProvides
      laterProvides =>
      have visiting := visits.advance sound
      have parting := inner.advance visiting.sound
      by_cases isDomain : type = domain
      · subst isDomain
        have provided := later.provided parting.sound (inner.provided visiting.sound
          (visits.provided_of_owns intact free sound owns))
        exact ⟨.inr provided, fun _ => provided⟩
      · rcases (innerProvides visiting.sound (visits.owns owns isDomain)).1 with
          ownsMiddle | provided
        · rcases laterProvides parting.sound ownsMiddle with ⟨state, provides⟩
          refine ⟨state, fun member => provides ?_⟩
          exact (List.mem_cons.mp member).resolve_left (Ne.symm isDomain)
        · have provided := later.provided parting.sound provided
          exact ⟨.inr provided, fun _ => provided⟩

theorem CompletesAll.provided (sound : Sound source before) (provided : before.Provided domain)
    {order : List StatementRef} (completes : CompletesAll before order after) :
    after.Provided domain := by
  induction completes with
  | nil => exact provided
  | declaration _ _ _ completes _ induction =>
      exact induction (completes.advance sound).sound (completes.provided sound provided)
  | other _ _ _ induction => exact induction sound provided

theorem CompletesAll.provides (intact : source.Intact) (free : source.DomainNamesFree)
    (sound : Sound source before) (owns : before.Owns domain companion)
    {order : List StatementRef} (completes : CompletesAll before order after)
    {ref : StatementRef} (member : ref ∈ order) {statement : Statement} {declared : SymbolRef}
    {symbol : Symbol} (found : before.statement ref = .ok statement)
    (declares : statement.declared? = some declared)
    (stored : before.symbols.get? declared = some symbol) (isDomain : symbol.type = domain) :
    after.Provided domain := by
  induction completes with
  | nil => cases member
  | @declaration before middle after other rest otherStatement otherDeclared otherSymbol
      otherFound otherDeclares otherStored completes later induction =>
      have advance := completes.advance sound
      rcases completes.provides intact free sound owns with ⟨state, provides⟩
      rcases List.mem_cons.mp member with rfl | inRest
      · rw [found] at otherFound
        cases Except.ok.inj otherFound
        cases Option.mem_unique declares otherDeclares
        cases Option.mem_unique stored otherStored
        exact later.provided advance.sound (provides (List.mem_singleton.mpr isDomain.symm))
      · rcases state with ownsMiddle | provided
        · rcases Layout.statement_eq_ok_iff.mp found with ⟨body, placed⟩
          exact induction advance.sound ownsMiddle inRest
            (Layout.statement_eq_ok_iff.mpr
              ⟨body, advance.extension.layout.statements _ _ placed⟩)
            (completes.symbols stored)
        · exact later.provided advance.sound provided
  | other otherFound silent _ induction =>
      rcases List.mem_cons.mp member with rfl | inRest
      · rw [found] at otherFound
        cases Except.ok.inj otherFound
        rw [declares] at silent
        cases silent
      · exact induction sound owns inRest found stored

/-! ## The domain that a variable ends with -/

theorem DeclaredUnder.kept {key : CanonicalKey} {scope : ScopeRef} {type : TypeRef}
    (extension : Extends before after)
    (symbols : ∀ ref symbol, source.symbols.get? ref = none →
      before.symbols.get? ref = some symbol → after.symbols.get? ref = some symbol)
    (declared : source.DeclaredUnder before key scope type) :
    source.DeclaredUnder after key scope type := by
  rcases declared with ⟨ref, symbol, isNew, stored, isType, isScope, named⟩
  exact ⟨ref, symbol, isNew, symbols ref symbol isNew stored, isType, isScope,
    extension.names _ _ named⟩

theorem DeclaredUnder.setSymbolType {key : CanonicalKey} {scope : ScopeRef}
    {type declared : TypeRef} {var : SymbolRef} {old : Symbol} {symbols : Arena .symbol Symbol}
    (stored : source.symbols.get? var = some old)
    (changed : before.symbols.modify var (fun symbol => { symbol with type := declared }) =
      .ok symbols) (under : source.DeclaredUnder before key scope type) :
    source.DeclaredUnder { before with symbols } key scope type := by
  refine under.kept (.setSymbolType changed) ?_
  intro ref symbol isNew found
  exact (Arena.get?_of_modify_of_ne changed (ne_of_new stored isNew)).trans found

theorem DeclaredUnder.congr {left right : CanonicalKey} (same : left.name = right.name)
    {scope : ScopeRef} {type : TypeRef} (declared : source.DeclaredUnder before left scope type) :
    source.DeclaredUnder before right scope type := by
  rwa [DeclaredUnder, ← same]

theorem Canonicalizes.declaredUnder_domain (intact : source.Intact) (free : source.DomainNamesFree)
    (sound : Sound source before) {scope : ScopeRef} {type canonical : TypeRef} {rank : Nat}
    {parent slot : Option TypeRef}
    (stored : before.types.get? type = some { form := .domain rank parent slot, symbol := none })
    (canonicalizes : before.Canonicalizes scope type canonical after) :
    source.DeclaredUnder after (.domain rank) sharedScope canonical := by
  cases canonicalizes with
  | domain again ranked settles =>
      rcases node_unique stored again with ⟨same, -⟩
      cases same
      have ranking := sound.withRank stored ranked
      exact settles.declaredUnder intact ranking.sound (free.not_mem_domain rank)
  | scalar again scalar =>
      rcases node_unique stored again with ⟨rfl, -⟩
      simp [TypeForm.Scalar, TypeForm.shape] at scalar
  | kept again =>
      rcases node_unique stored again with ⟨-, same⟩
      cases same
  | index again | tuple again | sequence again | array again =>
      rcases node_unique stored again with ⟨same, -⟩
      cases same

theorem Adopts.declaredUnder_domain (intact : source.Intact) (free : source.DomainNamesFree)
    (sound : Sound source before) {scope : ScopeRef} {type canonical : TypeRef} {rank : Nat}
    {parent slot : Option TypeRef} {symbol : Option SymbolRef}
    (stored : before.types.get? type = some { form := .domain rank parent slot, symbol })
    (adopts : before.Adopts scope type canonical after) :
    symbol = none ∧ source.DeclaredUnder after (.domain rank) sharedScope canonical := by
  cases adopts with
  | scalar again scalar =>
      rcases node_unique stored again with ⟨rfl, -⟩
      simp [TypeForm.Scalar, TypeForm.shape] at scalar
  | settled again canonicalizes =>
      rcases node_unique stored again with ⟨rfl, rfl⟩
      exact ⟨rfl, canonicalizes.declaredUnder_domain intact free sound stored⟩
  | twice again canonicalizes anonymous _ =>
      rcases node_unique stored again with ⟨rfl, rfl⟩
      have declared := canonicalizes.declaredUnder_domain intact free sound stored
      rcases (canonicalizes.advance sound).sound.node_of_declaredUnder declared with
        ⟨_, _, _, named, -⟩
      rw [anonymous] at named
      simp at named

structure AdoptedDomain (source current : Program) (var : SymbolRef) (rank : Nat)
    (first : TypeRef) : Prop where
  stored : ∃ symbol, current.symbols.get? var = some symbol ∧ symbol.type = first
  declared : source.DeclaredUnder current (.domain rank) sharedScope first

theorem Resolves.adoptedDomain (intact : source.Intact) (free : source.DomainNamesFree)
    (sound : Sound source before) {var : SymbolRef} {rank : Nat} {first : TypeRef}
    (adopted : source.AdoptedDomain before var rank first) {ref : StatementRef}
    (resolves : before.Resolves ref after) : source.AdoptedDomain after var rank first := by
  cases resolves with
  | @declaration statement other symbol canonical middle symbols found declares stored adopts
      changed =>
      rcases sound.variable_source intact found declares with ⟨-, original, originalStored⟩
      rcases adopted with ⟨⟨content, contentStored, rfl⟩, declared⟩
      have different : other ≠ var := by
        intro same
        subst same
        cases Option.mem_unique stored contentStored
        rcases sound.node_of_declaredUnder declared with ⟨form, holder, _, named, -, -, shaped⟩
        cases form with
        | domain =>
            have anonymous := (adopts.declaredUnder_domain intact free sound named).1
            simp at anonymous
        | _ => cases shaped
      exact ⟨⟨content,
        (Arena.get?_of_modify_of_ne changed different).trans (adopts.symbols contentStored), rfl⟩,
        (declared.kept (adopts.advance sound).extension fun _ _ _ => adopts.symbols).setSymbolType
          originalStored changed⟩
  | other => exact adopted

theorem Resolves.adopts_domain (intact : source.Intact) (free : source.DomainNamesFree)
    (sound : Sound source before) {var : SymbolRef} {old : Symbol} {rank : Nat}
    {slot : Option TypeRef}
    (isDomain : source.types.get? old.type =
      some { form := .domain rank none slot, symbol := none })
    (untouched : before.symbols.get? var = some old) {ref : StatementRef}
    (resolves : before.Resolves ref after) :
    after.symbols.get? var = some old ∧ ¬source.DeclaredBy ref var ∨
      ∃ first, source.AdoptedDomain after var rank first := by
  cases resolves with
  | @declaration statement other symbol canonical middle symbols found declares stored adopts
      changed =>
      rcases sound.variable_source intact found declares with ⟨-, original, originalStored⟩
      by_cases same : other = var
      · subst same
        cases Option.mem_unique stored untouched
        rcases sound.extension.types _ _ _ isDomain with ⟨later, holder, domainStored, rewrites, -⟩
        rcases rewrites.of_domain with ⟨explicit, companion, rfl, ranks, -⟩
        have declared := (adopts.declaredUnder_domain intact free sound domainStored).2.congr
          (CanonicalKey.name_domain_congr ranks)
        refine .inr ⟨canonical, ⟨{ old with type := canonical }, ?_, rfl⟩,
          declared.setSymbolType originalStored changed⟩
        rw [Arena.get?_of_modify_same changed, adopts.symbols stored]
        rfl
      · refine .inl ⟨(Arena.get?_of_modify_of_ne changed same).trans (adopts.symbols untouched), ?_⟩
        intro declared
        have again := sound.kind_of_declaredBy found declared
        rw [declares] at again
        exact same (StatementKind.varDeclaration.inj again)
  | @other statement found silent =>
      exact .inl ⟨untouched, fun declared => silent var (sound.kind_of_declaredBy found declared)⟩

theorem ResolvesAll.adoptedDomain (intact : source.Intact) (free : source.DomainNamesFree)
    (sound : Sound source before) {var : SymbolRef} {rank : Nat} {first : TypeRef}
    (adopted : source.AdoptedDomain before var rank first) {order : List StatementRef}
    (resolves : before.ResolvesAll order after) :
    source.AdoptedDomain after var rank first := by
  induction resolves with
  | nil => exact adopted
  | cons entered _ induction =>
      exact induction (entered.advance intact sound).sound
        (entered.adoptedDomain intact free sound adopted)

theorem ResolvesAll.adopts_domain (intact : source.Intact) (free : source.DomainNamesFree)
    (sound : Sound source before) {var : SymbolRef} {old : Symbol} {rank : Nat}
    {slot : Option TypeRef}
    (isDomain : source.types.get? old.type =
      some { form := .domain rank none slot, symbol := none })
    (untouched : before.symbols.get? var = some old) {order : List StatementRef}
    (resolves : before.ResolvesAll order after) {ref : StatementRef} (member : ref ∈ order)
    (declared : source.DeclaredBy ref var) :
    ∃ first, source.AdoptedDomain after var rank first := by
  induction resolves with
  | nil => cases member
  | cons entered later induction =>
      have entering := entered.advance intact sound
      rcases entered.adopts_domain intact free sound isDomain untouched with
        ⟨untouchedMiddle, undeclared⟩ | ⟨first, adopted⟩
      · rcases List.mem_cons.mp member with rfl | inRest
        · exact absurd declared undeclared
        · exact induction entering.sound untouchedMiddle inRest
      · exact ⟨first, later.adoptedDomain intact free entering.sound adopted⟩

theorem Sound.domain_source (sound : Sound source before) {rank : Nat} {scope : ScopeRef}
    {first : TypeRef} (declared : source.DeclaredUnder before (.domain rank) scope first) :
    ∃ explicit slot, source.types.get? first =
        some { form := .domain explicit none slot, symbol := none } ∧
      effectiveRank explicit = effectiveRank rank := by
  rcases sound.node_of_declaredUnder declared with
    ⟨form, holder, other, stored, fits, names, shaped⟩
  rcases declared with ⟨ref, symbol, isNew, symbolStored, rfl, -, -⟩
  rcases sound.original ref symbol isNew symbolStored with ⟨original, originalStored⟩
  rcases sound.extension.types _ _ _ originalStored with ⟨later, _, found, rewrites, -⟩
  rcases node_unique stored found with ⟨rfl, rfl⟩
  cases fits with
  | domain ranks =>
      rcases rewrites.to_domain with ⟨explicit, slot, rfl, explicitRanks, -⟩
      exact ⟨explicit, slot, originalStored, explicitRanks.symm.trans
        (ranks.trans (CanonicalKey.effectiveRank_eq_of_domain names))⟩
  | _ => cases shaped

end Program

/-- A variable that is declared with a domain ends with a domain of its rank that its statement
or an earlier one uses, whatever comes later. If that domain has no companion, the variable ends
without one; if it has one that nothing else refers to, the variable ends with an index type that
is declared under the name of the domain. -/
theorem canonicalize_keeps_companion {source : Program} {own : Progress Unit} {options : Options}
    {final : Walker (Progress Unit)} (intact : source.Intact)
    (free : source.DomainNamesFree) (companions : options.companions = true)
    (ran : canonicalize .silent options ⟨source, own⟩ = .ok () final) :
    ∀ order, source.preorder = .ok order → ∀ front ref back, order = front ++ ref :: back →
    ∀ var, source.DeclaredBy ref var →
    ∀ symbol rank companion, source.symbols.get? var = some symbol →
    source.types.get? symbol.type =
      some { form := .domain rank none companion, symbol := none } →
    ∃ first explicit slot, source.types.get? first =
        some { form := .domain explicit none slot, symbol := none } ∧
      effectiveRank explicit = effectiveRank rank ∧
      (source.Unreserved → source.UsedBy (front ++ [ref]) first) ∧
      final.program.typeOf? var = some first ∧
      final.program.typeName? first = .ok (some (CanonicalKey.domain rank).name) ∧
      (slot = none → ∃ later holder, final.program.types.get? first =
        some { form := .domain later none none, symbol := holder }) ∧
      ∀ index, slot = some index → source.Owns first index → final.program.Provided first := by
  rcases canonicalize_eq_ok ran with ⟨middle, walked, completing⟩
  rw [if_pos companions] at completing
  rcases completing with ⟨more, moreListed, completes⟩
  rcases resolvesAll_of_walkProgram walked with ⟨order, listed, resolves⟩
  have start := Program.sound_refl source
  have resolving := resolves.advance intact start
  have completion := completes.advance resolving.sound
  intro again againListed front ref back split var declaredBy symbol rank companion stored isDomain
  rw [listed] at againListed
  cases Except.ok.inj againListed
  have member : ref ∈ order := by simp [split]
  -- The type that the variable ends with is settled by the time its statement has been entered.
  rw [split, List.append_cons] at resolves
  rcases resolves.split with ⟨entered, before, after⟩
  have entering := before.advance intact start
  rcases before.adopts_domain intact free start isDomain stored (by simp) declaredBy with
    ⟨first, adopted⟩
  rcases after.adoptedDomain intact free entering.sound adopted with
    ⟨⟨content, contentStored, rfl⟩, declared⟩
  rcases resolving.sound.domain_source declared with ⟨explicit, slot, firstStored, ranks⟩
  refine ⟨content.type, explicit, slot, firstStored, ranks, ?_,
    Program.typeOf?_eq_some (completes.symbols contentStored),
    completion.extension.typeName? (resolving.sound.typeName?_of_declaredUnder declared), ?_, ?_⟩
  · intro unreserved
    rcases adopted.declared with ⟨new, newSymbol, isNew, newStored, isFirst, -, -⟩
    have sourced := before.sourced intact unreserved start (Program.sourced_refl source _)
      fun other inFront => inFront
    exact isFirst ▸ sourced.added new newSymbol isNew newStored
  · intro isNone
    subst isNone
    rcases completion.sound.extension.types _ _ _ firstStored with
      ⟨later, holder, found, rewrites, -⟩
    rcases rewrites.of_domain with ⟨written, other, rfl, -, slots⟩
    cases other with
    | none => exact ⟨written, holder, found⟩
    | some => cases slots
  · intro index isSome owns
    subst isSome
    rcases declaredBy with ⟨placed, placedStored, declares⟩
    exact completes.provides intact free resolving.sound (after.owns (before.owns owns))
      (resolving.extension.mem_preorder listed moreListed member)
      (Layout.statement_eq_ok_iff.mpr ⟨placed.body,
        resolving.extension.layout.statements _ _ placedStored⟩)
      (by simp only [Statement.declared?, declares]) contentStored rfl

def twoDomainCalls : List Call :=
  [.addModule, .addExpression (.literal 1), .addType (.index ⟨0⟩),
    .addType (.domain 1 none (some ⟨7⟩)), .declareVar ⟨1⟩ "D" ⟨8⟩,
    .addExpression (.literal 0), .addType (.index ⟨1⟩),
    .addType (.domain 0 none (some ⟨9⟩)), .declareVar ⟨1⟩ "E" ⟨10⟩]

theorem canonicalize_keeps_companion_of_two_domains :
    ∃ source final, layOut twoDomainCalls = .ok source ∧
      canonicalize .silent {} ⟨source, { journal := () }⟩ = .ok () final ∧
      ∃ first, final.program.typeOf? ⟨8⟩ = some first ∧ final.program.Provided first := by
  obtain ⟨source, isBuilt, free, listed, declares, stored, typed, left, leftIndex, right,
      rightIndex, unused, only, domains, finishes⟩ :
    ∃ source ∈ (layOut twoDomainCalls).toOption,
      source.DomainNamesFree ∧
      source.preorder.toOption = some [⟨0⟩, ⟨1⟩] ∧
      (∃ placed ∈ source.layout.statements.get? ⟨1⟩,
        placed.statement.kind = .varDeclaration ⟨8⟩) ∧
      (source.symbols.get? ⟨8⟩).isSome ∧ source.typeOf? ⟨8⟩ = some ⟨10⟩ ∧
      source.types.get? ⟨8⟩ = some { form := .domain 1 none (some ⟨7⟩), symbol := none } ∧
      source.types.get? ⟨7⟩ = some { form := .index ⟨0⟩, symbol := none } ∧
      source.types.get? ⟨10⟩ = some { form := .domain 0 none (some ⟨9⟩), symbol := none } ∧
      source.types.get? ⟨9⟩ = some { form := .index ⟨1⟩, symbol := none } ∧
      (∀ ref symbol, source.symbols.get? ref = some symbol →
        symbol.type ≠ ⟨7⟩ ∧ symbol.type ≠ ⟨9⟩) ∧
      (∀ type node, source.types.get? type = some node →
        (⟨7⟩ ∈ node.form.children → type = ⟨8⟩) ∧ (⟨9⟩ ∈ node.form.children → type = ⟨10⟩)) ∧
      (∀ type node, source.types.get? type = some node → node.form.shape = .domain →
        type = ⟨8⟩ ∨ type = ⟨10⟩) ∧
      (finished? (canonicalize .silent {} ⟨source, { journal := () }⟩)).isSome := by
    decide +kernel
  have built := Except.toOption_eq_some_iff.mp isBuilt
  rcases Option.isSome_iff_exists.mp finishes with ⟨final, isFinal⟩
  have ran := finished?_eq_some_iff.mp isFinal
  rcases Option.isSome_iff_exists.mp stored with ⟨symbol, found⟩
  rw [Program.typeOf?_eq_some found] at typed
  have isDomain := right
  rw [← Option.some.inj typed] at isDomain
  rcases declares with ⟨placed, isPlaced, kind⟩
  rcases canonicalize_keeps_companion (Program.intact_of_laidOut (laidOut_of_layOut built)) free rfl
      ran [⟨0⟩, ⟨1⟩] (Except.toOption_eq_some_iff.mp listed) [⟨0⟩] ⟨1⟩ [] rfl ⟨8⟩
      ⟨placed, isPlaced, kind⟩ symbol 0 _ found isDomain with
    ⟨first, explicit, slot, firstStored, -, -, finalType, -, -, provides⟩
  refine ⟨source, final, built, ran, first, finalType, ?_⟩
  rcases domains first _ firstStored rfl with rfl | rfl
  · cases Option.mem_unique left firstStored
    refine provides _ rfl ⟨⟨_, _, _, left⟩, ⟨_, leftIndex⟩, ?_, ?_⟩
    · exact fun ref symbol stored => (unused ref symbol stored).1
    · exact fun type form symbol stored => (only type _ stored).1
  · cases Option.mem_unique right firstStored
    refine provides _ rfl ⟨⟨_, _, _, right⟩, ⟨_, rightIndex⟩, ?_, ?_⟩
    · exact fun ref symbol stored => (unused ref symbol stored).2
    · exact fun type form symbol stored => (only type _ stored).2

def plainDomainCalls : List Call :=
  [.addModule, .addType (.domain 1 none none), .declareVar ⟨1⟩ "D" ⟨7⟩,
    .addExpression (.literal 1), .addType (.index ⟨0⟩),
    .addType (.domain 1 none (some ⟨8⟩)), .declareVar ⟨1⟩ "E" ⟨9⟩]

/-- A variable that is declared with a companion of its own ends without one. -/
theorem exists_companion_lost :
    ∃ source final, layOut plainDomainCalls = .ok source ∧
      source.DomainNamesFree ∧
      canonicalize .silent {} ⟨source, { journal := () }⟩ = .ok () final ∧
      ∃ var ∈ source.declaredVariables, ∃ type index rank, source.typeOf? var = some type ∧
        source.types.get? type =
          some { form := .domain rank none (some index), symbol := none } ∧
        source.Owns type index ∧
        ∃ canonical symbol, final.program.typeOf? var = some canonical ∧
          final.program.types.get? canonical = some { form := .domain rank none none, symbol } := by
  obtain ⟨source, isBuilt, free, declared, typed, stored, waiting, unused, only, final, isFinal,
      finalType, node, finalStored, isPlain⟩ :
    ∃ source ∈ (layOut plainDomainCalls).toOption,
      source.DomainNamesFree ∧
      ⟨8⟩ ∈ source.declaredVariables ∧ source.typeOf? ⟨8⟩ = some ⟨9⟩ ∧
      source.types.get? ⟨9⟩ = some { form := .domain 1 none (some ⟨8⟩), symbol := none } ∧
      source.types.get? ⟨8⟩ = some { form := .index ⟨0⟩, symbol := none } ∧
      (∀ ref symbol, source.symbols.get? ref = some symbol → symbol.type ≠ ⟨8⟩) ∧
      (∀ type node, source.types.get? type = some node → ⟨8⟩ ∈ node.form.children →
        type = ⟨9⟩) ∧
      ∃ final ∈ finished? (canonicalize .silent {} ⟨source, { journal := () }⟩),
        final.program.typeOf? ⟨8⟩ = some ⟨7⟩ ∧
        ∃ node ∈ final.program.types.get? ⟨7⟩, node.form = .domain 1 none none := by
    decide +kernel
  rcases node with ⟨form, symbol⟩
  subst isPlain
  exact ⟨source, final, Except.toOption_eq_some_iff.mp isBuilt, free,
    finished?_eq_some_iff.mp isFinal, ⟨8⟩, declared, ⟨9⟩, ⟨8⟩, 1, typed, stored,
    ⟨⟨_, _, _, stored⟩, ⟨_, waiting⟩, unused, fun type _ _ found => only type _ found⟩, ⟨7⟩, symbol,
    finalType, finalStored⟩

end StructuralTypes
