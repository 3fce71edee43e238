import Mathlib.Data.Finset.Card
import Mathlib.Data.Finset.Range
import StructuralTypes.Proofs.Homes

/-! Graphs of types without cycles. A walk through the type of a variable ends only if nothing
below that type comes back to itself. The walk over the variables makes no type a part of another
unless it is below the type that it goes through right afterwards, so a run that ends well leaves
no cycle behind. -/

namespace StructuralTypes

/-! ## References below others -/

section

open Classical

variable {entity : Entity} {relation : Ref entity → Ref entity → Prop} {size : Nat}
  {lower upper : Ref entity}

/-- How many of the first `size` references come before `ref`, however far. -/
noncomputable def countBelow (relation : Ref entity → Ref entity → Prop) (size : Nat)
    (ref : Ref entity) : Nat :=
  ((Finset.range size).filter fun index => Relation.TransGen relation ⟨index⟩ ref).card

theorem countBelow_le (relation : Ref entity → Ref entity → Prop) (size : Nat)
    (ref : Ref entity) : countBelow relation size ref ≤ size :=
  (Finset.card_filter_le _ _).trans_eq (Finset.card_range _)

theorem countBelow_lt (wellFounded : WellFounded relation) (inside : lower.index < size)
    (related : relation lower upper) :
    countBelow relation size lower < countBelow relation size upper := by
  refine Finset.card_lt_card ((Finset.ssubset_iff_of_subset ?_).mpr ⟨lower.index, ?_, ?_⟩)
  · intro index member
    rw [Finset.mem_filter] at member ⊢
    exact ⟨member.1, member.2.tail related⟩
  · rw [Finset.mem_filter, Finset.mem_range]
    exact ⟨inside, .single related⟩
  · rw [Finset.mem_filter, not_and]
    intro _ cycle
    exact wellFounded.transGen.asymmetric _ _ cycle cycle

theorem countBelow_lt_size (wellFounded : WellFounded relation) (inside : lower.index < size) :
    countBelow relation size lower < size := by
  refine (Finset.card_lt_card ((Finset.ssubset_iff_of_subset (Finset.filter_subset _ _)).mpr
    ⟨lower.index, Finset.mem_range.mpr inside, ?_⟩)).trans_eq (Finset.card_range _)
  rw [Finset.mem_filter, not_and]
  intro _ cycle
  exact wellFounded.transGen.asymmetric _ _ cycle cycle

end

namespace TypeForm

def parent? : TypeForm → Option TypeRef
  | .domain _ parent _ => parent
  | _ => none

def companion? : TypeForm → Option TypeRef
  | .domain _ _ companion => companion
  | _ => none

theorem Recompanions.eq_of_element? {form later : TypeForm} (recompanions : form.Recompanions later)
    (composite : form.element? ≠ none) : later = form := by
  cases recompanions with
  | same => rfl
  | domain => exact absurd rfl composite

theorem Rewrites.parent?_eq {form later : TypeForm} (rewrites : form.Rewrites later) :
    later.parent? = form.parent? := by
  cases rewrites <;> rfl

theorem companion?_withRank (rank : Nat) (form : TypeForm) :
    (form.withRank rank).companion? = form.companion? := by
  cases form <;> rfl

theorem eq_domain_of_companion? {form : TypeForm} {companion : TypeRef}
    (found : form.companion? = some companion) :
    ∃ rank parent, form = .domain rank parent (some companion) := by
  cases form with
  | domain rank parent =>
      cases found
      exact ⟨rank, parent, rfl⟩
  | _ => cases found

end TypeForm

namespace Program

variable {source program before middle after final : Program}

/-! ## Parts -/

def PartOf (program : Program) (part whole : TypeRef) : Prop :=
  ∃ node, program.types.get? whole = some node ∧ part ∈ node.form.children

def Acyclic (program : Program) : Prop :=
  WellFounded program.PartOf

/-- Domains are not derived from others, and their companions are index types. -/
def DomainsPlain (program : Program) : Prop :=
  ∀ type node, program.types.get? type = some node → node.form.parent? = none ∧
    ∀ companion ∈ node.form.companion?, program.shape companion = .ok .index

instance (program : Program) : Decidable program.DomainsPlain :=
  inferInstanceAs (Decidable (∀ type node, program.types.get? type = some node → _))

theorem acyclic_of_parts_below
    (below : ∀ type node, program.types.get? type = some node →
      ∀ part ∈ node.form.children, part.index < type.index) : program.Acyclic := by
  refine Subrelation.wf ?_ (InvImage.wf (fun type : TypeRef => type.index) Nat.lt_wfRel.wf)
  rintro part whole ⟨node, stored, member⟩
  exact below whole node stored part member

theorem acyclic_of_laidOut (laid : LaidOut program) : program.Acyclic :=
  acyclic_of_parts_below laid.parts_below

theorem not_partOf_of_index {type part : TypeRef} (isIndex : program.shape type = .ok .index) :
    ¬program.PartOf part type := by
  obtain ⟨⟨form, symbol⟩, stored, shaped⟩ := shape_eq_ok_iff.mp isIndex
  rintro ⟨node, again, member⟩
  cases Option.mem_unique stored again
  cases form with
  | index => cases member
  | _ => cases shaped

/-- A change that makes parts only of what has no cycle below it leaves no cycle. -/
theorem Acyclic.of_partOf (acyclic : before.Acyclic)
    (parts : ∀ {part whole : TypeRef}, after.PartOf part whole →
      before.PartOf part whole ∨ Acc after.PartOf part) : after.Acyclic := by
  refine ⟨fun type => ?_⟩
  induction type using acyclic.induction with
  | _ whole induction =>
      refine ⟨_, fun part isPart => ?_⟩
      exact (parts isPart).elim (induction part) id

theorem partOf_of_modify {type : TypeRef} {change : TypeNode → TypeNode}
    (modified : before.types.modify type change = .ok after.types) {part whole : TypeRef}
    (isPart : after.PartOf part whole) :
    before.PartOf part whole ∨
      whole = type ∧ ∃ node, before.types.get? type = some node ∧
        part ∈ (change node).form.children := by
  obtain ⟨node, stored, member⟩ := isPart
  obtain ⟨old, oldStored, same⟩ := Arena.get?_eq_some_of_modify modified stored
  split at same
  · rename_i isType
    cases same
    exact .inr ⟨isType.symm, old, isType ▸ oldStored, member⟩
  · cases same
    exact .inl ⟨_, oldStored, member⟩

theorem Settles.partOf {scope : ScopeRef} {text : String} {fresh canonical : TypeRef}
    {form : TypeForm} {symbol : Option SymbolRef} {finish : TypeForm → TypeForm}
    {placement : Placement} (stored : before.types.get? fresh = some { form, symbol })
    (settles : before.Settles scope text fresh finish placement canonical after)
    {part whole : TypeRef} (isPart : after.PartOf part whole) :
    before.PartOf part whole ∨ whole = fresh ∧ canonical = fresh ∧
      part ∈ (finish form).children ∧
      ∃ ref, after.types.get? fresh = some { form := finish form, symbol := some ref } := by
  cases settles with
  | reused => exact .inl isPart
  | created _ _ _ introduces =>
      refine (partOf_of_modify introduces.types isPart).imp_right ?_
      rintro ⟨isFresh, node, again, member⟩
      cases Option.mem_unique stored again
      exact ⟨isFresh, rfl, member, _, introduces.type_same stored⟩

theorem Settles.partOf_same {scope : ScopeRef} {text : String} {fresh canonical : TypeRef}
    {form : TypeForm} {symbol : Option SymbolRef} {placement : Placement}
    (stored : before.types.get? fresh = some { form, symbol })
    (settles : before.Settles scope text fresh id placement canonical after)
    {part whole : TypeRef} (isPart : after.PartOf part whole) : before.PartOf part whole := by
  rcases settles.partOf stored isPart with old | ⟨rfl, -, member, -⟩
  · exact old
  · exact ⟨_, stored, member⟩

/-! ## How deep types nest -/

section

open Classical

noncomputable def extent (program : Program) (type : TypeRef) : Nat :=
  ((Finset.range program.types.size).filter fun index =>
    Relation.TransGen program.PartOf ⟨index⟩ type).card

theorem extent_le (program : Program) (type : TypeRef) : program.extent type ≤ program.types.size :=
  countBelow_le _ _ type

theorem Acyclic.extent_lt (acyclic : program.Acyclic) {part whole : TypeRef} {node : TypeNode}
    (stored : program.types.get? part = some node) (isPart : program.PartOf part whole) :
    program.extent part < program.extent whole :=
  countBelow_lt acyclic (Arena.lt_size_of_get? stored) isPart

theorem Acyclic.extent_lt_size (acyclic : program.Acyclic) {type : TypeRef} {node : TypeNode}
    (stored : program.types.get? type = some node) :
    program.extent type < program.types.size :=
  countBelow_lt_size acyclic (Arena.lt_size_of_get? stored)

theorem extent_of_index {type : TypeRef} (isIndex : program.shape type = .ok .index) :
    program.extent type = 0 := by
  refine Finset.card_eq_zero.mpr (Finset.filter_eq_empty_iff.mpr fun index _ below => ?_)
  obtain ⟨part, -, isPart⟩ := Relation.TransGen.tail'_iff.mp below
  exact not_partOf_of_index isIndex isPart

end

/-! ## What the walk finds -/

section

variable {before after : Walker (Progress Unit)} {answer : Unit}

/-- A walk through a type that ends has found no cycle below the type. -/
theorem acc_of_walkTypeWithin {depth : Nat} {type : TypeRef}
    (ran : (variableTypes .silent).walkTypeWithin depth type before = .ok answer after) :
    Acc before.program.PartOf type := by
  induction depth generalizing before after type with
  | zero => simp [Traversal.walkTypeWithin, Walk.fault_eq_ok_iff] at ran
  | succ depth induction =>
      simp only [Traversal.walkTypeWithin, bind_eq_ok_iff, Walk.ask_eq_ok_iff, variableTypes,
        pure_eq_ok_iff, form_eq_ok_iff] at ran
      obtain ⟨_, _, ⟨-, rfl⟩, form, _, ⟨⟨symbol, stored⟩, rfl⟩, ran⟩ := ran
      have each : ∀ (walker : Walker (Progress Unit)) (parts : List TypeRef),
          parts.forM ((variableTypes .silent).walkTypeWithin depth) walker = .ok answer after →
          ∀ part ∈ parts, Acc walker.program.PartOf part := by
        intro walker parts walked
        induction parts with
        | nil => simp
        | cons head tail later =>
            simp only [List.forM, bind_eq_ok_iff] at walked
            obtain ⟨_, between, first, rest⟩ := walked
            cases walkTypeWithin_eq_ok first
            exact List.forall_mem_cons.mpr ⟨induction first, later rest⟩
      refine ⟨_, ?_⟩
      rintro part ⟨node, again, member⟩
      cases Option.mem_unique stored again
      exact each _ _ ran part member

theorem acc_of_walkStatement {ref : StatementRef} {statement : Statement} {declared : SymbolRef}
    {symbol : Symbol}
    (ran : (variableTypes .silent).walkStatement ref before = .ok answer after)
    (found : after.program.statement ref = .ok statement)
    (declares : statement.declared? = some declared)
    (stored : after.program.symbols.get? declared = some symbol) :
    Acc after.program.PartOf symbol.type := by
  simp only [Traversal.walkStatement, bind_eq_ok_iff, Walk.ask_eq_ok_iff] at ran
  obtain ⟨_, entered, -, asked, _, ⟨isAsked, rfl⟩, ran⟩ := ran
  have leaving : (variableTypes .silent).leaveStatement ref = pure () := rfl
  cases isDeclared : asked.declared? with
  | none =>
      simp only [isDeclared, leaving, pure_eq_ok_iff] at ran
      obtain ⟨-, rfl⟩ := ran
      cases Except.ok.inj (isAsked.symm.trans found)
      rw [isDeclared] at declares
      contradiction
  | some var =>
      simp only [isDeclared, leaving, bind_eq_ok_iff, Walk.ask_eq_ok_iff, symbol_eq_ok_iff,
        Traversal.walkType, get_eq_ok_iff, pure_eq_ok_iff] at ran
      obtain ⟨content, _, ⟨contentStored, rfl⟩, _, _, ⟨_, _, ⟨rfl, rfl⟩, walked⟩, -, rfl⟩ := ran
      cases walkTypeWithin_eq_ok walked
      cases Except.ok.inj (isAsked.symm.trans found)
      cases Option.some.inj (isDeclared.symm.trans declares)
      cases Option.mem_unique contentStored stored
      exact acc_of_walkTypeWithin walked

end

/-! ## Programs with all that they refer to -/

/-- What types are made of, the types of symbols and what statements declare are all stored. -/
structure ReferentsStored (program : Program) : Prop where
  parts : ∀ part whole, program.PartOf part whole → ∃ node, program.types.get? part = some node
  typed : ∀ ref symbol, program.symbols.get? ref = some symbol →
    ∃ node, program.types.get? symbol.type = some node
  symbols : ∀ ref placed declared, program.layout.statements.get? ref = some placed →
    placed.statement.declared? = some declared →
    ∃ symbol, program.symbols.get? declared = some symbol

/-- No text has two names, and a type is declared under a name that some scope binds. -/
structure WellFormed (program : Program) : Prop
    extends Intact program, ReferentsStored program where
  distinct : program.names.Distinct
  declared : ∀ type form ref, program.types.get? type = some { form, symbol := some ref } →
    ∃ symbol text, program.symbols.get? ref = some symbol ∧
      program.names.get? symbol.name = some text ∧ text ∈ program.boundNames

theorem referentsStored_of_laidOut (laid : LaidOut program) : program.ReferentsStored where
  parts part whole isPart := by
    obtain ⟨node, stored, member⟩ := isPart
    have below := laid.parts_below whole node stored part member
    exact Arena.exists_get?_of_lt_size (Nat.lt_trans below (Arena.lt_size_of_get? stored))
  typed := laid.typed
  symbols ref placed declared stored declares := by
    obtain ⟨symbol, found, -⟩ := (laid.statements ref placed stored).2 declared declares
    exact ⟨symbol, found⟩

theorem wellFormed_of_laidOut (laid : LaidOut program) : program.WellFormed where
  toIntact := intact_of_laidOut laid
  toReferentsStored := referentsStored_of_laidOut laid
  distinct := laid.distinct
  declared type form ref stored := by
    obtain ⟨symbol, symbolStored, -⟩ := laid.declared type form ref stored
    obtain ⟨text, other, named, binds⟩ := laid.bound ref symbol symbolStored
    exact ⟨symbol, text, symbolStored, named, mem_boundNames binds named⟩

theorem ProperlyDeclared.definition_ne_absent {ref : SymbolRef} {symbol : Symbol}
    (proper : program.ProperlyDeclared ref symbol) : symbol.definition ≠ .absent := by
  obtain ⟨declaration, _, defined, -⟩ := proper.placed
  rw [defined]
  exact nofun

section

variable (wellFormed : source.WellFormed) (homed : Homed source final)
include wellFormed homed

theorem Homed.type_eq_of_new {ref : SymbolRef} {symbol : Symbol} {type : TypeRef}
    {form : TypeForm} (declares : final.types.get? type = some { form, symbol := some ref })
    (isNew : source.symbols.get? ref = none) (stored : final.symbols.get? ref = some symbol) :
    symbol.type = type := by
  rcases homed.declared type form ref declares with ⟨old, oldStored⟩ | ⟨-, _, again, isType⟩
  · obtain ⟨_, _, isOld, -⟩ := wellFormed.declared type old ref oldStored
    rw [isNew] at isOld
    contradiction
  · exact Option.mem_unique stored again ▸ isType

theorem Homed.new_of_reserved (unreserved : source.Unreserved) {type : TypeRef} {form : TypeForm}
    {ref : SymbolRef} {symbol : Symbol} {text : String}
    (declares : final.types.get? type = some { form, symbol := some ref })
    (stored : final.symbols.get? ref = some symbol)
    (named : final.names.get? symbol.name = some text) (reserved : Reserved text) :
    source.symbols.get? ref = none := by
  rcases homed.declared type form ref declares with ⟨old, oldStored⟩ | ⟨isNew, -⟩
  · obtain ⟨record, other, recordStored, recordNamed, member⟩ :=
      wellFormed.declared type old ref oldStored
    obtain ⟨_, kept⟩ := homed.continues.symbols ref record recordStored
    cases Option.mem_unique stored kept
    cases Option.mem_unique named (homed.names _ _ recordNamed)
    exact absurd reserved (unreserved text member)
  · exact isNew

omit wellFormed in
theorem Homed.scope_of_homeBeside {ref : SymbolRef} {symbol : Symbol} {home : Home}
    (isNew : source.symbols.get? ref = none) (stored : final.symbols.get? ref = some symbol)
    (defined : symbol.definition ≠ .absent) (beside : final.homeBeside ref = .ok home) :
    home.scope = symbol.scope := by
  obtain ⟨_, elsewhere, _, -, belongs, isScope, -⟩ := homed.homes ref symbol isNew stored
  obtain ⟨again, content, againStored, scopeStored, rfl⟩ := homeBeside_eq_ok_iff.mp beside
  cases Option.mem_unique stored againStored
  split
  · rename_i outside
    cases elsewhere with
    | shared => exact isScope.symm
    | beside element scope =>
        cases belongs with
        | element _ _ elementBeside =>
            obtain ⟨-, notShared, -, -, -, -, other, otherStored, isOpen⟩ :=
              homeBeside_beside elementBeside
            change symbol.scope = scope at isScope
            subst isScope
            cases Option.mem_unique scopeStored otherStored
            simp [isOpen, defined, notShared] at outside
  · rfl

end

/-! ## What a run makes parts of types -/

theorem Steps.keeps (intact : source.Intact) (continues : Continues source before)
    (steps : Steps before after) : Keeps source before after := by
  induction steps with
  | refl => exact .refl source before
  | @tail between after steps step induction =>
      refine induction.trans ⟨fun _ _ named => step.names_kept named, ?_⟩
      intro ref symbol isNew found
      cases step with
      | intern | reform => exact found
      | introduce _ _ _ _ _ _ _ introduces => exact introduces.old_symbol found
      | retype stored declares modified =>
          obtain ⟨_, isOld⟩ :=
            (continues.trans (Steps.continues steps)).variable_source intact stored declares
          exact (Arena.get?_of_modify_of_ne modified (ne_of_new isOld isNew)).trans found

theorem DeclaredUnder.of_keeps (keeps : Keeps source before after) {key : CanonicalKey}
    {scope : ScopeRef} {type : TypeRef} (declared : source.DeclaredUnder before key scope type) :
    source.DeclaredUnder after key scope type := by
  obtain ⟨ref, symbol, isNew, stored, isType, isScope, named⟩ := declared
  exact ⟨ref, symbol, isNew, keeps.symbols _ _ isNew stored, isType, isScope, keeps.names _ _ named⟩

section

variable (wellFormed : source.WellFormed) (unreserved : source.Unreserved)
  (sound : Sound source final) (homed : Homed source final) (distinct : final.names.Distinct)
include wellFormed unreserved sound homed distinct

theorem DeclaredUnder.element_eq {key : CanonicalKey} {text : String} {home : Home}
    {canonical inner : TypeRef} {innerForm : TypeForm} {ref : SymbolRef}
    (declared : source.DeclaredUnder final key home.scope canonical)
    (based : key.element? = some text)
    (innerStored : final.types.get? inner = some { form := innerForm, symbol := some ref })
    (isNew : source.symbols.get? ref = none) (name : final.typeName? inner = .ok (some text))
    (beside : final.homeBeside ref = .ok home) :
    ∃ form holder, final.types.get? canonical = some { form, symbol := holder } ∧
      form.element? = some inner := by
  obtain ⟨form, _, other, stored, fits, same, -⟩ := sound.node_of_declaredUnder declared
  obtain ⟨element, found, elementName⟩ := fits.exists_element same based
  refine ⟨form, _, stored, ?_⟩
  rw [found]
  obtain ⟨holder, symbol, symbolNew, symbolStored, rfl, isScope, -⟩ := declared
  obtain ⟨_, elsewhere, _, declares, belongs, sameScope, -⟩ :=
    homed.homes holder symbol symbolNew symbolStored
  obtain ⟨rfl, -⟩ := node_unique stored declares
  cases belongs with
  | leaf bare =>
      rw [bare] at found
      contradiction
  | @element _ _ elementRef _ isElement elementStored elementBeside =>
      cases Option.mem_unique found isElement
      obtain ⟨_, _, record, again, recordStored, recordNamed⟩ := typeName?_eq_some_iff.mp name
      cases (node_unique innerStored again).2
      obtain ⟨_, _, elementRecord, again, elementRecordStored, elementNamed⟩ :=
        typeName?_eq_some_iff.mp elementName
      cases (node_unique elementStored again).2
      have proper := sound.declared ref record isNew recordStored
      obtain ⟨_, key, -, keyNamed, -⟩ := proper.keyed
      have isReserved : Reserved text :=
        Option.mem_unique keyNamed recordNamed ▸ key.reserved_name
      have elementNew := homed.new_of_reserved wellFormed unreserved elementStored
        elementRecordStored elementNamed isReserved
      have elementProper := sound.declared elementRef elementRecord elementNew elementRecordStored
      -- Both declarations are of one name, and in the scope that what is built over them goes to.
      have scopes : elementRecord.scope = record.scope :=
        calc elementRecord.scope
            = elsewhere.scope := (homed.scope_of_homeBeside elementNew elementRecordStored
                elementProper.definition_ne_absent elementBeside).symm
          _ = symbol.scope := sameScope.symm
          _ = home.scope := isScope
          _ = record.scope := homed.scope_of_homeBeside isNew recordStored
                proper.definition_ne_absent beside
      have bound := elementProper.bound
      rw [scopes, distinct _ _ _ elementNamed recordNamed] at bound
      cases binds_unique bound proper.bound
      cases Option.mem_unique recordStored elementRecordStored
      rw [← homed.type_eq_of_new wellFormed innerStored isNew recordStored,
        ← homed.type_eq_of_new wellFormed elementStored isNew recordStored]

/-- An element is one of the program as written, which stays what it is, or settles on a part of
what its holder settles on. -/
theorem Canonicalizes.inner_cases {scope : ScopeRef} {type element inner canonical : TypeRef}
    {form : TypeForm} {key : CanonicalKey} {text : String} {ref : SymbolRef} {home : Home}
    {finish : TypeForm → TypeForm} {types : Arena .type TypeNode}
    (nested : before.Canonicalizes scope element inner middle) (plainly : Sound source before)
    (continues : Continues source { middle with types })
    (stored : before.types.get? type = some { form, symbol := none })
    (found : form.element? = some element)
    (rewritten : middle.types.modify type
      (fun node => { node with form := node.form.withElement inner }) = .ok types)
    (named : { middle with types }.typeSymbol? inner = .ok (some ref))
    (beside : middle.homeBeside ref = .ok home) (name : middle.symbolName ref = .ok text)
    (based : key.element? = some text)
    (settles : { middle with types }.Settles home.scope key.name type finish home.placement
      canonical after)
    (settling : Steps { middle with types } after) (steps : Steps after final)
    (grounded : Acc final.PartOf canonical) :
    (inner = element ∧ middle = before) ∨ Acc final.PartOf inner := by
  have intact := wellFormed.toIntact
  rcases nested.kept_or_declaredUnder intact unreserved plainly with
    ⟨rfl, rfl, -⟩ | ⟨_, _, newRef, symbol, isNew, symbolStored, isType, -⟩
  · exact .inl ⟨rfl, rfl⟩
  · obtain ⟨replacing, -, elementName⟩ :=
      nested.replace (nested.advance plainly) stored found rewritten named name
    obtain ⟨innerForm, innerStored⟩ := typeSymbol?_eq_ok_iff.mp named
    obtain ⟨_, _, declares, -⟩ := (replacing.sound.declared newRef symbol isNew symbolStored).keyed
    rw [isType] at declares
    cases (node_unique innerStored declares).2
    have declared := (settles.declaredUnder intact replacing.sound (unreserved.free key)).of_keeps
      (steps.keeps intact (continues.trans settling.continues))
    have all : Steps { middle with types } final := settling.trans steps
    have keeps := all.keeps intact continues
    obtain ⟨later, laterStored, -⟩ := all.continues.types inner innerForm ref innerStored
    obtain ⟨_, _, record, again, recordStored, recordNamed⟩ := typeName?_eq_some_iff.mp elementName
    cases (node_unique innerStored again).2
    have laterName := typeName?_eq_some_iff.mpr ⟨later, ref, record, laterStored,
      keeps.symbols _ _ isNew recordStored, keeps.names _ _ recordNamed⟩
    obtain ⟨_, _, canonicalStored, isElement⟩ := declared.element_eq wellFormed unreserved sound
      homed distinct based laterStored isNew laterName (all.continues.homeBeside beside)
    exact .inr (grounded.inv ⟨_, canonicalStored, TypeForm.mem_children_of_element? isElement⟩)

end

theorem Canonicalizes.partOf_over_element {scope : ScopeRef}
    {type element inner canonical : TypeRef} {form : TypeForm} {text : String} {home : ScopeRef}
    {finish : TypeForm → TypeForm} {placement : Placement} {types : Arena .type TypeNode}
    (nested : before.Canonicalizes scope element inner middle)
    (stored : before.types.get? type = some { form, symbol := none })
    (found : form.element? = some element)
    (bare : (finish (form.withElement inner)).element? ≠ none)
    (rewritten : middle.types.modify type
      (fun node => { node with form := node.form.withElement inner }) = .ok types)
    (settles : { middle with types }.Settles home text type finish placement canonical after)
    (steps : Steps after final) (grounded : Acc final.PartOf canonical)
    (cases : (inner = element ∧ middle = before) ∨ Acc final.PartOf inner)
    (inside : Acc final.PartOf inner → ∀ {part whole : TypeRef}, middle.PartOf part whole →
      before.PartOf part whole ∨ Acc final.PartOf part)
    {part whole : TypeRef} (isPart : after.PartOf part whole) :
    before.PartOf part whole ∨ Acc final.PartOf part := by
  have here := (nested.takes_in stored found rewritten).2
  rcases settles.partOf here isPart with between | ⟨-, rfl, member, ref, declared⟩
  · rcases partOf_of_modify rewritten between with old | ⟨rfl, -⟩
    · rcases cases with ⟨-, rfl⟩ | innerGrounded
      · exact .inl old
      · exact inside innerGrounded old
    · obtain ⟨_, again, member⟩ := between
      cases Option.mem_unique here again
      rcases TypeForm.mem_children_withElement member with rfl | old
      · rcases cases with ⟨rfl, -⟩ | innerGrounded
        · exact .inl ⟨_, stored, TypeForm.mem_children_of_element? found⟩
        · exact .inr innerGrounded
      · exact .inl ⟨_, stored, old⟩
  · obtain ⟨later, laterStored, recompanions⟩ := steps.continues.types _ _ ref declared
    have same := recompanions.eq_of_element? bare
    exact .inr (grounded.inv ⟨_, laterStored, same ▸ member⟩)

section

variable (wellFormed : source.WellFormed) (unreserved : source.Unreserved)
  (sound : Sound source final) (homed : Homed source final) (distinct : final.names.Distinct)
include wellFormed unreserved sound homed distinct

/-- Canonicalizing a type makes no type a part of another unless nothing comes back to it from
what the type settles on. -/
theorem Canonicalizes.partOf {scope : ScopeRef} {type canonical : TypeRef}
    (canonicalizes : before.Canonicalizes scope type canonical after)
    (plainly : Sound source before) (continues : Continues source before)
    (steps : Steps after final) (grounded : Acc final.PartOf canonical) {part whole : TypeRef}
    (isPart : after.PartOf part whole) : before.PartOf part whole ∨ Acc final.PartOf part := by
  induction canonicalizes generalizing part whole with
  | kept | scalar => exact .inl isPart
  | index stored _ settles | tuple stored _ settles =>
      exact .inl (settles.partOf_same stored isPart)
  | @domain after type canonical rank companion types stored ranked settles =>
      have explicit : types.get? type =
          some { form := .domain (effectiveRank rank) none companion, symbol := none } := by
        rw [Arena.get?_of_modify_same ranked, stored]
        rfl
      rcases partOf_of_modify ranked (settles.partOf_same explicit isPart) with
        old | ⟨rfl, node, again, member⟩
      · exact .inl old
      · exact .inl ⟨node, again, by simpa only [TypeForm.children_withRank] using member⟩
  | sequence stored nested rewritten named beside name settles induction =>
      obtain ⟨replacing, here⟩ := nested.takes_in stored rfl rewritten
      have settling := settles.steps_over_element here (.same _) rfl rfl named beside rfl
        (by exact fun _ member => .inl (List.mem_singleton.mp member))
      have inner := nested.inner_cases wellFormed unreserved sound homed distinct plainly
        (continues.trans (Steps.continues (nested.steps.tail replacing))) stored rfl rewritten named
        beside name rfl settles settling steps grounded
      refine nested.partOf_over_element stored rfl (by exact nofun) rewritten settles steps grounded
        inner ?_ isPart
      intro innerGrounded
      exact induction ((settling.head replacing).trans steps) innerGrounded
  | array stored nested rewritten named beside name ranges ranked settles induction =>
      obtain ⟨replacing, here⟩ := nested.takes_in stored rfl rewritten
      have settling := settles.steps_over_element here (by exact .array) rfl rfl named beside rfl
        fun part member => (List.mem_cons.mp member).imp_right
          fun isDomain => ⟨_, List.mem_singleton.mp isDomain ▸ ranked⟩
      have inner := nested.inner_cases wellFormed unreserved sound homed distinct plainly
        (continues.trans (Steps.continues (nested.steps.tail replacing))) stored rfl rewritten named
        beside name rfl settles settling steps grounded
      refine nested.partOf_over_element stored rfl (by exact nofun) rewritten settles steps grounded
        inner ?_ isPart
      intro innerGrounded
      exact induction ((settling.head replacing).trans steps) innerGrounded

theorem Resolves.acyclic (acyclic : before.Acyclic) (plainly : Sound source before)
    (continues : Continues source before) {ref : StatementRef}
    (resolves : before.Resolves ref final)
    (walked : ∀ statement declared symbol, final.statement ref = .ok statement →
      statement.declared? = some declared → final.symbols.get? declared = some symbol →
      Acc final.PartOf symbol.type) : final.Acyclic := by
  cases resolves with
  | other => exact acyclic
  | @declaration statement var symbol canonical middle symbols found declares stored adopts
      changed =>
      have retyping : Steps middle { middle with symbols } :=
        .single (adopts.retypes found declares stored changed)
      have grounded : Acc { middle with symbols }.PartOf canonical := by
        obtain ⟨_, statementStored⟩ := Layout.statement_eq_ok_iff.mp found
        refine walked statement var { symbol with type := canonical } ?_ ?_ ?_
        · exact Layout.statement_eq_ok_iff.mpr ⟨_, adopts.steps.statement_kept statementStored⟩
        · rw [Statement.declared?, declares]
        · dsimp only
          rw [Arena.get?_of_modify_same changed, adopts.symbols stored]
          rfl
      have settled : before.Canonicalizes symbol.scope symbol.type canonical middle →
          Program.Acyclic { middle with symbols } := fun canonicalizes =>
        acyclic.of_partOf fun isPart => canonicalizes.partOf wellFormed unreserved sound homed
          distinct plainly continues retyping grounded isPart
      cases adopts with
      | scalar => exact acyclic
      | settled _ canonicalizes => exact settled canonicalizes
      | twice _ canonicalizes anonymous again =>
          rcases canonicalizes.named wellFormed.toIntact unreserved plainly with
            ⟨_, _, named⟩ | ⟨rfl, rfl, -⟩
          · rw [anonymous] at named
            simp at named
          · exact settled again

end

theorem acyclic_of_walkProgram (wellFormed : source.WellFormed) (acyclic : source.Acyclic)
    (unreserved : source.Unreserved) {own : Progress Unit} {final : Walker (Progress Unit)}
    (ran : (variableTypes .silent).walkProgram ⟨source, own⟩ = .ok () final) :
    final.program.Acyclic := by
  have intact := wellFormed.toIntact
  simp only [Traversal.walkProgram, bind_eq_ok_iff, Walk.ask_eq_ok_iff] at ran
  obtain ⟨order, start, ⟨-, rfl⟩, ran⟩ := ran
  have walking : ∀ {order : List StatementRef} {before after : Walker (Progress Unit)},
      order.forM (variableTypes .silent).walkStatement before = .ok () after →
      Sound source before.program → Homed source before.program →
      before.program.names.Distinct → before.program.Acyclic → after.program.Acyclic := by
    intro order before after ran sound homed distinct acyclic
    induction order generalizing before with
    | nil =>
        simp only [List.forM, pure_eq_ok_iff] at ran
        exact ran.2 ▸ acyclic
    | cons ref rest induction =>
        simp only [List.forM, bind_eq_ok_iff] at ran
        obtain ⟨_, middle, entered, later⟩ := ran
        have resolves := resolves_of_walkStatement entered
        have soundMiddle := (resolves.advance intact sound).sound
        have homedMiddle := homed.steps intact resolves.steps
        have distinctMiddle := resolves.steps.distinct distinct
        refine induction later soundMiddle homedMiddle distinctMiddle ?_
        exact resolves.acyclic wellFormed unreserved soundMiddle homedMiddle distinctMiddle acyclic
          sound homed.continues
          fun _ _ _ found declares declared => acc_of_walkStatement entered found declares declared
  exact walking ran (sound_refl source) (homed_refl source) wellFormed.distinct acyclic

end Program

end StructuralTypes
