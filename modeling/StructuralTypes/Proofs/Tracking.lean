import StructuralTypes.Proofs.Derivation

/-! How a program stands while its types become canonical, compared with the program
that the run started from. Whatever was there is there still, every type has the form
that it had except for what canonicalization replaces, and every declaration that was
added has the name and the scope that its type is called by. -/

namespace StructuralTypes

namespace Program

variable (source current : Program)

/-- `type` has settled on `canonical`: a declaration that was added has the name and the
scope that `type` is called by. -/
def Interns (type canonical : TypeRef) : Prop :=
  (∃ form, source.types.get? type = some { form, symbol := none }) ∧
  ∃ ref symbol text, source.symbols.get? ref = none ∧
    current.symbols.get? ref = some symbol ∧ symbol.type = canonical ∧
    current.names.get? symbol.name = some text ∧
    source.Called type text symbol.scope

/-- A type that is canonical from the start, or that has no parts to canonicalize. -/
def Fixed (type : TypeRef) : Prop :=
  ∃ form symbol, source.types.get? type = some { form, symbol } ∧
    (symbol ≠ none ∨ form.Scalar)

def Represents (type canonical : TypeRef) : Prop :=
  (source.Fixed type ∧ canonical = type) ∨ source.Interns current type canonical

/-- Everything on the chain of a type has settled. -/
def Covered (type : TypeRef) : Prop :=
  ∀ part ∈ source.chain type, ∃ canonical, source.Represents current part canonical

def Replaces (element inner : TypeRef) : Prop :=
  inner = element ∨
    source.Represents current element inner ∧ source.Covered current element

def RecordedFor (range : ExpressionRef) (domain : TypeRef) : Prop :=
  ∃ rank recorded, source.rangeRank? range = some rank ∧
    source.rank? domain = some recorded ∧ effectiveRank recorded = effectiveRank rank

/-- The second form is the first with its element replaced and its domain recorded, or
with its rank made explicit. -/
inductive Varies : TypeForm → TypeForm → Prop
  | same (form : TypeForm) : Varies form form
  | array {element inner : TypeRef} {range : ExpressionRef}
      {before after : Option TypeRef} (replaced : source.Replaces current element inner)
      (records : after = before ∨
        ∃ domain, after = some domain ∧ source.RecordedFor range domain) :
      Varies (.array element range before) (.array inner range after)
  | sequence {element inner : TypeRef} (replaced : source.Replaces current element inner) :
      Varies (.sequence element) (.sequence inner)
  | domain {rank explicit : Nat} {parent companion : Option TypeRef}
      (ranks : effectiveRank explicit = effectiveRank rank) :
      Varies (.domain rank parent companion) (.domain explicit parent companion)

/-- The form of a declared type, with a canonical element and a recorded domain. -/
inductive Complete : TypeForm → TypeForm → Prop
  | array {element inner domain : TypeRef} {range : ExpressionRef}
      {before : Option TypeRef} (represents : source.Represents current element inner)
      (records : source.RecordedFor range domain) :
      Complete (.array element range before) (.array inner range (some domain))
  | sequence {element inner : TypeRef}
      (represents : source.Represents current element inner) :
      Complete (.sequence element) (.sequence inner)
  | leaf {before after : TypeForm} (none : before.element? = none) : Complete before after

structure Synthesized (ref : SymbolRef) (symbol : Symbol) : Prop where
  definition : ∃ declaration, symbol.definition = .statement declaration
  called : ∃ text, current.names.get? symbol.name = some text ∧
    source.Called symbol.type text symbol.scope
  node : ∃ before after, source.types.get? symbol.type = some { form := before, symbol := none } ∧
    current.types.get? symbol.type = some { form := after, symbol := some ref } ∧
    source.Complete current before after
  bound : current.Binds symbol.scope symbol.name ref
  used : ∃ scope, source.UsedIn scope symbol.type
  covered : source.Covered current symbol.type

/-- `current` is what a run that started from `source` has arrived at. -/
structure Tracks : Prop where
  expressions : current.expressions = source.expressions
  names : ∀ name text, source.names.get? name = some text →
    current.names.get? name = some text
  distinct : current.names.Distinct
  types : ∀ type form symbol, source.types.get? type = some { form, symbol } →
    ∃ later holder, current.types.get? type = some { form := later, symbol := holder } ∧
      source.Varies current form later ∧
      (symbol ≠ none → holder = symbol)
  older : ∀ type node, current.types.get? type = some node →
    ∃ old, source.types.get? type = some old
  declared : ∀ type form later ref, source.types.get? type = some { form, symbol := none } →
    current.types.get? type = some { form := later, symbol := some ref } →
    source.symbols.get? ref = none ∧
      ∃ symbol, current.symbols.get? ref = some symbol ∧ symbol.type = type
  symbols : ∀ ref symbol, source.symbols.get? ref = some symbol →
    ∃ type, current.symbols.get? ref = some { symbol with type } ∧
      (type = symbol.type ∨ source.Represents current symbol.type type)
  synthesized : ∀ ref symbol, source.symbols.get? ref = none →
    current.symbols.get? ref = some symbol → source.Synthesized current ref symbol
  scopes : ∀ scope content, source.scopes.get? scope = some content →
    ∃ later, current.scopes.get? scope = some later ∧ later.intrinsic = content.intrinsic
  kept : ∀ scope name ref, source.Binds scope name ref → current.Binds scope name ref
  bound : ∀ scope name ref, current.Binds scope name ref →
    source.Binds scope name ref ∨
      source.symbols.get? ref = none ∧
        ∃ symbol, current.symbols.get? ref = some symbol ∧ symbol.name = name ∧
          symbol.scope = scope
  modules : current.modules = source.modules
  layout : source.layout.Grows current.layout

structure Keeps (source before after : Program) : Prop where
  names : ∀ name text, before.names.get? name = some text →
    after.names.get? name = some text
  symbols : ∀ ref symbol, source.symbols.get? ref = none →
    before.symbols.get? ref = some symbol → after.symbols.get? ref = some symbol

variable {source current}

/-! ## Growing programs -/

namespace Keeps

variable {before middle after : Program}

theorem refl (source program : Program) : Keeps source program program where
  names _ _ named := named
  symbols _ _ _ stored := stored

theorem trans (first : Keeps source before middle) (second : Keeps source middle after) :
    Keeps source before after where
  names name text named := second.names name text (first.names name text named)
  symbols ref symbol fresh stored :=
    second.symbols ref symbol fresh (first.symbols ref symbol fresh stored)

theorem interns (keeps : Keeps source before after) {type canonical : TypeRef}
    (interns : source.Interns before type canonical) :
    source.Interns after type canonical := by
  rcases interns with ⟨anonymous, ref, symbol, text, fresh, stored, same, named, called⟩
  exact ⟨anonymous, ref, symbol, text, fresh, keeps.symbols ref symbol fresh stored, same,
    keeps.names _ _ named, called⟩

theorem represents (keeps : Keeps source before after) {type canonical : TypeRef}
    (represents : source.Represents before type canonical) :
    source.Represents after type canonical := by
  rcases represents with fixed | interns
  · exact .inl fixed
  · exact .inr (keeps.interns interns)

theorem covered (keeps : Keeps source before after) {type : TypeRef}
    (covered : source.Covered before type) : source.Covered after type := by
  intro part member
  rcases covered part member with ⟨canonical, represents⟩
  exact ⟨canonical, keeps.represents represents⟩

theorem replaces (keeps : Keeps source before after) {element inner : TypeRef}
    (replaces : source.Replaces before element inner) :
    source.Replaces after element inner := by
  rcases replaces with same | ⟨represents, covered⟩
  · exact .inl same
  · exact .inr ⟨keeps.represents represents, keeps.covered covered⟩

theorem varies (keeps : Keeps source before after) {first second : TypeForm}
    (varies : source.Varies before first second) : source.Varies after first second := by
  cases varies with
  | same => exact .same _
  | array replaced records => exact .array (keeps.replaces replaced) records
  | sequence replaced => exact .sequence (keeps.replaces replaced)
  | domain ranks => exact .domain ranks

theorem complete (keeps : Keeps source before after) {first second : TypeForm}
    (complete : source.Complete before first second) :
    source.Complete after first second := by
  cases complete with
  | array represents records => exact .array (keeps.represents represents) records
  | sequence represents => exact .sequence (keeps.represents represents)
  | leaf none => exact .leaf none

end Keeps

theorem Fixed.scalar {type : TypeRef} {form : TypeForm} (fixed : source.Fixed type)
    (stored : source.types.get? type = some { form, symbol := none }) : form.Scalar := by
  rcases fixed with ⟨other, symbol, again, settled⟩
  rcases node_unique stored again with ⟨rfl, rfl⟩
  exact settled.resolve_left fun declared => declared rfl

theorem Fixed.declared (scalars : source.ScalarsNamed) {type : TypeRef}
    (fixed : source.Fixed type) :
    ∃ form ref, source.types.get? type = some { form, symbol := some ref } := by
  rcases fixed with ⟨form, symbol, stored, settled⟩
  cases symbol with
  | some ref => exact ⟨form, ref, stored⟩
  | none =>
      rcases settled with declared | scalar
      · exact absurd rfl declared
      · exact absurd scalar (scalars type form stored)

theorem Tracks.declaration_kept (tracks : Tracks source current) {type : TypeRef}
    {form : TypeForm} {ref : SymbolRef}
    (stored : source.types.get? type = some { form, symbol := some ref }) :
    ∃ later, current.types.get? type = some { form := later, symbol := some ref } := by
  rcases tracks.types type form (some ref) stored with ⟨later, holder, found, -, same⟩
  cases same (Option.some_ne_none ref)
  exact ⟨later, found⟩

theorem Varies.shape_eq {before after : TypeForm} (varies : source.Varies current before after) :
    after.shape = before.shape := by
  cases varies <;> rfl

theorem tracks_refl (laid : LaidOut source) : Tracks source source where
  expressions := rfl
  names _ _ named := named
  distinct := laid.distinct
  types _ form symbol stored := ⟨form, symbol, stored, .same form, fun _ => rfl⟩
  older _ node stored := ⟨node, stored⟩
  declared type form later ref anonymous named := by
    rw [anonymous] at named
    simp at named
  symbols ref symbol stored := ⟨symbol.type, stored, .inl rfl⟩
  synthesized ref symbol fresh stored := by
    rw [fresh] at stored
    contradiction
  scopes _ content stored := ⟨content, stored, rfl⟩
  kept _ _ _ binds := binds
  bound _ _ _ binds := .inl binds
  modules := rfl
  layout := .refl _

/-! ## Reading the program that the run started from -/

section

variable (laid : LaidOut source) (tracks : Tracks source current)
include tracks

theorem Tracks.statement_source {ref : StatementRef} {placed : Placed}
    {statement : Statement} (stored : source.layout.statements.get? ref = some placed)
    (found : current.statement ref = .ok statement) : statement = placed.statement := by
  rcases tracks.layout.statements ref placed stored with ⟨later, laterStored, same, -⟩
  rcases Layout.statement_eq_ok_iff.mp found with ⟨_, again⟩
  cases Option.mem_unique laterStored again
  exact same

theorem Tracks.synthesized_of_interns {type canonical : TypeRef}
    (interns : source.Interns current type canonical) :
    ∃ ref symbol text, source.symbols.get? ref = none ∧
      current.symbols.get? ref = some symbol ∧ symbol.type = canonical ∧
      current.names.get? symbol.name = some text ∧
      source.Called type text symbol.scope ∧
      source.Called canonical text symbol.scope ∧
      source.Synthesized current ref symbol := by
  rcases interns with ⟨-, ref, symbol, text, fresh, stored, rfl, named, called⟩
  have synthesized := tracks.synthesized ref symbol fresh stored
  rcases synthesized.called with ⟨other, otherNamed, otherCalled⟩
  cases Option.mem_unique named otherNamed
  exact ⟨ref, symbol, text, fresh, stored, rfl, named, called, otherCalled, synthesized⟩

theorem Tracks.named_of_interns {type canonical : TypeRef}
    (interns : source.Interns current type canonical) :
    ∃ form ref, current.types.get? canonical = some { form, symbol := some ref } := by
  rcases tracks.synthesized_of_interns interns with
    ⟨ref, symbol, _, -, -, rfl, -, -, -, synthesized⟩
  rcases synthesized.node with ⟨_, form, -, stored, -⟩
  exact ⟨form, ref, stored⟩

theorem Tracks.rank?_source {type : TypeRef} {rank : Nat}
    (ranked : current.rank? type = some rank) :
    ∃ original, source.rank? type = some original ∧
      effectiveRank original = effectiveRank rank := by
  rcases rank?_eq_some_iff.mp ranked with ⟨parent, companion, holder, stored⟩
  rcases tracks.older type _ stored with ⟨⟨form, symbol⟩, old⟩
  rcases tracks.types type form symbol old with ⟨later, _, found, varies, -⟩
  rcases node_unique stored found with ⟨rfl, -⟩
  cases varies with
  | same => exact ⟨rank, rank?_eq_some_iff.mpr ⟨_, _, _, old⟩, rfl⟩
  | domain ranks => exact ⟨_, rank?_eq_some_iff.mpr ⟨_, _, _, old⟩, ranks.symm⟩

theorem Tracks.form_source {type : TypeRef} {later : TypeForm} {holder : Option SymbolRef}
    (stored : current.types.get? type = some { form := later, symbol := holder }) :
    ∃ form symbol, source.types.get? type = some { form, symbol } ∧
      source.Varies current form later ∧ (symbol ≠ none → holder = symbol) := by
  rcases tracks.older type _ stored with ⟨⟨form, symbol⟩, old⟩
  rcases tracks.types type form symbol old with ⟨_, _, found, varies, same⟩
  rcases node_unique stored found with ⟨rfl, rfl⟩
  exact ⟨form, symbol, old, varies, same⟩

include laid

theorem Tracks.scope_of_homeBeside {ref : SymbolRef} {symbol : Symbol} {home : Home}
    (stored : current.symbols.get? ref = some symbol)
    (synthesized : source.Synthesized current ref symbol)
    (beside : current.homeBeside ref = .ok home) : home.scope = symbol.scope := by
  rcases synthesized.called with ⟨text, -, called⟩
  rcases called.openScope laid with ⟨content, scopeStored, isOpen⟩
  rcases tracks.scopes _ _ scopeStored with ⟨later, laterStored, sameFlag⟩
  rcases synthesized.definition with ⟨declaration, defined⟩
  rcases homeBeside_eq_ok_iff.mp beside with ⟨other, otherContent, otherStored, otherScope, rfl⟩
  cases Option.mem_unique stored otherStored
  cases Option.mem_unique laterStored otherScope
  split
  · rename_i outside
    rw [sameFlag, isOpen, defined] at outside
    simp only [Bool.false_eq_true, reduceCtorEq, false_or] at outside
    exact outside.symm
  · rfl

theorem Tracks.homeBeside_source {ref : SymbolRef} {symbol : Symbol} {home : Home}
    (stored : source.symbols.get? ref = some symbol)
    (beside : current.homeBeside ref = .ok home) : source.homeBeside ref = .ok home := by
  rcases homeBeside_eq_ok_iff.mp beside with ⟨later, content, laterStored, scopeStored, rfl⟩
  rcases tracks.symbols ref symbol stored with ⟨type, kept, -⟩
  cases Option.mem_unique kept laterStored
  rcases laid.bound ref symbol stored with ⟨_, _, -, old, oldScope, -⟩
  rcases tracks.scopes _ _ oldScope with ⟨_, again, sameFlag⟩
  cases Option.mem_unique scopeStored again
  exact homeBeside_eq_ok_iff.mpr ⟨symbol, old, stored, oldScope, by rw [sameFlag]⟩

theorem Tracks.called_of_named {type canonical : TypeRef} {form : TypeForm}
    {ref : SymbolRef} {text : String} {home : Home}
    (stands : canonical = type ∨ source.Represents current type canonical)
    (stored : current.types.get? canonical = some { form, symbol := some ref })
    (name : current.symbolName ref = .ok text)
    (beside : current.homeBeside ref = .ok home) :
    source.Called type text home.scope := by
  rcases symbolName_eq_ok_iff.mp name with ⟨symbol, symbolStored, named⟩
  have fromAdded : source.symbols.get? ref = none → symbol.type = canonical →
      source.Called canonical text home.scope := by
    intro fresh same
    have synthesized := tracks.synthesized ref symbol fresh symbolStored
    rcases synthesized.called with ⟨other, otherNamed, called⟩
    cases Option.mem_unique named otherNamed
    rw [tracks.scope_of_homeBeside laid symbolStored synthesized beside, ← same]
    exact called
  have itself : canonical = type → source.Called type text home.scope := by
    intro equal
    subst equal
    rcases tracks.form_source stored with ⟨original, holder, old, -, sameHolder⟩
    cases holder with
    | some declaring =>
        cases Option.some.inj (sameHolder (by simp))
        rcases laid.declared _ _ _ old with ⟨symbolBefore, symbolOld, -, -⟩
        rcases tracks.symbols ref symbolBefore symbolOld with ⟨type, kept, -⟩
        cases Option.mem_unique symbolStored kept
        rcases laid.bound _ _ symbolOld with ⟨before, -, oldNamed, -⟩
        have sameText := tracks.names _ _ oldNamed
        cases Option.mem_unique named sameText
        exact .named old (symbolText?_eq_some_iff.mpr ⟨symbolBefore, symbolOld, oldNamed⟩)
          (tracks.homeBeside_source laid symbolOld beside)
    | none =>
        rcases tracks.declared _ _ _ _ old stored with ⟨fresh, other, otherStored, same⟩
        cases Option.mem_unique symbolStored otherStored
        exact fromAdded fresh same
  rcases stands with same | ⟨-, same⟩ | interns
  · exact itself same
  · exact itself same
  · rcases tracks.synthesized_of_interns interns with
      ⟨other, otherSymbol, otherText, fresh, otherStored, rfl, otherNamed, called, -, synthesized⟩
    rcases synthesized.node with ⟨_, _, -, nodeStored, -⟩
    rw [stored] at nodeStored
    simp only [Option.some.injEq, TypeNode.mk.injEq] at nodeStored
    rcases nodeStored with ⟨-, rfl⟩
    cases Option.mem_unique symbolStored otherStored
    cases Option.mem_unique named otherNamed
    rw [tracks.scope_of_homeBeside laid symbolStored synthesized beside]
    exact called

theorem Tracks.exists_homeBeside {type : TypeRef} {form : TypeForm} {ref : SymbolRef}
    (stored : current.types.get? type = some { form, symbol := some ref }) :
    ∃ home, current.homeBeside ref = .ok home := by
  obtain ⟨symbol, scope, symbolStored, scopeStored⟩ :
      ∃ symbol content, current.symbols.get? ref = some symbol ∧
        source.scopes.get? symbol.scope = some content := by
    rcases tracks.form_source stored with ⟨original, holder, old, -, sameHolder⟩
    cases holder with
    | some declaring =>
        cases Option.some.inj (sameHolder (by simp))
        rcases laid.declared _ _ _ old with ⟨symbol, symbolOld, -, -⟩
        rcases tracks.symbols _ symbol symbolOld with ⟨later, kept, -⟩
        rcases laid.bound _ symbol symbolOld with ⟨_, _, -, content, scopeStored, -⟩
        exact ⟨_, content, kept, scopeStored⟩
    | none =>
        rcases tracks.declared _ _ _ _ old stored with ⟨fresh, symbol, symbolStored, -⟩
        rcases (tracks.synthesized ref symbol fresh symbolStored).called with ⟨_, -, called⟩
        rcases called.openScope laid with ⟨content, scopeStored, -⟩
        exact ⟨symbol, content, symbolStored, scopeStored⟩
  rcases tracks.scopes _ _ scopeStored with ⟨later, laterStored, -⟩
  exact ⟨_, homeBeside_eq_ok_iff.mpr ⟨symbol, later, symbolStored, laterStored, rfl⟩⟩

theorem Tracks.called_of_typeName? {type canonical : TypeRef} {text : String}
    (stands : canonical = type ∨ source.Represents current type canonical)
    (name : current.typeName? canonical = .ok (some text)) :
    ∃ scope, source.Called type text scope := by
  rcases typeName?_eq_some_iff.mp name with ⟨form, ref, symbol, stored, symbolStored, named⟩
  rcases tracks.exists_homeBeside laid stored with ⟨home, beside⟩
  exact ⟨home.scope, tracks.called_of_named laid stands stored
    (symbolName_eq_ok_iff.mpr ⟨symbol, symbolStored, named⟩) beside⟩

omit laid in
theorem Tracks.rank?_of_stands {type canonical : TypeRef} {rank : Nat}
    (stands : canonical = type ∨ source.Represents current type canonical)
    (ranked : source.rank? canonical = some rank) :
    ∃ original, source.rank? type = some original ∧
      effectiveRank original = effectiveRank rank := by
  rcases stands with rfl | ⟨-, rfl⟩ | interns
  · exact ⟨rank, ranked, rfl⟩
  · exact ⟨rank, ranked, rfl⟩
  · rcases tracks.synthesized_of_interns interns with
      ⟨ref, symbol, text, -, -, rfl, -, called, canonicalCalled, synthesized⟩
    rcases interns with ⟨⟨form, anonymous⟩, -⟩
    rcases synthesized.node with ⟨_, _, canonicalAnonymous, -, -⟩
    rcases rank?_eq_some_iff.mp ranked with ⟨parent, companion, holder, stored⟩
    rcases node_unique canonicalAnonymous stored with ⟨rfl, -⟩
    have shapes := called.shape_eq canonicalCalled anonymous canonicalAnonymous
    cases form with
    | domain original parent companion =>
        exact ⟨original, rank?_eq_some_iff.mpr ⟨_, _, _, anonymous⟩,
          called.effectiveRank_eq canonicalCalled anonymous canonicalAnonymous⟩
    | _ => simp [TypeForm.shape] at shapes

theorem Tracks.rangeRank?_source {range : ExpressionRef} {domain : TypeRef} {rank : Nat}
    (ranges : current.rangeDomain? range = some domain)
    (ranked : current.rank? domain = some rank) :
    (∃ original, source.rangeRank? range = some original ∧
      effectiveRank original = effectiveRank rank) ∧
    ∃ recorded, source.rank? domain = some recorded ∧
      effectiveRank recorded = effectiveRank rank := by
  rcases tracks.rank?_source ranked with ⟨recorded, recordedRank, sameRecorded⟩
  refine ⟨?_, recorded, recordedRank, sameRecorded⟩
  rcases rangeDomain?_eq_some_iff.mp ranges with
    ⟨single, ref, symbol, iterates, refers, stored, rfl⟩
  rw [tracks.expressions] at iterates refers
  rcases laid.references single ref refers with ⟨old, oldStored⟩
  rcases tracks.symbols ref old oldStored with ⟨type, kept, stands⟩
  cases Option.mem_unique stored kept
  rcases tracks.rank?_of_stands stands recordedRank with ⟨original, originalRank, same⟩
  refine ⟨original, ?_, same.trans sameRecorded⟩
  have ranges : source.rangeDomain? range = some old.type :=
    rangeDomain?_eq_some_iff.mpr ⟨single, ref, old, iterates, refers, oldStored, rfl⟩
  simp only [rangeRank?, ranges, Option.bind_eq_bind, Option.bind_some, originalRank]

omit tracks laid in
theorem Called.domainName? {type : TypeRef} {text : String} {scope : ScopeRef}
    (called : source.Called type text scope) {rank : Nat}
    (ranked : source.rank? type = some rank) : source.domainName? type = some text := by
  rcases rank?_eq_some_iff.mp ranked with ⟨parent, companion, holder, stored⟩
  cases holder with
  | none =>
      rcases called.eq_domain stored with ⟨rfl, rfl, -⟩
      simp only [Program.domainName?, stored]
  | some ref =>
      cases called with
      | named found name _ =>
          rw [stored] at found
          simp only [Option.some.injEq, TypeNode.mk.injEq] at found
          rcases found with ⟨rfl, rfl⟩
          simp only [Program.domainName?, stored, name]
      | array found _ _ | sequence found _ | domain found | tuple found _
      | ofLiteral found _ | ofVariable found _ _ _ _ =>
          rw [stored] at found
          simp at found

/-- A variable denotes what it denoted, since no declaration that was added hides it. -/
theorem Tracks.denotedIn?_source (unreserved : source.Unreserved) {scope : ScopeRef}
    {ref : SymbolRef} {old : Symbol} {domain : TypeRef} {rank : Nat} {text : String}
    (oldStored : source.symbols.get? ref = some old)
    (denoted : current.denotedIn? scope ref = some domain)
    (ranked : current.rank? domain = some rank)
    (name : current.typeName? domain = .ok (some text)) :
    ∃ original, source.denotedIn? scope ref = some original ∧
      source.domainName? original = some text := by
  rcases denotedIn?_eq_some_iff.mp denoted with
    ⟨symbol, found, other, stored, binds, otherStored, rfl⟩
  rcases tracks.symbols ref old oldStored with ⟨type, kept, -⟩
  cases Option.mem_unique stored kept
  have oldBinds : source.Binds scope old.name found := by
    rcases tracks.bound _ _ _ binds with oldBinds | ⟨fresh, again, againStored, sameName, -⟩
    · exact oldBinds
    · cases Option.mem_unique otherStored againStored
      have synthesized := tracks.synthesized found other fresh otherStored
      rcases synthesized.called with ⟨reservedText, reservedNamed, called⟩
      rcases synthesized.node with ⟨_, _, anonymous, -⟩
      rcases laid.bound ref old oldStored with ⟨oldText, _, oldNamed, ownBinds⟩
      have sameText := tracks.names _ _ oldNamed
      rw [sameName] at reservedNamed
      cases Option.mem_unique reservedNamed sameText
      exact absurd (called.reserved anonymous)
        (unreserved _ (mem_boundNames ownBinds oldNamed))
  rcases laid.bindings _ _ _ oldBinds with ⟨-, before, beforeStored⟩
  rcases tracks.symbols found before beforeStored with ⟨later, keptOther, stands⟩
  cases Option.mem_unique otherStored keptOther
  rcases tracks.called_of_typeName? laid stands name with ⟨home, called⟩
  rcases tracks.rank?_source ranked with ⟨recorded, recordedRank, -⟩
  rcases tracks.rank?_of_stands stands recordedRank with ⟨original, originalRank, -⟩
  exact ⟨before.type,
    denotedIn?_eq_some_iff.mpr ⟨old, found, before, oldStored, oldBinds, beforeStored, rfl⟩,
    called.domainName? originalRank⟩

end

end Program

end StructuralTypes
