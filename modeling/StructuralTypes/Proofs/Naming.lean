import Mathlib.Data.List.Nodup
import StructuralTypes.Proofs.Settlement

/-! The declarations that a program needs, computed from the program as it was written:
the name of each type that its variables use and the scope that the name belongs to. The
walk over the variables adds these declarations, each of them once, and no others. -/

namespace StructuralTypes

namespace Program

variable (program : Program)

/-- Name of the domain that a variable denotes for the first user of an index type for
whom it denotes one. -/
def usedDomainName? (type : TypeRef) (ref : SymbolRef) : Option String :=
  program.declaredVariables.findSome? fun var => do
    let symbol ← program.symbols.get? var
    if type ∈ program.chain symbol.type then
      program.domainName? (← program.denotedIn? symbol.scope ref)
    else none

/-- Name that a type has, or is to be declared under. The parts of a type are older than
the type, so they are named first. -/
def nameOf (type : TypeRef) : Option String :=
  match program.types.get? type with
  | none => none
  | some { symbol := some ref, .. } => program.symbolText? ref
  | some { form := .array element range _, symbol := none } =>
      if _below : element.index < type.index then do
        return (CanonicalKey.array (← nameOf element) (← program.rangeRank? range)).name
      else none
  | some { form := .sequence element, symbol := none } =>
      if _below : element.index < type.index then do
        return (CanonicalKey.sequence (← nameOf element)).name
      else none
  | some { form := .domain rank none _, symbol := none } =>
      some (CanonicalKey.domain rank).name
  | some { form := .tuple components, symbol := none } => do
      let names ← components.mapM fun component =>
        if _below : component.index < type.index then nameOf component else none
      return (CanonicalKey.tuple names).name
  | some { form := .index subject, symbol := none } =>
      match program.expressions.get? subject with
      | some (.literal value) => some (CanonicalKey.indexOfLiteral value).name
      | some (.reference ref) => do
          return (CanonicalKey.indexOfDomain (← program.usedDomainName? type ref)).name
      | _ => none
  | some { symbol := none, .. } => none
termination_by type.index

/-- Scope that a type is to be declared in. A type that has a declaration draws what is
built over it there: into the scope of the declaration, if that is a lexical one. -/
def ownerOf (type : TypeRef) : Option ScopeRef :=
  match program.types.get? type with
  | none => none
  | some { symbol := some ref, .. } =>
      match program.homeBeside ref with
      | .ok home => some home.scope
      | .error _ => none
  | some { form := .array element _ _, symbol := none }
  | some { form := .sequence element, symbol := none } =>
      if _below : element.index < type.index then ownerOf element else none
  | some { form := .domain .., symbol := none }
  | some { form := .tuple _, symbol := none }
  | some { form := .index _, symbol := none } => some sharedScope
  | some { symbol := none, .. } => none
termination_by type.index

/-- The same index type has the same name for all its users that have one for it. -/
def IndexUsesAgree : Prop :=
  ∀ type subject ref, program.types.get? type = some { form := .index subject, symbol := none } →
    program.expressions.get? subject = some (.reference ref) →
    ∀ first second firstDomain secondDomain firstName secondName,
      program.UsedIn first type → program.UsedIn second type →
      program.denotedIn? first ref = some firstDomain →
      program.denotedIn? second ref = some secondDomain →
      program.domainName? firstDomain = some firstName →
      program.domainName? secondDomain = some secondName → firstName = secondName

variable {program}

theorem indexUsesAgree_of_scope {scope : ScopeRef}
    (alone : ∀ var symbol, program.symbols.get? var = some symbol →
      var ∈ program.declaredVariables → symbol.scope = scope) : program.IndexUsesAgree := by
  have here : ∀ {user type}, program.UsedIn user type → user = scope := by
    intro user type holds
    rcases holds with ⟨var, declared, symbol, stored, rfl, -⟩
    exact alone var symbol stored declared
  intro type subject ref _ _ first second firstDomain secondDomain firstName secondName
    firstUsed secondUsed firstFound secondFound firstNamed secondNamed
  cases here firstUsed
  cases here secondUsed
  cases Option.mem_unique firstFound secondFound
  rw [firstNamed] at secondNamed
  exact Option.some.inj secondNamed

theorem mapM_eq_some {α β : Type} {answer : α → Option β} {value : α → β}
    {elements : List α} (answers : ∀ element ∈ elements, answer element = some (value element)) :
    elements.mapM answer = some (elements.map value) := by
  induction elements with
  | nil => rfl
  | cons head tail induction =>
      rw [List.mapM_cons, answers head List.mem_cons_self,
        induction fun element member => answers element (List.mem_cons_of_mem _ member)]
      rfl

theorem usedDomainName?_eq_some (agree : program.IndexUsesAgree) {type domain : TypeRef}
    {subject : ExpressionRef} {ref : SymbolRef} {scope : ScopeRef} {text : String}
    (stored : program.types.get? type = some { form := .index subject, symbol := none })
    (denotes : program.expressions.get? subject = some (.reference ref))
    (used : program.UsedIn scope type) (found : program.denotedIn? scope ref = some domain)
    (name : program.domainName? domain = some text) :
    program.usedDomainName? type ref = some text := by
  have someUser : (program.usedDomainName? type ref).isSome := by
    rcases used with ⟨var, declared, symbol, symbolStored, rfl, member⟩
    refine List.findSome?_isSome_iff.mpr ⟨var, declared, ?_⟩
    simp [symbolStored, member, found, name]
  rcases Option.isSome_iff_exists.mp someUser with ⟨other, same⟩
  rcases List.exists_of_findSome?_eq_some same with ⟨var, declared, answered⟩
  simp only [Option.bind_eq_bind, Option.bind_eq_some_iff] at answered
  rcases answered with ⟨symbol, symbolStored, answered⟩
  split at answered
  · rename_i member
    rcases Option.bind_eq_some_iff.mp answered with ⟨otherDomain, otherFound, otherName⟩
    have otherUsed : program.UsedIn symbol.scope type :=
      ⟨var, declared, symbol, symbolStored, rfl, member⟩
    rw [same, agree type subject ref stored denotes _ _ _ _ _ _ otherUsed used otherFound found
      otherName name]
  · contradiction

theorem Called.nameOf (laid : LaidOut program) (agree : program.IndexUsesAgree)
    {type : TypeRef} {text : String} {scope : ScopeRef}
    (called : program.Called type text scope) :
    program.nameOf type = some text ∧ program.ownerOf type = some scope := by
  induction called with
  | named stored name beside =>
      rw [Program.nameOf, ownerOf, stored]
      simp only [name, beside, and_self]
  | array stored ranked inner induction =>
      have below := element_below laid stored rfl
      rw [Program.nameOf, ownerOf, stored]
      simp only [dif_pos below, induction, ranked, Option.bind_eq_bind, Option.bind_some,
        Option.pure_def, and_self]
  | sequence stored inner induction =>
      have below := element_below laid stored rfl
      rw [Program.nameOf, ownerOf, stored]
      simp only [dif_pos below, induction, Option.bind_eq_bind, Option.bind_some,
        Option.pure_def, and_self]
  | domain stored =>
      rw [Program.nameOf, ownerOf, stored]
      simp only [and_self]
  | @tuple type components text scope stored each induction =>
      have named : (components.mapM fun component =>
          if _below : component.index < type.index then program.nameOf component else none) =
            some (components.map text) := by
        refine mapM_eq_some fun component member => ?_
        have below := laid.parts_below type _ stored component member
        rw [dif_pos below]
        exact (induction component member).1
      rw [Program.nameOf, ownerOf, stored]
      simp only [named, Option.bind_eq_bind, Option.bind_some, Option.pure_def, and_self]
  | ofLiteral stored denotes =>
      rw [Program.nameOf, ownerOf, stored]
      simp only [denotes, and_self]
  | ofVariable stored denotes used found name =>
      rw [Program.nameOf, ownerOf, stored]
      simp only [denotes, usedDomainName?_eq_some agree stored denotes used found name,
        Option.bind_eq_bind, Option.bind_some, Option.pure_def, and_self]

def addedDeclarations (before after : Program) : List (ScopeRef × String) :=
  after.symbols.refs.filterMap fun ref =>
    if ref.index < before.symbols.size then none
    else do
      let symbol ← after.symbols.get? ref
      return (symbol.scope, ← after.names.get? symbol.name)

def Reached (program : Program) (type : TypeRef) : Prop :=
  (∃ scope, program.UsedIn scope type) ∧
  ∃ form, program.types.get? type = some { form, symbol := none } ∧ ¬form.Scalar

variable {source current : Program}

theorem get?_eq_none_iff {ref : SymbolRef} :
    source.symbols.get? ref = none ↔ ¬ref.index < source.symbols.size := by
  rw [← Arena.get?_isSome_iff, Bool.not_eq_true, Option.isSome_eq_false_iff,
    Option.isNone_iff_eq_none]

theorem declaration_eq_some_iff {ref : SymbolRef} {scope : ScopeRef} {text : String} :
    (if ref.index < source.symbols.size then none
      else do
        let symbol ← current.symbols.get? ref
        return (symbol.scope, ← current.names.get? symbol.name)) = some (scope, text) ↔
      source.symbols.get? ref = none ∧ ∃ symbol, current.symbols.get? ref = some symbol ∧
        symbol.scope = scope ∧ current.names.get? symbol.name = some text := by
  rw [get?_eq_none_iff]
  constructor
  · intro answered
    split at answered
    · contradiction
    · rename_i isNew
      simp only [Option.bind_eq_bind, Option.bind_eq_some_iff, Option.pure_def,
        Option.some.injEq, Prod.mk.injEq] at answered
      rcases answered with ⟨symbol, stored, name, named, rfl, rfl⟩
      exact ⟨isNew, symbol, stored, rfl, named⟩
  · intro holds
    rcases holds with ⟨isNew, symbol, stored, rfl, named⟩
    simp [isNew, stored, named]

theorem mem_addedDeclarations_iff {scope : ScopeRef} {text : String} :
    (scope, text) ∈ addedDeclarations source current ↔
      ∃ ref symbol, source.symbols.get? ref = none ∧ current.symbols.get? ref = some symbol ∧
        symbol.scope = scope ∧ current.names.get? symbol.name = some text := by
  simp only [addedDeclarations, List.mem_filterMap, declaration_eq_some_iff]
  constructor
  · intro holds
    rcases holds with ⟨ref, -, isNew, symbol, stored, facts⟩
    exact ⟨ref, symbol, isNew, stored, facts⟩
  · intro holds
    rcases holds with ⟨ref, symbol, isNew, stored, facts⟩
    exact ⟨ref, Arena.mem_refs_iff.mpr (Arena.lt_size_of_get? stored), isNew, symbol, stored,
      facts⟩

theorem Tracks.nodup_addedDeclarations (tracks : Tracks source current) :
    (addedDeclarations source current).Nodup := by
  refine List.Nodup.filterMap ?_ ?_
  · intro left right holds atLeft atRight
    rcases holds with ⟨scope, text⟩
    rcases declaration_eq_some_iff.mp atLeft with ⟨leftNew, leftSymbol, leftStored, rfl, leftNamed⟩
    rcases declaration_eq_some_iff.mp atRight with
      ⟨rightNew, rightSymbol, rightStored, sameScope, rightNamed⟩
    have leftBound := (tracks.synthesized left leftSymbol leftNew leftStored).bound
    have rightBound := (tracks.synthesized right rightSymbol rightNew rightStored).bound
    rw [sameScope, tracks.distinct _ _ _ rightNamed leftNamed] at rightBound
    exact binds_unique leftBound rightBound
  · refine List.Nodup.map ?_ List.nodup_range
    intro left right same
    exact (Ref.mk.inj same)

theorem Resolved.typeName? (laid : LaidOut source) (scalars : source.ScalarsNamed)
    (agree : source.IndexUsesAgree) (tracks : Tracks source current) {var : SymbolRef}
    (resolved : source.Resolved current var) :
    ∃ old new text, source.symbols.get? var = some old ∧
      current.symbols.get? var = some new ∧
      current.typeName? new.type = .ok (some text) ∧ source.nameOf old.type = some text := by
  rcases resolved with ⟨old, type, oldStored, newStored, represents, -⟩
  have named : ∃ text, current.typeName? type = .ok (some text) := by
    rcases represents with ⟨fixed, rfl⟩ | interns
    · rcases fixed.declared scalars with ⟨_, ref, stored⟩
      rcases tracks.declaration_kept stored with ⟨later, found⟩
      rcases laid.declared _ _ _ stored with ⟨symbol, symbolStored, -, -⟩
      rcases laid.bound _ _ symbolStored with ⟨text, -, named, -⟩
      rcases tracks.symbols _ _ symbolStored with ⟨_, kept, -⟩
      exact ⟨text, typeName?_eq_some_iff.mpr
        ⟨_, _, _, found, kept, tracks.names _ _ named⟩⟩
    · rcases tracks.synthesized_of_interns interns with
        ⟨ref, symbol, text, -, symbolStored, rfl, symbolNamed, -, -, synthesized⟩
      rcases synthesized.node with ⟨_, _, -, stored, -⟩
      exact ⟨text, typeName?_eq_some_iff.mpr ⟨_, _, _, stored, symbolStored, symbolNamed⟩⟩
  rcases named with ⟨text, name⟩
  rcases tracks.called_of_typeName? laid (.inr represents) name with ⟨scope, called⟩
  exact ⟨old, _, text, oldStored, newStored, name, (called.nameOf laid agree).1⟩

theorem Tracks.exists_reached_of_added (laid : LaidOut source) (scalars : source.ScalarsNamed)
    (agree : source.IndexUsesAgree) (tracks : Tracks source current) {scope : ScopeRef}
    {text : String} (added : (scope, text) ∈ addedDeclarations source current) :
    ∃ type, source.Reached type ∧ source.ownerOf type = some scope ∧
      source.nameOf type = some text := by
  rcases mem_addedDeclarations_iff.mp added with ⟨ref, symbol, isNew, stored, rfl, named⟩
  have synthesized := tracks.synthesized ref symbol isNew stored
  rcases synthesized.called with ⟨other, otherNamed, called⟩
  cases Option.mem_unique named otherNamed
  rcases called.nameOf laid agree with ⟨name, owner⟩
  rcases synthesized.node with ⟨form, _, anonymous, -, -⟩
  exact ⟨symbol.type, ⟨synthesized.used, form, anonymous, scalars _ _ anonymous⟩, owner, name⟩

theorem exists_added_of_reached (laid : LaidOut source) (agree : source.IndexUsesAgree)
    (resolved : ∀ var ∈ source.declaredVariables, source.Resolved current var)
    {type : TypeRef} (reached : source.Reached type) :
    ∃ scope text, source.ownerOf type = some scope ∧ source.nameOf type = some text ∧
      (scope, text) ∈ addedDeclarations source current := by
  rcases reached with
    ⟨⟨_, var, declared, symbol, symbolStored, rfl, member⟩, form, stored, structural⟩
  rcases resolved var declared with ⟨old, _, oldStored, -, -, covered⟩
  cases Option.mem_unique symbolStored oldStored
  rcases covered type member with ⟨canonical, ⟨fixed, -⟩ | interns⟩
  · exact absurd (fixed.scalar stored) structural
  · rcases interns with ⟨-, ref, added, text, isNew, addedStored, -, named, called⟩
    rcases called.nameOf laid agree with ⟨name, owner⟩
    exact ⟨added.scope, text, owner, name,
      mem_addedDeclarations_iff.mpr ⟨ref, added, isNew, addedStored, rfl, named⟩⟩

end Program

/-- The walk over the variables of a program adds the declarations that the program as
written asks for: one for each scope and name that a type in use needs, none twice, and
no others. Each variable then has a type with the name of the type it was declared with. -/
theorem variableTypes_adds_what_is_needed {calls : List Call} {source : Program}
    {own : Progress Unit} {final : Walker (Progress Unit)}
    (built : layOut calls = .ok source) (scalars : source.ScalarsNamed)
    (unreserved : source.Unreserved) (agree : source.IndexUsesAgree)
    (ran : (variableTypes .silent).walkProgram ⟨source, own⟩ = .ok () final) :
    (∀ scope text, (scope, text) ∈ Program.addedDeclarations source final.program ↔
      ∃ type, source.Reached type ∧ source.ownerOf type = some scope ∧
        source.nameOf type = some text) ∧
    (∀ type, source.Reached type → ∃ scope text, source.ownerOf type = some scope ∧
      source.nameOf type = some text) ∧
    (Program.addedDeclarations source final.program).Nodup ∧
    ∀ var ∈ source.declaredVariables, ∃ old new text, source.symbols.get? var = some old ∧
      final.program.symbols.get? var = some new ∧
      final.program.typeName? new.type = .ok (some text) ∧
      source.nameOf old.type = some text := by
  have laid := laidOut_of_layOut built
  rcases Program.resolved_of_walkProgram laid unreserved ran with ⟨tracks, resolved⟩
  refine ⟨fun scope text => ⟨?_, ?_⟩, ?_, tracks.nodup_addedDeclarations, ?_⟩
  · intro member
    exact tracks.exists_reached_of_added laid scalars agree member
  · intro holds
    rcases holds with ⟨type, reached, owner, name⟩
    rcases Program.exists_added_of_reached laid agree resolved reached with
      ⟨otherScope, otherText, otherOwner, otherName, member⟩
    rw [owner] at otherOwner
    rw [name] at otherName
    cases Option.some.inj otherOwner
    cases Option.some.inj otherName
    exact member
  · intro type reached
    rcases Program.exists_added_of_reached laid agree resolved reached with
      ⟨scope, text, owner, name, -⟩
    exact ⟨scope, text, owner, name⟩
  · intro var declared
    exact (resolved var declared).typeName? laid scalars agree tracks

def indexArrayCalls : List Call :=
  [.addModule, .addType (.domain 0 none none), .declareVar ⟨1⟩ "D" ⟨7⟩,
    .addExpression (.reference ⟨7⟩), .addExpression (.iteration [⟨0⟩]),
    .addType (.index ⟨0⟩), .addType (.array ⟨8⟩ ⟨1⟩ none), .declareVar ⟨1⟩ "a" ⟨9⟩]

theorem variableTypes_adds_what_an_array_needs :
    ∃ source final, layOut indexArrayCalls = .ok source ∧
      (variableTypes .silent).walkProgram ⟨source, { journal := () }⟩ = .ok () final ∧
      ∃ type, source.Reached type ∧ source.ownerOf type = some Program.sharedScope ∧
        source.nameOf type = some "_array__index__domain_1d_1d" := by
  obtain ⟨source, isBuilt, scalars, unreserved, alone, final, isFinal, added⟩ :
    ∃ source ∈ (layOut indexArrayCalls).toOption, source.ScalarsNamed ∧ source.Unreserved ∧
      (∀ var symbol, source.symbols.get? var = some symbol →
        var ∈ source.declaredVariables → symbol.scope = ⟨2⟩) ∧
      ∃ final ∈ finished? ((variableTypes .silent).walkProgram ⟨source, { journal := () }⟩),
        (Program.sharedScope, "_array__index__domain_1d_1d") ∈
          Program.addedDeclarations source final.program := by
    decide +kernel
  have built := Except.toOption_eq_some_iff.mp isBuilt
  have ran := finished?_eq_some_iff.mp isFinal
  have needed := (variableTypes_adds_what_is_needed built scalars unreserved
    (Program.indexUsesAgree_of_scope alone) ran).1
  exact ⟨source, final, built, ran, (needed _ _).mp added⟩

/-- Two modules with a domain `D` each. An index type over the first `D` is used in both,
the second time in a sequence; another one is used in the second module only. -/
def sharedIndexCalls : List Call :=
  [.addModule, .addModule,
    .addType (.domain 1 none none), .declareVar ⟨1⟩ "D" ⟨7⟩,
    .addExpression (.reference ⟨7⟩), .addType (.index ⟨0⟩), .declareVar ⟨1⟩ "first" ⟨8⟩,
    .addType (.domain 2 none none), .declareVar ⟨2⟩ "D" ⟨9⟩,
    .addType (.sequence ⟨8⟩), .declareVar ⟨2⟩ "left" ⟨10⟩,
    .addType (.index ⟨0⟩), .addType (.sequence ⟨11⟩), .declareVar ⟨2⟩ "right" ⟨12⟩]

/-- Without agreement the names do not follow from the types, not even if a name may depend
on the scope of the variable: the first use of an index type decides for all others. -/
theorem exists_types_without_structural_names :
    ∃ source final, layOut sharedIndexCalls = .ok source ∧ source.ScalarsNamed ∧
      source.Unreserved ∧
      (variableTypes .silent).walkProgram ⟨source, { journal := () }⟩ = .ok () final ∧
      ∀ name : ScopeRef → TypeRef → Option String,
        (∀ scope type element,
          source.types.get? type = some { form := .sequence element, symbol := none } →
          name scope type =
            (name scope element).map fun text => (CanonicalKey.sequence text).name) →
        (∀ scope first second subject,
          source.types.get? first = some { form := .index subject, symbol := none } →
          source.types.get? second = some { form := .index subject, symbol := none } →
          name scope first = name scope second) →
        ¬∀ var ∈ source.declaredVariables, ∀ symbol canonical,
          source.symbols.get? var = some symbol →
          final.program.typeOf? var = some canonical →
          final.program.typeName? canonical = .ok (name symbol.scope symbol.type) := by
  obtain ⟨source, isBuilt, scalars, unreserved, left, right, ⟨leftSymbol, leftStored, leftTyped⟩,
      ⟨rightSymbol, rightStored, rightTyped⟩, leftSequence, rightSequence, leftIndex, rightIndex,
      final, isFinal, leftFinal, rightFinal, leftName, rightName⟩ :
    ∃ source ∈ (layOut sharedIndexCalls).toOption, source.ScalarsNamed ∧ source.Unreserved ∧
      ⟨10⟩ ∈ source.declaredVariables ∧ ⟨11⟩ ∈ source.declaredVariables ∧
      (∃ symbol ∈ source.symbols.get? ⟨10⟩, symbol.type = ⟨10⟩ ∧ symbol.scope = ⟨3⟩) ∧
      (∃ symbol ∈ source.symbols.get? ⟨11⟩, symbol.type = ⟨12⟩ ∧ symbol.scope = ⟨3⟩) ∧
      source.types.get? ⟨10⟩ = some { form := .sequence ⟨8⟩, symbol := none } ∧
      source.types.get? ⟨12⟩ = some { form := .sequence ⟨11⟩, symbol := none } ∧
      source.types.get? ⟨8⟩ = some { form := .index ⟨0⟩, symbol := none } ∧
      source.types.get? ⟨11⟩ = some { form := .index ⟨0⟩, symbol := none } ∧
      ∃ final ∈ finished? ((variableTypes .silent).walkProgram ⟨source, { journal := () }⟩),
        final.program.typeOf? ⟨10⟩ = some ⟨10⟩ ∧ final.program.typeOf? ⟨11⟩ = some ⟨12⟩ ∧
        (final.program.typeName? ⟨10⟩).toOption = some (some "_seq__index__domain_1d") ∧
        (final.program.typeName? ⟨12⟩).toOption = some (some "_seq__index__domain_2d") := by
    decide +kernel
  refine ⟨source, final, Except.toOption_eq_some_iff.mp isBuilt, scalars, unreserved,
    finished?_eq_some_iff.mp isFinal, ?_⟩
  intro name ofSequence ofIndex named
  have leftNamed := named ⟨10⟩ left leftSymbol ⟨10⟩ leftStored leftFinal
  have rightNamed := named ⟨11⟩ right rightSymbol ⟨12⟩ rightStored rightFinal
  rw [Except.toOption_eq_some_iff.mp leftName, leftTyped.1, leftTyped.2,
    ofSequence ⟨3⟩ ⟨10⟩ ⟨8⟩ leftSequence] at leftNamed
  rw [Except.toOption_eq_some_iff.mp rightName, rightTyped.1, rightTyped.2,
    ofSequence ⟨3⟩ ⟨12⟩ ⟨11⟩ rightSequence,
    ← ofIndex ⟨3⟩ ⟨8⟩ ⟨11⟩ ⟨0⟩ leftIndex rightIndex, ← leftNamed] at rightNamed
  simp at rightNamed

end StructuralTypes
