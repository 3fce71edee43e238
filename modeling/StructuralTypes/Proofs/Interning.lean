import StructuralTypes.Proofs.Completion
import StructuralTypes.Proofs.Naming

/-! Types that are written alike become one type. They are called alike, whatever else
the program declares and in whatever order the walk comes to them, and a scope has one
declaration of a name at most. -/

namespace StructuralTypes

namespace Program

variable (program : Program)

/-- One domain, or domains without a declaration and without a parent that have the same
effective rank. -/
def SameDomain (left right : TypeRef) : Prop :=
  left = right ∨ ∃ leftRank rightRank leftCompanion rightCompanion,
    program.types.get? left =
      some { form := .domain leftRank none leftCompanion, symbol := none } ∧
    program.types.get? right =
      some { form := .domain rightRank none rightCompanion, symbol := none } ∧
    effectiveRank leftRank = effectiveRank rightRank

/-- Types that are written alike. What has a declaration is like itself only. Index types
of variables are alike if the variables denote the same domain to all of their users. -/
inductive Alike : TypeRef → TypeRef → Prop
  | same {type : TypeRef} (fixed : program.Fixed type) : Alike type type
  | array {left right leftElement rightElement : TypeRef}
      {leftRange rightRange : ExpressionRef} {leftRecorded rightRecorded : Option TypeRef}
      (leftStored : program.types.get? left =
        some { form := .array leftElement leftRange leftRecorded, symbol := none })
      (rightStored : program.types.get? right =
        some { form := .array rightElement rightRange rightRecorded, symbol := none })
      (ranks : ∀ leftRank rightRank, program.rangeRank? leftRange = some leftRank →
        program.rangeRank? rightRange = some rightRank →
        effectiveRank leftRank = effectiveRank rightRank)
      (elements : Alike leftElement rightElement) : Alike left right
  | sequence {left right leftElement rightElement : TypeRef}
      (leftStored : program.types.get? left =
        some { form := .sequence leftElement, symbol := none })
      (rightStored : program.types.get? right =
        some { form := .sequence rightElement, symbol := none })
      (elements : Alike leftElement rightElement) : Alike left right
  | domain {left right : TypeRef} {leftRank rightRank : Nat}
      {leftCompanion rightCompanion : Option TypeRef}
      (leftStored : program.types.get? left =
        some { form := .domain leftRank none leftCompanion, symbol := none })
      (rightStored : program.types.get? right =
        some { form := .domain rightRank none rightCompanion, symbol := none })
      (ranks : effectiveRank leftRank = effectiveRank rightRank) : Alike left right
  | tuple {left right : TypeRef} {leftComponents rightComponents : List TypeRef}
      (leftStored : program.types.get? left =
        some { form := .tuple leftComponents, symbol := none })
      (rightStored : program.types.get? right =
        some { form := .tuple rightComponents, symbol := none })
      (lengths : leftComponents.length = rightComponents.length)
      (each : ∀ pair ∈ leftComponents.zip rightComponents, Alike pair.1 pair.2) :
      Alike left right
  | ofLiteral {left right : TypeRef} {leftSubject rightSubject : ExpressionRef} {value : Int}
      (leftStored : program.types.get? left =
        some { form := .index leftSubject, symbol := none })
      (rightStored : program.types.get? right =
        some { form := .index rightSubject, symbol := none })
      (leftDenotes : program.expressions.get? leftSubject = some (.literal value))
      (rightDenotes : program.expressions.get? rightSubject = some (.literal value)) :
      Alike left right
  | ofVariable {left right : TypeRef} {leftSubject rightSubject : ExpressionRef}
      {leftRef rightRef : SymbolRef}
      (leftStored : program.types.get? left =
        some { form := .index leftSubject, symbol := none })
      (rightStored : program.types.get? right =
        some { form := .index rightSubject, symbol := none })
      (leftDenotes : program.expressions.get? leftSubject = some (.reference leftRef))
      (rightDenotes : program.expressions.get? rightSubject = some (.reference rightRef))
      (agree : ∀ leftUser rightUser leftDomain rightDomain,
        program.UsedIn leftUser left → program.UsedIn rightUser right →
        program.denotedIn? leftUser leftRef = some leftDomain →
        program.denotedIn? rightUser rightRef = some rightDomain →
        program.SameDomain leftDomain rightDomain) : Alike left right

variable {program}

theorem SameDomain.domainName?_eq {left right : TypeRef}
    (same : program.SameDomain left right) :
    program.domainName? left = program.domainName? right := by
  rcases same with rfl | ⟨_, _, _, _, leftStored, rightStored, ranks⟩
  · rfl
  · simp only [domainName?, leftStored, rightStored, CanonicalKey.name_domain_congr ranks]

theorem map_eq_map_of_zip {α β : Type} {left right : List α} {first second : α → β}
    (lengths : left.length = right.length)
    (same : ∀ pair ∈ left.zip right, first pair.1 = second pair.2) :
    left.map first = right.map second := by
  induction left generalizing right with
  | nil => rw [List.length_eq_zero_iff.mp lengths.symm]; rfl
  | cons head tail induction =>
      cases right with
      | nil => simp at lengths
      | cons other rest =>
          rw [List.map_cons, List.map_cons, same (head, other) List.mem_cons_self,
            induction (Nat.succ.inj lengths) fun pair member =>
              same pair (List.mem_cons_of_mem _ member)]

theorem Fixed.called_unique {type : TypeRef} (fixed : program.Fixed type)
    {leftText rightText : String} {leftScope rightScope : ScopeRef}
    (leftCalled : program.Called type leftText leftScope)
    (rightCalled : program.Called type rightText rightScope) :
    leftText = rightText ∧ leftScope = rightScope := by
  rcases fixed with ⟨form, symbol, stored, settled⟩
  cases symbol with
  | none =>
      rcases settled with declared | scalar
      · exact absurd rfl declared
      · exact absurd scalar (leftCalled.not_scalar stored)
  | some ref =>
      rcases leftCalled.of_named stored with ⟨leftName, leftHome, leftBeside, rfl⟩
      rcases rightCalled.of_named stored with ⟨rightName, rightHome, rightBeside, rfl⟩
      rw [leftName] at rightName
      rw [leftBeside] at rightBeside
      exact ⟨Option.some.inj rightName, congrArg Home.scope (Except.ok.inj rightBeside)⟩

theorem Alike.called_eq {left right : TypeRef} (alike : program.Alike left right)
    {leftText rightText : String} {leftScope rightScope : ScopeRef}
    (leftCalled : program.Called left leftText leftScope)
    (rightCalled : program.Called right rightText rightScope) :
    leftText = rightText ∧ leftScope = rightScope := by
  induction alike generalizing leftText rightText leftScope rightScope with
  | same fixed => exact fixed.called_unique leftCalled rightCalled
  | array leftStored rightStored ranks elements induction =>
      rcases leftCalled.of_array leftStored with ⟨leftInner, leftRank, rfl, leftRanked, leftPart⟩
      rcases rightCalled.of_array rightStored with
        ⟨rightInner, rightRank, rfl, rightRanked, rightPart⟩
      rcases induction leftPart rightPart with ⟨rfl, rfl⟩
      exact ⟨CanonicalKey.name_array_congr (ranks _ _ leftRanked rightRanked), rfl⟩
  | sequence leftStored rightStored elements induction =>
      rcases leftCalled.of_sequence leftStored with ⟨leftInner, rfl, leftPart⟩
      rcases rightCalled.of_sequence rightStored with ⟨rightInner, rfl, rightPart⟩
      rcases induction leftPart rightPart with ⟨rfl, rfl⟩
      exact ⟨rfl, rfl⟩
  | domain leftStored rightStored ranks =>
      rcases leftCalled.eq_domain leftStored with ⟨-, rfl, rfl⟩
      rcases rightCalled.eq_domain rightStored with ⟨-, rfl, rfl⟩
      exact ⟨CanonicalKey.name_domain_congr ranks, rfl⟩
  | tuple leftStored rightStored lengths each induction =>
      rcases leftCalled.of_tuple leftStored with ⟨rfl, leftInner, rfl, leftEach⟩
      rcases rightCalled.of_tuple rightStored with ⟨rfl, rightInner, rfl, rightEach⟩
      refine ⟨?_, rfl⟩
      rw [map_eq_map_of_zip lengths]
      intro pair member
      rcases List.of_mem_zip member with ⟨leftMember, rightMember⟩
      rcases leftEach pair.1 leftMember with ⟨_, leftPart⟩
      rcases rightEach pair.2 rightMember with ⟨_, rightPart⟩
      exact (induction pair member leftPart rightPart).1
  | ofLiteral leftStored rightStored leftDenotes rightDenotes =>
      rcases leftCalled.of_literal leftStored leftDenotes with ⟨rfl, rfl⟩
      rcases rightCalled.of_literal rightStored rightDenotes with ⟨rfl, rfl⟩
      exact ⟨rfl, rfl⟩
  | ofVariable leftStored rightStored leftDenotes rightDenotes agree =>
      rcases leftCalled.of_variable leftStored leftDenotes with
        ⟨rfl, leftUser, leftDomain, leftInner, rfl, leftUsed, leftFound, leftName⟩
      rcases rightCalled.of_variable rightStored rightDenotes with
        ⟨rfl, rightUser, rightDomain, rightInner, rfl, rightUsed, rightFound, rightName⟩
      have same := agree _ _ _ _ leftUsed rightUsed leftFound rightFound
      rw [same.domainName?_eq, rightName] at leftName
      rw [Option.some.inj leftName]
      exact ⟨rfl, rfl⟩

variable {source current : Program}

theorem Tracks.eq_of_called (tracks : Tracks source current) {left right first second : TypeRef}
    (leftInterns : source.Interns current left first)
    (rightInterns : source.Interns current right second)
    (same : ∀ {leftText rightText leftScope rightScope}, source.Called left leftText leftScope →
      source.Called right rightText rightScope → leftText = rightText ∧ leftScope = rightScope) :
    first = second := by
  rcases tracks.synthesized_of_interns leftInterns with
    ⟨leftRef, leftSymbol, leftText, -, leftStored, rfl, leftNamed, leftCalled, -, leftAdded⟩
  rcases tracks.synthesized_of_interns rightInterns with
    ⟨rightRef, rightSymbol, rightText, -, rightStored, rfl, rightNamed, rightCalled, -,
      rightAdded⟩
  rcases same leftCalled rightCalled with ⟨rfl, sameScope⟩
  have sameName := tracks.distinct _ _ _ leftNamed rightNamed
  -- One name in one scope leads to one declaration.
  have rightBound := rightAdded.bound
  rw [← sameScope, ← sameName] at rightBound
  cases binds_unique leftAdded.bound rightBound
  rw [leftStored] at rightStored
  rw [Option.some.inj rightStored]

theorem Alike.eq_of_fixed {left right : TypeRef} (alike : source.Alike left right)
    (fixed : source.Fixed left ∨ source.Fixed right) : left = right := by
  have structural : ∀ {leftForm rightForm : TypeForm},
      source.types.get? left = some { form := leftForm, symbol := none } →
      source.types.get? right = some { form := rightForm, symbol := none } →
      leftForm.Scalar ∨ rightForm.Scalar := by
    intro leftForm rightForm leftStored rightStored
    exact fixed.imp (·.scalar leftStored) (·.scalar rightStored)
  cases alike with
  | same => rfl
  | array leftStored rightStored | sequence leftStored rightStored
  | domain leftStored rightStored | tuple leftStored rightStored
  | ofLiteral leftStored rightStored | ofVariable leftStored rightStored =>
      have scalar := structural leftStored rightStored
      simp [TypeForm.Scalar, TypeForm.shape] at scalar

theorem Alike.represents_eq (tracks : Tracks source current)
    {left right first second : TypeRef} (alike : source.Alike left right)
    (leftRepresents : source.Represents current left first)
    (rightRepresents : source.Represents current right second) : first = second := by
  rcases leftRepresents with ⟨leftFixed, rfl⟩ | leftInterns
  · cases alike.eq_of_fixed (.inl leftFixed)
    rcases rightRepresents with ⟨-, rfl⟩ | ⟨⟨form, anonymous⟩, _, _, _, -, -, -, -, called⟩
    · rfl
    · exact absurd (leftFixed.scalar anonymous) (called.not_scalar anonymous)
  · rcases rightRepresents with ⟨rightFixed, rfl⟩ | rightInterns
    · cases alike.eq_of_fixed (.inr rightFixed)
      rcases leftInterns with ⟨⟨form, anonymous⟩, _, _, _, -, -, -, -, called⟩
      exact absurd (rightFixed.scalar anonymous) (called.not_scalar anonymous)
    · exact tracks.eq_of_called leftInterns rightInterns alike.called_eq

end Program

/-- Variables declared with types that are written alike have one type in the end. -/
theorem canonicalize_interns {calls : List Call} {source : Program} {own : Progress Unit}
    {options : Options} {final : Walker (Progress Unit)} (built : layOut calls = .ok source)
    (unreserved : source.Unreserved)
    (ran : canonicalize .silent options ⟨source, own⟩ = .ok () final) :
    ∀ left ∈ source.declaredVariables, ∀ right ∈ source.declaredVariables,
      ∀ leftType rightType, source.typeOf? left = some leftType →
      source.typeOf? right = some rightType → source.Alike leftType rightType →
      ∃ canonical, final.program.typeOf? left = some canonical ∧
        final.program.typeOf? right = some canonical := by
  have laid := laidOut_of_layOut built
  rcases canonicalize_eq_ok ran with ⟨middle, walked, completing⟩
  rcases Program.resolved_of_walkProgram laid unreserved walked with ⟨tracks, resolved⟩
  have kept : ∀ var type, middle.program.typeOf? var = some type →
      final.program.typeOf? var = some type := by
    intro var type typed
    split at completing
    · rcases completing with ⟨order, -, completes⟩
      rcases Option.map_eq_some_iff.mp typed with ⟨symbol, stored, rfl⟩
      exact Program.typeOf?_eq_some (completes.symbols stored)
    · rw [completing, typed]
  intro left leftMember right rightMember leftType rightType leftTyped rightTyped alike
  rcases (resolved left leftMember).exists_typeOf? leftTyped with ⟨first, leftNew, leftRepresents⟩
  rcases (resolved right rightMember).exists_typeOf? rightTyped with
    ⟨second, rightNew, rightRepresents⟩
  cases alike.represents_eq tracks leftRepresents rightRepresents
  exact ⟨first, kept left first leftNew, kept right first rightNew⟩

def rankCalls : List Call :=
  [.addModule, .addModule,
    .addType (.domain 0 none none), .declareVar ⟨1⟩ "D" ⟨7⟩,
    .addExpression (.reference ⟨7⟩), .addExpression (.iteration [⟨0⟩]),
    .addType (.array ⟨2⟩ ⟨1⟩ none), .declareVar ⟨1⟩ "left" ⟨8⟩,
    .addType (.domain 1 none none), .declareVar ⟨2⟩ "E" ⟨9⟩,
    .addExpression (.reference ⟨9⟩), .addExpression (.iteration [⟨2⟩]),
    .addType (.array ⟨2⟩ ⟨3⟩ none), .declareVar ⟨2⟩ "right" ⟨10⟩]

theorem canonicalize_interns_ranks :
    ∃ source final, layOut rankCalls = .ok source ∧
      canonicalize .silent {} ⟨source, { journal := () }⟩ = .ok () final ∧
      ∃ canonical, final.program.typeOf? ⟨8⟩ = some canonical ∧
        final.program.typeOf? ⟨10⟩ = some canonical := by
  obtain ⟨source, isBuilt, unreserved, left, right, leftTyped, rightTyped, element, leftArray,
      rightArray, leftRank, rightRank, finishes⟩ :
    ∃ source ∈ (layOut rankCalls).toOption, source.Unreserved ∧
      ⟨8⟩ ∈ source.declaredVariables ∧ ⟨10⟩ ∈ source.declaredVariables ∧
      source.typeOf? ⟨8⟩ = some ⟨8⟩ ∧ source.typeOf? ⟨10⟩ = some ⟨10⟩ ∧
      source.types.get? ⟨2⟩ = some { form := .primitive .int64, symbol := some ⟨2⟩ } ∧
      source.types.get? ⟨8⟩ = some { form := .array ⟨2⟩ ⟨1⟩ none, symbol := none } ∧
      source.types.get? ⟨10⟩ = some { form := .array ⟨2⟩ ⟨3⟩ none, symbol := none } ∧
      source.rangeRank? ⟨1⟩ = some 0 ∧ source.rangeRank? ⟨3⟩ = some 1 ∧
      (finished? (canonicalize .silent {} ⟨source, { journal := () }⟩)).isSome := by
    decide +kernel
  have built := Except.toOption_eq_some_iff.mp isBuilt
  rcases Option.isSome_iff_exists.mp finishes with ⟨final, isFinal⟩
  have ran := finished?_eq_some_iff.mp isFinal
  have alike : source.Alike ⟨8⟩ ⟨10⟩ := by
    refine .array leftArray rightArray ?_ (.same ⟨_, _, element, .inl (by simp)⟩)
    intro first second firstRanked secondRanked
    rw [leftRank] at firstRanked
    rw [rightRank] at secondRanked
    cases Option.some.inj firstRanked
    cases Option.some.inj secondRanked
    rfl
  exact ⟨source, final, built, ran, canonicalize_interns built unreserved ran ⟨8⟩ left ⟨10⟩ right
    ⟨8⟩ ⟨10⟩ leftTyped rightTyped alike⟩

/-- Sequences of index types over one expression, used in one scope, need not become one
type: a use of either index type in another scope may have settled it before. -/
theorem exists_sequences_kept_apart :
    ∃ source final, layOut sharedIndexCalls = .ok source ∧ source.Unreserved ∧
      canonicalize .silent {} ⟨source, { journal := () }⟩ = .ok () final ∧
      ∃ left ∈ source.declaredVariables, ∃ right ∈ source.declaredVariables,
      ∃ leftSymbol rightSymbol leftIndex rightIndex subject,
        source.symbols.get? left = some leftSymbol ∧
        source.symbols.get? right = some rightSymbol ∧
        leftSymbol.scope = rightSymbol.scope ∧
        source.types.get? leftSymbol.type = some { form := .sequence leftIndex } ∧
        source.types.get? rightSymbol.type = some { form := .sequence rightIndex } ∧
        source.types.get? leftIndex = some { form := .index subject } ∧
        source.types.get? rightIndex = some { form := .index subject } ∧
        final.program.typeOf? left ≠ final.program.typeOf? right := by
  obtain ⟨source, isBuilt, unreserved, left, right, ⟨leftSymbol, leftStored, leftTyped, leftScope⟩,
      ⟨rightSymbol, rightStored, rightTyped, rightScope⟩, leftSequence, rightSequence, leftIndex,
      rightIndex, final, isFinal, apart⟩ :
    ∃ source ∈ (layOut sharedIndexCalls).toOption, source.Unreserved ∧
      ⟨10⟩ ∈ source.declaredVariables ∧ ⟨11⟩ ∈ source.declaredVariables ∧
      (∃ symbol ∈ source.symbols.get? ⟨10⟩, symbol.type = ⟨10⟩ ∧ symbol.scope = ⟨3⟩) ∧
      (∃ symbol ∈ source.symbols.get? ⟨11⟩, symbol.type = ⟨12⟩ ∧ symbol.scope = ⟨3⟩) ∧
      source.types.get? ⟨10⟩ = some { form := .sequence ⟨8⟩ } ∧
      source.types.get? ⟨12⟩ = some { form := .sequence ⟨11⟩ } ∧
      source.types.get? ⟨8⟩ = some { form := .index ⟨0⟩ } ∧
      source.types.get? ⟨11⟩ = some { form := .index ⟨0⟩ } ∧
      ∃ final ∈ finished? (canonicalize .silent {} ⟨source, { journal := () }⟩),
        final.program.typeOf? ⟨10⟩ ≠ final.program.typeOf? ⟨11⟩ := by
    decide +kernel
  exact ⟨source, final, Except.toOption_eq_some_iff.mp isBuilt, unreserved,
    finished?_eq_some_iff.mp isFinal, ⟨10⟩, left, ⟨11⟩, right, leftSymbol, rightSymbol, ⟨8⟩, ⟨11⟩,
    ⟨0⟩, leftStored, rightStored, leftScope.trans rightScope.symm, leftTyped ▸ leftSequence,
    rightTyped ▸ rightSequence, leftIndex, rightIndex, apart⟩

end StructuralTypes
