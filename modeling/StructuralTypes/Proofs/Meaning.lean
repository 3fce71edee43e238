import StructuralTypes.Proofs.Settlement

/-! What a type means: the constructors it nests, with the ranks of its arrays and the
leaf that it ends in. A declaration is found by its name and its scope alone, so the
meaning survives a run because names can be taken apart again. -/

namespace StructuralTypes

/-- A nominal type means itself. -/
inductive Meaning where
  | primitive (primitive : Primitive)
  | nominal (type : TypeRef)
  | array (element : Meaning) (rank : Nat)
  | sequence (element : Meaning)
  | domain (rank : Nat)
  | literal (value : Int)
  deriving DecidableEq, Repr

namespace Program

variable (program : Program)

/-! ## Where the rank of an array is read -/

def writtenRank (range : ExpressionRef) (_ : Option TypeRef) : Option Nat :=
  program.rangeRank? range

def recordedRank (_ : ExpressionRef) (recorded : Option TypeRef) : Option Nat := do
  program.rank? (← recorded)

/-- From the domain that is recorded, if one is. -/
def standingRank (range : ExpressionRef) : Option TypeRef → Option Nat
  | some domain => program.rank? domain
  | none => program.rangeRank? range

/-- `type` means `meaning`, with the ranks of arrays read by `levelRank`. -/
inductive Unfolds (levelRank : ExpressionRef → Option TypeRef → Option Nat) :
    TypeRef → Meaning → Prop
  | primitive {type : TypeRef} {primitive : Primitive} {symbol : Option SymbolRef}
      (stored : program.types.get? type = some { form := .primitive primitive, symbol }) :
      Unfolds levelRank type (.primitive primitive)
  | nominal {type : TypeRef} {symbol : Option SymbolRef}
      (stored : program.types.get? type = some { form := .nominal, symbol }) :
      Unfolds levelRank type (.nominal type)
  | array {type element : TypeRef} {range : ExpressionRef} {recorded : Option TypeRef}
      {symbol : Option SymbolRef} {rank : Nat} {meaning : Meaning}
      (stored : program.types.get? type =
        some { form := .array element range recorded, symbol })
      (ranked : levelRank range recorded = some rank)
      (inner : Unfolds levelRank element meaning) :
      Unfolds levelRank type (.array meaning (effectiveRank rank))
  | sequence {type element : TypeRef} {symbol : Option SymbolRef} {meaning : Meaning}
      (stored : program.types.get? type = some { form := .sequence element, symbol })
      (inner : Unfolds levelRank element meaning) :
      Unfolds levelRank type (.sequence meaning)
  | domain {type : TypeRef} {rank : Nat} {companion : Option TypeRef}
      {symbol : Option SymbolRef}
      (stored : program.types.get? type = some { form := .domain rank none companion, symbol }) :
      Unfolds levelRank type (.domain (effectiveRank rank))
  | literal {type : TypeRef} {subject : ExpressionRef} {symbol : Option SymbolRef}
      {value : Int}
      (stored : program.types.get? type = some { form := .index subject, symbol })
      (denotes : program.expressions.get? subject = some (.literal value)) :
      Unfolds levelRank type (.literal value)

def Means : TypeRef → Meaning → Prop :=
  program.Unfolds program.writtenRank

def MeansCanonically : TypeRef → Meaning → Prop :=
  program.Unfolds program.recordedRank

def MeansStanding : TypeRef → Meaning → Prop :=
  program.Unfolds program.standingRank

/-! ## Programs without other types -/

/-- Arrays, sequences, domains without a parent and index types of literals, over types
that have a declaration. -/
inductive Tree : TypeRef → Prop
  | named {type : TypeRef} {form : TypeForm} {ref : SymbolRef}
      (stored : program.types.get? type = some { form, symbol := some ref }) : Tree type
  | array {type element : TypeRef} {range : ExpressionRef} {recorded : Option TypeRef}
      (stored : program.types.get? type =
        some { form := .array element range recorded, symbol := none })
      (inner : Tree element) : Tree type
  | sequence {type element : TypeRef}
      (stored : program.types.get? type =
        some { form := .sequence element, symbol := none })
      (inner : Tree element) : Tree type
  | domain {type : TypeRef} {rank : Nat} {companion : Option TypeRef}
      (stored : program.types.get? type =
        some { form := .domain rank none companion, symbol := none }) : Tree type
  | literal {type : TypeRef} {subject : ExpressionRef} {value : Int}
      (stored : program.types.get? type = some { form := .index subject, symbol := none })
      (denotes : program.expressions.get? subject = some (.literal value)) : Tree type

def PlainlyDeclared (type : TypeRef) (form : TypeForm) (ref : SymbolRef) : Prop :=
  (∃ primitive ∈ Primitive.all, form = .primitive primitive ∧
    type = primitiveType primitive ∧ ref = primitiveSymbol primitive) ∨
  form = .nominal ∧ ∃ symbol ∈ program.symbols.get? ref,
    symbol.definition ≠ .absent ∧ symbol.scope ≠ sharedScope

instance (type : TypeRef) (form : TypeForm) (ref : SymbolRef) :
    Decidable (program.PlainlyDeclared type form ref) :=
  inferInstanceAs (Decidable (_ ∨ _))

/-- A program whose declared types are primitives and nominal types, no two of one name
in one scope, and whose names leave those that begin with an underscore alone. -/
structure Plain : Prop where
  declared : ∀ type node, program.types.get? type = some node →
    ∀ ref ∈ node.symbol, program.PlainlyDeclared type node.form ref
  distinct : ∀ left first, program.symbols.get? left = some first →
    ∀ right second, program.symbols.get? right = some second →
    first.kind = .type → second.kind = .type → first.scope = second.scope →
    first.name = second.name → left = right
  names : ∀ text ∈ program.boundNames, ¬Underscored text

instance : Decidable program.Plain :=
  decidable_of_iff (_ ∧ _ ∧ _)
    ⟨fun ⟨declared, distinct, names⟩ => ⟨declared, distinct, names⟩,
      fun plain => ⟨plain.declared, plain.distinct, plain.names⟩⟩

variable {program} {levelRank : ExpressionRef → Option TypeRef → Option Nat}

/-! ## What a meaning says about the node -/

section

variable {type : TypeRef} {meaning : Meaning} {symbol : Option SymbolRef}
  (means : program.Unfolds levelRank type meaning)
include means

theorem Unfolds.of_array {element : TypeRef} {range : ExpressionRef}
    {recorded : Option TypeRef}
    (stored : program.types.get? type =
      some { form := .array element range recorded, symbol }) :
    ∃ inner rank, meaning = .array inner (effectiveRank rank) ∧
      levelRank range recorded = some rank ∧ program.Unfolds levelRank element inner := by
  cases means with
  | array found ranked inner =>
      rw [stored] at found
      simp only [Option.some.injEq, TypeNode.mk.injEq, TypeForm.array.injEq] at found
      rcases found with ⟨⟨rfl, rfl, rfl⟩, -⟩
      exact ⟨_, _, rfl, ranked, inner⟩
  | primitive found | nominal found | sequence found _ | domain found | literal found _ =>
      rw [stored] at found
      simp at found

theorem Unfolds.of_sequence {element : TypeRef}
    (stored : program.types.get? type = some { form := .sequence element, symbol }) :
    ∃ inner, meaning = .sequence inner ∧ program.Unfolds levelRank element inner := by
  cases means with
  | sequence found inner =>
      rw [stored] at found
      simp only [Option.some.injEq, TypeNode.mk.injEq, TypeForm.sequence.injEq] at found
      rcases found with ⟨rfl, -⟩
      exact ⟨_, rfl, inner⟩
  | primitive found | nominal found | array found _ _ | domain found | literal found _ =>
      rw [stored] at found
      simp at found

theorem Unfolds.of_domain {rank : Nat} {parent companion : Option TypeRef}
    (stored : program.types.get? type =
      some { form := .domain rank parent companion, symbol }) :
    parent = none ∧ meaning = .domain (effectiveRank rank) := by
  cases means with
  | domain found =>
      rw [stored] at found
      simp only [Option.some.injEq, TypeNode.mk.injEq, TypeForm.domain.injEq] at found
      rcases found with ⟨⟨rfl, rfl, -⟩, -⟩
      exact ⟨rfl, rfl⟩
  | primitive found | nominal found | array found _ _ | sequence found _ | literal found _ =>
      rw [stored] at found
      simp at found

theorem Unfolds.of_literal {subject : ExpressionRef}
    (stored : program.types.get? type = some { form := .index subject, symbol }) :
    ∃ value, program.expressions.get? subject = some (.literal value) ∧
      meaning = .literal value := by
  cases means with
  | literal found denotes =>
      rw [stored] at found
      simp only [Option.some.injEq, TypeNode.mk.injEq, TypeForm.index.injEq] at found
      rcases found with ⟨rfl, -⟩
      exact ⟨_, denotes, rfl⟩
  | primitive found | nominal found | array found _ _ | sequence found _ | domain found =>
      rw [stored] at found
      simp at found

end

theorem Unfolds.unique {type : TypeRef} {left right : Meaning}
    (first : program.Unfolds levelRank type left)
    (second : program.Unfolds levelRank type right) : left = right := by
  induction first generalizing right with
  | primitive stored =>
      cases second <;> simp_all
  | nominal stored =>
      cases second <;> simp_all
  | array stored ranked inner induction =>
      rcases second.of_array stored with ⟨other, rank, rfl, otherRanked, otherInner⟩
      rw [ranked] at otherRanked
      rw [induction otherInner, Option.some.inj otherRanked]
  | sequence stored inner induction =>
      rcases second.of_sequence stored with ⟨other, rfl, otherInner⟩
      rw [induction otherInner]
  | domain stored => exact (second.of_domain stored).2.symm
  | literal stored denotes =>
      rcases second.of_literal stored with ⟨value, otherDenotes, rfl⟩
      rw [denotes] at otherDenotes
      rw [Expression.literal.inj (Option.some.inj otherDenotes)]

theorem Unfolds.mono {otherRank : ExpressionRef → Option TypeRef → Option Nat}
    (reads : ∀ range recorded rank, levelRank range recorded = some rank →
      otherRank range recorded = some rank)
    {type : TypeRef} {meaning : Meaning} (means : program.Unfolds levelRank type meaning) :
    program.Unfolds otherRank type meaning := by
  induction means with
  | primitive stored => exact .primitive stored
  | nominal stored => exact .nominal stored
  | array stored ranked _ induction => exact .array stored (reads _ _ _ ranked) induction
  | sequence stored _ induction => exact .sequence stored induction
  | domain stored => exact .domain stored
  | literal stored denotes => exact .literal stored denotes

theorem Tree.element {type element : TypeRef} {form : TypeForm} (tree : program.Tree type)
    (stored : program.types.get? type = some { form, symbol := none })
    (found : form.element? = some element) : program.Tree element := by
  cases tree with
  | array again inner | sequence again inner =>
      rcases node_unique stored again with ⟨rfl, _⟩
      cases Option.some.inj found
      exact inner
  | named again =>
      rw [stored] at again
      simp at again
  | domain again | literal again _ =>
      rcases node_unique stored again with ⟨rfl, _⟩
      simp [TypeForm.element?] at found

theorem Tree.of_mem_chain {type part : TypeRef}
    (tree : program.Tree type) (member : part ∈ program.chain type) : program.Tree part := by
  induction tree with
  | named stored =>
      rcases mem_chain_cases member with rfl | ⟨_, _, again, -, -⟩
      · exact .named stored
      · rw [stored] at again
        simp at again
  | array stored inner induction =>
      rcases mem_chain_cases member with rfl | ⟨_, _, again, found, later⟩
      · exact .array stored inner
      · rcases node_unique stored again with ⟨rfl, _⟩
        cases Option.some.inj found
        exact induction later
  | sequence stored inner induction =>
      rcases mem_chain_cases member with rfl | ⟨_, _, again, found, later⟩
      · exact .sequence stored inner
      · rcases node_unique stored again with ⟨rfl, _⟩
        cases Option.some.inj found
        exact induction later
  | domain stored => exact eq_of_mem_chain stored rfl member ▸ .domain stored
  | literal stored denotes =>
      exact eq_of_mem_chain stored rfl member ▸ .literal stored denotes

/-! ## Names decide meanings -/

namespace Plain

variable (plain : program.Plain)
include plain

theorem unreserved : program.Unreserved :=
  fun text member reserved => plain.names text member (underscored_of_reserved reserved)

theorem scalar_of_named {type : TypeRef} {form : TypeForm} {ref : SymbolRef}
    (stored : program.types.get? type = some { form, symbol := some ref }) : form.Scalar := by
  rcases plain.declared type _ stored ref rfl with ⟨_, -, rfl, -⟩ | ⟨rfl, -⟩
  · exact .inl rfl
  · exact .inr rfl

theorem not_reserved_of_named (laid : LaidOut program) {type : TypeRef} {text : String}
    {scope : ScopeRef} (called : program.Called type text scope) {form : TypeForm}
    {ref : SymbolRef} (stored : program.types.get? type = some { form, symbol := some ref }) :
    ¬Reserved text := by
  intro reserved
  rcases called.of_named stored with ⟨name, -⟩
  rcases symbolText?_eq_some_iff.mp name with ⟨symbol, symbolStored, named⟩
  rcases laid.bound ref symbol symbolStored with ⟨_, _, -, binds⟩
  exact plain.unreserved text (mem_boundNames binds named) reserved

theorem scope_of_home (laid : LaidOut program) {type : TypeRef} {form : TypeForm}
    {ref : SymbolRef} {home : Home}
    (stored : program.types.get? type = some { form, symbol := some ref })
    (beside : program.homeBeside ref = .ok home) :
    ∃ symbol, program.symbols.get? ref = some symbol ∧ symbol.type = type ∧
      symbol.kind = .type ∧
      symbol.scope = if home.scope = sharedScope then intrinsicScope else home.scope := by
  rcases laid.declared type form ref stored with ⟨symbol, symbolStored, typed, kind⟩
  rcases homeBeside_eq_ok_iff.mp beside with ⟨again, content, symbolAgain, scopeStored, rfl⟩
  cases Option.mem_unique symbolStored symbolAgain
  refine ⟨symbol, symbolStored, typed, kind, ?_⟩
  rcases plain.declared type _ stored ref rfl with
    ⟨primitive, -, -, -, rfl⟩ | ⟨-, again, isStored, present, lexical⟩
  · rw [laid.primitives] at symbolStored
    cases Option.some.inj symbolStored
    simp [Home.scope, intrinsicScope, sharedScope]
  · rw [Option.mem_def, symbolStored] at isStored
    cases Option.some.inj isStored
    rcases laid.standing ref symbol symbolStored kind with
      ⟨isAbsent, -⟩ | ⟨_, -, -, other, otherStored, isOpen⟩
    · exact absurd isAbsent present
    · cases Option.mem_unique scopeStored otherStored
      simp [isOpen, present, lexical, Home.scope]

theorem eq_of_named (laid : LaidOut program) {left right : TypeRef} {text : String}
    {scope : ScopeRef} {leftForm rightForm : TypeForm} {leftRef rightRef : SymbolRef}
    (leftStored : program.types.get? left = some { form := leftForm, symbol := some leftRef })
    (rightStored : program.types.get? right =
      some { form := rightForm, symbol := some rightRef })
    (leftCalled : program.Called left text scope)
    (rightCalled : program.Called right text scope) : left = right := by
  rcases leftCalled.of_named leftStored with ⟨leftName, leftHome, leftBeside, rfl⟩
  rcases rightCalled.of_named rightStored with ⟨rightName, rightHome, rightBeside, sameHome⟩
  rcases plain.scope_of_home laid leftStored leftBeside with
    ⟨first, firstStored, rfl, firstKind, firstScope⟩
  rcases plain.scope_of_home laid rightStored rightBeside with
    ⟨second, secondStored, rfl, secondKind, secondScope⟩
  rcases symbolText?_eq_some_iff.mp leftName with ⟨_, again, firstNamed⟩
  cases Option.mem_unique firstStored again
  rcases symbolText?_eq_some_iff.mp rightName with ⟨_, again, secondNamed⟩
  cases Option.mem_unique secondStored again
  have sameName := laid.distinct _ _ _ firstNamed secondNamed
  have sameScope : first.scope = second.scope := by rw [firstScope, secondScope, sameHome]
  rcases plain.distinct leftRef first firstStored rightRef second secondStored firstKind
      secondKind sameScope sameName with rfl
  rw [firstStored] at secondStored
  rw [Option.some.inj secondStored]

end Plain

theorem exists_meaning_of_scalar {type : TypeRef} {form : TypeForm}
    {symbol : Option SymbolRef} (stored : program.types.get? type = some { form, symbol })
    (scalar : form.Scalar) : ∃ meaning, program.Means type meaning := by
  cases form with
  | primitive => exact ⟨_, .primitive stored⟩
  | nominal => exact ⟨_, .nominal stored⟩
  | _ => simp [TypeForm.Scalar, TypeForm.shape] at scalar

theorem Tree.exists_meaning (plain : program.Plain) {type : TypeRef} {text : String}
    {scope : ScopeRef} (tree : program.Tree type)
    (called : program.Called type text scope) : ∃ meaning, program.Means type meaning := by
  induction tree generalizing text scope with
  | named stored => exact exists_meaning_of_scalar stored (plain.scalar_of_named stored)
  | array stored _ induction =>
      rcases called.of_array stored with ⟨_, _, -, ranked, innerCalled⟩
      rcases induction innerCalled with ⟨inner, means⟩
      exact ⟨_, .array stored ranked means⟩
  | sequence stored _ induction =>
      rcases called.of_sequence stored with ⟨_, -, innerCalled⟩
      rcases induction innerCalled with ⟨inner, means⟩
      exact ⟨_, .sequence stored means⟩
  | domain stored => exact ⟨_, .domain stored⟩
  | literal stored denotes => exact ⟨_, .literal stored denotes⟩

theorem Plain.anonymous_of_called (plain : program.Plain) (laid : LaidOut program)
    {left right : TypeRef} {text : String} {scope : ScopeRef} {form : TypeForm}
    (stored : program.types.get? left = some { form, symbol := none })
    (leftCalled : program.Called left text scope)
    (rightCalled : program.Called right text scope) (tree : program.Tree right) :
    ∃ other, program.types.get? right = some { form := other, symbol := none } ∧
      other.shape = form.shape := by
  have anonymous : ∀ {other : TypeForm},
      program.types.get? right = some { form := other, symbol := none } →
      other.shape = form.shape :=
    fun rightStored => rightCalled.shape_eq leftCalled rightStored stored
  cases tree with
  | named rightStored =>
      exact absurd (leftCalled.reserved stored)
        (plain.not_reserved_of_named laid rightCalled rightStored)
  | array rightStored _ | sequence rightStored _ | domain rightStored
  | literal rightStored _ => exact ⟨_, rightStored, anonymous rightStored⟩

section

variable {left right : TypeRef} {text : String} {scope : ScopeRef}
  (plain : program.Plain) (laid : LaidOut program) (tree : program.Tree right)
  (leftCalled : program.Called left text scope) (rightCalled : program.Called right text scope)
include plain laid tree leftCalled rightCalled

theorem Plain.array_of_called {element : TypeRef} {range : ExpressionRef}
    {recorded : Option TypeRef} (stored : program.types.get? left =
      some { form := .array element range recorded, symbol := none }) :
    ∃ other otherRange otherRecorded, program.types.get? right =
        some { form := .array other otherRange otherRecorded, symbol := none } ∧
      (∃ rank otherRank, program.writtenRank range recorded = some rank ∧
        program.writtenRank otherRange otherRecorded = some otherRank ∧
        effectiveRank rank = effectiveRank otherRank) ∧
      ∃ innerText, program.Called element innerText scope ∧
        program.Called other innerText scope := by
  rcases plain.anonymous_of_called laid stored leftCalled rightCalled tree with
    ⟨form, rightStored, shapes⟩
  cases form with
  | array other otherRange otherRecorded =>
      rcases leftCalled.of_array stored with ⟨leftText, leftRank, rfl, leftRanked, leftInner⟩
      rcases rightCalled.of_array rightStored with
        ⟨rightText, rightRank, same, rightRanked, rightInner⟩
      rcases CanonicalKey.array_injective same with ⟨rfl, ranks⟩
      exact ⟨other, otherRange, otherRecorded, rightStored,
        ⟨leftRank, rightRank, leftRanked, rightRanked, ranks⟩, leftText, leftInner, rightInner⟩
  | _ => simp [TypeForm.shape] at shapes

theorem Plain.sequence_of_called {element : TypeRef} (stored : program.types.get? left =
      some { form := .sequence element, symbol := none }) :
    ∃ other, program.types.get? right = some { form := .sequence other, symbol := none } ∧
      ∃ innerText, program.Called element innerText scope ∧
        program.Called other innerText scope := by
  rcases plain.anonymous_of_called laid stored leftCalled rightCalled tree with
    ⟨form, rightStored, shapes⟩
  cases form with
  | sequence other =>
      rcases leftCalled.of_sequence stored with ⟨leftText, rfl, leftInner⟩
      rcases rightCalled.of_sequence rightStored with ⟨rightText, same, rightInner⟩
      cases CanonicalKey.sequence_injective same
      exact ⟨other, rightStored, leftText, leftInner, rightInner⟩
  | _ => simp [TypeForm.shape] at shapes

theorem Plain.domain_of_called {rank : Nat} {companion : Option TypeRef}
    (stored : program.types.get? left =
      some { form := .domain rank none companion, symbol := none }) :
    ∃ otherRank otherCompanion, program.types.get? right =
        some { form := .domain otherRank none otherCompanion, symbol := none } ∧
      effectiveRank rank = effectiveRank otherRank := by
  rcases plain.anonymous_of_called laid stored leftCalled rightCalled tree with
    ⟨form, rightStored, shapes⟩
  cases form with
  | domain otherRank parent otherCompanion =>
      rcases rightCalled.eq_domain rightStored with ⟨rfl, -, -⟩
      exact ⟨otherRank, otherCompanion, rightStored,
        leftCalled.effectiveRank_eq rightCalled stored rightStored⟩
  | _ => simp [TypeForm.shape] at shapes

theorem Plain.literal_of_called {subject : ExpressionRef} {value : Int}
    (stored : program.types.get? left = some { form := .index subject, symbol := none })
    (denotes : program.expressions.get? subject = some (.literal value)) :
    ∃ other, program.types.get? right = some { form := .index other, symbol := none } ∧
      program.expressions.get? other = some (.literal value) := by
  rcases plain.anonymous_of_called laid stored leftCalled rightCalled tree with
    ⟨form, rightStored, shapes⟩
  cases tree with
  | literal again rightDenotes =>
      rcases leftCalled.of_literal stored denotes with ⟨-, rfl⟩
      rcases rightCalled.of_literal again rightDenotes with ⟨-, same⟩
      cases CanonicalKey.literal_injective same
      exact ⟨_, again, rightDenotes⟩
  | named again | array again _ | sequence again _ | domain again =>
      cases node_unique rightStored again
      simp_all [TypeForm.shape]

end

/-- Trees that are called alike mean the same. -/
theorem Tree.means_of_called (laid : LaidOut program) (plain : program.Plain)
    {left right : TypeRef} {text : String} {scope : ScopeRef} {meaning : Meaning}
    (leftTree : program.Tree left) (rightTree : program.Tree right)
    (leftCalled : program.Called left text scope)
    (rightCalled : program.Called right text scope) (means : program.Means left meaning) :
    program.Means right meaning := by
  induction leftTree generalizing right text scope meaning with
  | named stored =>
      have reserved := plain.not_reserved_of_named laid leftCalled stored
      cases rightTree with
      | named rightStored =>
          exact plain.eq_of_named laid stored rightStored leftCalled rightCalled ▸ means
      | array rightStored _ | sequence rightStored _ | domain rightStored
      | literal rightStored _ => exact absurd (rightCalled.reserved rightStored) reserved
  | array stored _ induction =>
      rcases plain.array_of_called laid rightTree leftCalled rightCalled stored with
        ⟨other, _, _, rightStored, ⟨rank, otherRank, ranked, otherRanked, sameRank⟩,
          innerText, leftInner, rightInner⟩
      rcases Unfolds.of_array means stored with ⟨inner, _, rfl, again, innerMeans⟩
      cases Option.mem_unique ranked again
      rw [sameRank]
      exact .array rightStored otherRanked
        (induction (rightTree.element rightStored rfl) leftInner rightInner innerMeans)
  | sequence stored _ induction =>
      rcases plain.sequence_of_called laid rightTree leftCalled rightCalled stored with
        ⟨other, rightStored, innerText, leftInner, rightInner⟩
      rcases Unfolds.of_sequence means stored with ⟨inner, rfl, innerMeans⟩
      exact .sequence rightStored
        (induction (rightTree.element rightStored rfl) leftInner rightInner innerMeans)
  | domain stored =>
      rcases plain.domain_of_called laid rightTree leftCalled rightCalled stored with
        ⟨otherRank, _, rightStored, sameRank⟩
      rcases Unfolds.of_domain means stored with ⟨-, rfl⟩
      rw [sameRank]
      exact .domain rightStored
  | literal stored denotes =>
      rcases plain.literal_of_called laid rightTree leftCalled rightCalled stored denotes with
        ⟨other, rightStored, rightDenotes⟩
      rcases Unfolds.of_literal means stored with ⟨value, again, rfl⟩
      rw [denotes] at again
      cases Expression.literal.inj (Option.some.inj again)
      exact .literal rightStored rightDenotes

/-! ## Ranks during a run -/

section

variable {source current : Program}

theorem Tracks.rank?_current (tracks : Tracks source current) {type : TypeRef} {rank : Nat}
    (ranked : source.rank? type = some rank) :
    ∃ explicit, current.rank? type = some explicit ∧
      effectiveRank explicit = effectiveRank rank := by
  rcases rank?_eq_some_iff.mp ranked with ⟨parent, companion, symbol, stored⟩
  rcases tracks.types type _ symbol stored with ⟨later, holder, found, varies, -⟩
  cases varies with
  | same => exact ⟨rank, rank?_eq_some_iff.mpr ⟨_, _, _, found⟩, rfl⟩
  | domain ranks => exact ⟨_, rank?_eq_some_iff.mpr ⟨_, _, _, found⟩, ranks⟩

theorem Tracks.rank?_of_declared (tracks : Tracks source current) {type canonical : TypeRef}
    (stands : canonical = type ∨ source.Represents current type canonical) {rank : Nat}
    (ranked : source.rank? type = some rank) :
    ∃ explicit, current.rank? canonical = some explicit ∧
      effectiveRank explicit = effectiveRank rank := by
  rcases stands with rfl | ⟨-, rfl⟩ | interns
  · exact tracks.rank?_current ranked
  · exact tracks.rank?_current ranked
  · rcases tracks.synthesized_of_interns interns with
      ⟨ref, symbol, text, -, -, rfl, -, called, canonicalCalled, synthesized⟩
    rcases interns with ⟨⟨form, anonymous⟩, -⟩
    rcases synthesized.node with ⟨other, _, canonicalAnonymous, -, -⟩
    rcases rank?_eq_some_iff.mp ranked with ⟨parent, companion, holder, stored⟩
    rcases node_unique anonymous stored with ⟨rfl, -⟩
    have shapes := called.shape_eq canonicalCalled anonymous canonicalAnonymous
    cases other with
    | domain recorded parent companion =>
        rcases tracks.rank?_current (rank?_eq_some_iff.mpr ⟨_, _, _, canonicalAnonymous⟩) with
          ⟨explicit, found, same⟩
        exact ⟨explicit, found, same.trans
          (called.effectiveRank_eq canonicalCalled anonymous canonicalAnonymous).symm⟩
    | _ => simp [TypeForm.shape] at shapes

theorem Tracks.rangeRank?_current (tracks : Tracks source current)
    {range : ExpressionRef} {rank : Nat} (ranked : source.rangeRank? range = some rank) :
    ∃ explicit, current.rangeRank? range = some explicit ∧
      effectiveRank explicit = effectiveRank rank := by
  simp only [rangeRank?, Option.bind_eq_bind, Option.bind_eq_some_iff] at ranked
  rcases ranked with ⟨domain, ranges, ranked⟩
  rcases rangeDomain?_eq_some_iff.mp ranges with ⟨single, ref, old, iterates, refers, stored, rfl⟩
  rcases tracks.symbols ref old stored with ⟨type, kept, stands⟩
  rcases tracks.rank?_of_declared stands ranked with ⟨explicit, found, same⟩
  refine ⟨explicit, ?_, same⟩
  have ranges : current.rangeDomain? range = some type :=
    rangeDomain?_eq_some_iff.mpr ⟨single, ref, _, by rw [tracks.expressions, iterates],
      by rw [tracks.expressions, refers], kept, rfl⟩
  simp only [rangeRank?, ranges, Option.bind_eq_bind, Option.bind_some, found]

theorem RecordedFor.rank?_eq (tracks : Tracks source current) {range : ExpressionRef}
    {domain : TypeRef} (records : source.RecordedFor range domain) {rank : Nat}
    (ranked : source.rangeRank? range = some rank) :
    ∃ explicit, current.rank? domain = some explicit ∧
      effectiveRank explicit = effectiveRank rank := by
  rcases records with ⟨written, recorded, again, recordedRank, same⟩
  cases Option.mem_unique ranked again
  rcases tracks.rank?_current recordedRank with ⟨explicit, found, equal⟩
  exact ⟨explicit, found, equal.trans same⟩

/-! ## A run preserves meanings -/

theorem Unfolds.leaf (tracks : Tracks source current) {type : TypeRef} {meaning : Meaning}
    {before after : TypeForm} {symbol holder : Option SymbolRef}
    {firstRank lastRank : ExpressionRef → Option TypeRef → Option Nat}
    (means : source.Unfolds firstRank type meaning)
    (old : source.types.get? type = some { form := before, symbol })
    (found : current.types.get? type = some { form := after, symbol := holder })
    (varies : source.Varies current before after) (isLeaf : before.element? = none) :
    current.Unfolds lastRank type meaning := by
  cases varies with
  | same =>
      cases means with
      | array again _ _ | sequence again _ =>
          rcases node_unique old again with ⟨rfl, -⟩
          simp [TypeForm.element?] at isLeaf
      | primitive again =>
          rcases node_unique old again with ⟨rfl, -⟩
          exact .primitive found
      | nominal again =>
          rcases node_unique old again with ⟨rfl, -⟩
          exact .nominal found
      | domain again =>
          rcases node_unique old again with ⟨rfl, -⟩
          exact .domain found
      | literal again denotes =>
          rcases node_unique old again with ⟨rfl, -⟩
          exact .literal found (by rw [tracks.expressions, denotes])
  | domain ranks =>
      rcases means.of_domain old with ⟨rfl, rfl⟩
      rw [← ranks]
      exact .domain found
  | array | sequence => simp [TypeForm.element?] at isLeaf

theorem Plain.scalar_of_fixed (plain : source.Plain) {type : TypeRef}
    (fixed : source.Fixed type) :
    ∃ form symbol, source.types.get? type = some { form, symbol } ∧ form.Scalar := by
  rcases fixed with ⟨form, symbol, stored, declared | scalar⟩
  · rcases Option.ne_none_iff_exists'.mp declared with ⟨ref, rfl⟩
    exact ⟨form, _, stored, plain.scalar_of_named stored⟩
  · exact ⟨form, symbol, stored, scalar⟩

theorem Fixed.unfolds (plain : source.Plain) (tracks : Tracks source current)
    {type : TypeRef} {meaning : Meaning}
    {firstRank lastRank : ExpressionRef → Option TypeRef → Option Nat}
    (fixed : source.Fixed type) (means : source.Unfolds firstRank type meaning) :
    current.Unfolds lastRank type meaning := by
  rcases plain.scalar_of_fixed fixed with ⟨form, symbol, stored, scalar⟩
  rcases tracks.types type form symbol stored with ⟨later, holder, found, varies, -⟩
  exact means.leaf tracks stored found varies (TypeForm.element?_of_scalar scalar)

theorem tree_of_usedIn (laid : LaidOut source)
    (trees : ∀ ref symbol, source.symbols.get? ref = some symbol → symbol.kind = .var →
      source.Tree symbol.type) {scope : ScopeRef} {type : TypeRef}
    (used : source.UsedIn scope type) : source.Tree type := by
  rcases used with ⟨var, declared, symbol, stored, -, member⟩
  rcases mem_declaredVariables_iff.mp declared with ⟨ref, placed, placedStored, declares⟩
  rcases (laid.statements ref placed placedStored).2 var
      (by simp only [Statement.declared?, declares]) with ⟨again, symbolStored, isVar⟩
  cases Option.mem_unique stored symbolStored
  exact (trees var symbol stored (isVar declares)).of_mem_chain member

theorem Represents.meansCanonically (laid : LaidOut source) (plain : source.Plain)
    (trees : ∀ scope type, source.UsedIn scope type → source.Tree type)
    (tracks : Tracks source current) {type canonical : TypeRef} {meaning : Meaning}
    (tree : source.Tree type) (represents : source.Represents current type canonical)
    (means : source.Means type meaning) : current.MeansCanonically canonical meaning := by
  rcases represents with ⟨fixed, rfl⟩ | interns
  · exact fixed.unfolds plain tracks means
  · -- The declaration may be that of another type, which means the same.
    rcases tracks.synthesized_of_interns interns with
      ⟨ref, symbol, text, -, -, rfl, -, called, canonicalCalled, synthesized⟩
    rcases synthesized.used with ⟨scope, used⟩
    have canonicalTree := trees scope symbol.type used
    have canonicalMeans : source.Means symbol.type meaning :=
      tree.means_of_called laid plain canonicalTree called canonicalCalled means
    rcases synthesized.node with ⟨before, after, old, found, complete⟩
    cases complete with
    | array represents records =>
        rcases Unfolds.of_array canonicalMeans old with ⟨inner, rank, rfl, ranked, innerMeans⟩
        rcases records.rank?_eq tracks ranked with ⟨explicit, recordedRank, same⟩
        rw [← same]
        exact .array found recordedRank
          (represents.meansCanonically laid plain trees tracks (canonicalTree.element old rfl)
            innerMeans)
    | sequence represents =>
        rcases Unfolds.of_sequence canonicalMeans old with ⟨inner, rfl, innerMeans⟩
        exact .sequence found
          (represents.meansCanonically laid plain trees tracks (canonicalTree.element old rfl)
            innerMeans)
    | leaf isLeaf =>
        rcases tracks.types symbol.type _ _ old with ⟨later, holder, again, varies, -⟩
        exact canonicalMeans.leaf tracks old again varies isLeaf
termination_by meaning

theorem Represents.meansStanding (laid : LaidOut source) (plain : source.Plain)
    (trees : ∀ scope type, source.UsedIn scope type → source.Tree type)
    (tracks : Tracks source current) {type canonical : TypeRef} {meaning : Meaning}
    (tree : source.Tree type) (represents : source.Represents current type canonical)
    (means : source.Means type meaning) : current.MeansStanding canonical meaning := by
  apply (represents.meansCanonically laid plain trees tracks tree means).mono
  intro range holds rank found
  rcases holds with _ | domain
  · simp [recordedRank] at found
  · simpa [recordedRank, standingRank] using found

theorem Tracks.meansStanding (laid : LaidOut source) (plain : source.Plain)
    (trees : ∀ scope type, source.UsedIn scope type → source.Tree type)
    (unrecorded : ∀ type element range recorded, source.types.get? type =
      some { form := .array element range recorded, symbol := none } → recorded = none)
    (tracks : Tracks source current) {type standing : TypeRef} {meaning : Meaning}
    (tree : source.Tree type)
    (stands : standing = type ∨ source.Represents current type standing)
    (means : source.Means type meaning) : current.MeansStanding standing meaning := by
  rcases stands with rfl | represents
  · induction tree generalizing meaning with
    | named stored => exact Fixed.unfolds plain tracks ⟨_, _, stored, .inl (by simp)⟩ means
    | @array type element range recorded stored inner induction =>
        rcases Unfolds.of_array means stored with ⟨part, rank, rfl, ranked, innerMeans⟩
        cases unrecorded _ _ _ _ stored
        rcases tracks.types _ _ _ stored with ⟨later, holder, found, varies, -⟩
        rcases tracks.rangeRank?_current ranked with ⟨explicit, standingRanked, same⟩
        cases varies with
        | same =>
            rw [← same]
            exact .array found standingRanked (induction innerMeans)
        | @array _ slot _ _ after replaced records =>
            have innerStanding : current.MeansStanding slot part := by
              rcases replaced with rfl | ⟨represents, -⟩
              · exact induction innerMeans
              · exact represents.meansStanding laid plain trees tracks inner innerMeans
            rcases records with rfl | ⟨domain, rfl, records⟩
            · rw [← same]
              exact .array found standingRanked innerStanding
            · rcases records.rank?_eq tracks ranked with ⟨_, recordedRanked, sameRecorded⟩
              rw [← sameRecorded]
              exact .array found recordedRanked innerStanding
    | @sequence type element stored inner induction =>
        rcases Unfolds.of_sequence means stored with ⟨part, rfl, innerMeans⟩
        rcases tracks.types _ _ _ stored with ⟨later, holder, found, varies, -⟩
        cases varies with
        | same => exact .sequence found (induction innerMeans)
        | sequence replaced =>
            rcases replaced with rfl | ⟨represents, -⟩
            · exact .sequence found (induction innerMeans)
            · exact .sequence found
                (represents.meansStanding laid plain trees tracks inner innerMeans)
    | domain stored | literal stored _ =>
        rcases tracks.types _ _ _ stored with ⟨later, holder, found, varies, -⟩
        exact Unfolds.leaf tracks means stored found varies rfl
  · exact represents.meansStanding laid plain trees tracks tree means

theorem Resolved.preserves_meaning (laid : LaidOut source) (plain : source.Plain)
    (trees : ∀ scope type, source.UsedIn scope type → source.Tree type)
    (tracks : Tracks source current) {var : SymbolRef}
    (member : var ∈ source.declaredVariables) (resolved : source.Resolved current var) :
    ∃ declared canonical meaning, source.typeOf? var = some declared ∧
      current.typeOf? var = some canonical ∧ source.Means declared meaning ∧
      current.MeansCanonically canonical meaning := by
  rcases resolved with ⟨old, canonical, oldStored, newStored, represents, -⟩
  have tree : source.Tree old.type :=
    trees old.scope old.type ⟨var, member, old, oldStored, rfl, mem_chain_self _⟩
  have meant : ∃ meaning, source.Means old.type meaning := by
    rcases represents with ⟨fixed, -⟩ | interns
    · rcases plain.scalar_of_fixed fixed with ⟨form, symbol, stored, scalar⟩
      exact exists_meaning_of_scalar stored scalar
    · rcases interns with ⟨_, _, _, _, _, -, -, -, called⟩
      exact tree.exists_meaning plain called
  rcases meant with ⟨meaning, means⟩
  exact ⟨old.type, canonical, meaning, typeOf?_eq_some oldStored, typeOf?_eq_some newStored,
    means, represents.meansCanonically laid plain trees tracks tree means⟩

end

end Program

/-- The walk over the variables of a program whose types are trees leaves each variable
with a type of the meaning that it was declared with. In particular, variables share a
canonical type only if they were declared with one meaning. Variables that no statement
declares keep their meaning, too, wherever their types are shared with others. -/
theorem variableTypes_preserves_meaning {calls : List Call} {source : Program}
    {own : Progress Unit} {final : Walker (Progress Unit)}
    (built : layOut calls = .ok source) (plain : source.Plain)
    (trees : ∀ var symbol, source.symbols.get? var = some symbol → symbol.kind = .var →
      source.Tree symbol.type)
    (ran : (variableTypes .silent).walkProgram ⟨source, own⟩ = .ok () final) :
    (∀ var ∈ source.declaredVariables, ∃ declared canonical meaning,
      source.typeOf? var = some declared ∧ final.program.typeOf? var = some canonical ∧
      source.Means declared meaning ∧ final.program.MeansCanonically canonical meaning) ∧
    (∀ left ∈ source.declaredVariables, ∀ right ∈ source.declaredVariables,
      final.program.typeOf? left = final.program.typeOf? right →
      ∃ first second meaning, source.typeOf? left = some first ∧
        source.typeOf? right = some second ∧ source.Means first meaning ∧
        source.Means second meaning) ∧
    ((∀ type element range recorded, source.types.get? type =
        some { form := .array element range recorded, symbol := none } → recorded = none) →
      ∀ var symbol, source.symbols.get? var = some symbol → symbol.kind = .var →
      ∃ standing, final.program.typeOf? var = some standing ∧
        ∀ meaning, source.Means symbol.type meaning →
        final.program.MeansStanding standing meaning) := by
  have laid := laidOut_of_layOut built
  rcases Program.resolved_of_walkProgram laid plain.unreserved ran with ⟨tracks, resolved⟩
  have usedTrees : ∀ scope type, source.UsedIn scope type → source.Tree type :=
    fun _ _ => Program.tree_of_usedIn laid trees
  have preserved : ∀ var ∈ source.declaredVariables, ∃ declared canonical meaning,
      source.typeOf? var = some declared ∧ final.program.typeOf? var = some canonical ∧
      source.Means declared meaning ∧
      final.program.MeansCanonically canonical meaning :=
    fun var member => (resolved var member).preserves_meaning laid plain usedTrees tracks member
  refine ⟨preserved, ?_, ?_⟩
  · intro left leftMember right rightMember same
    rcases preserved left leftMember with
      ⟨first, canonical, meaning, leftOld, leftNew, leftMeans, leftAfter⟩
    rcases preserved right rightMember with
      ⟨second, _, other, rightOld, rightNew, rightMeans, rightAfter⟩
    rw [leftNew, rightNew] at same
    cases Option.some.inj same
    cases leftAfter.unique rightAfter
    exact ⟨first, second, meaning, leftOld, rightOld, leftMeans, rightMeans⟩
  · intro unrecorded var symbol stored isVar
    rcases tracks.symbols var symbol stored with ⟨standing, kept, stands⟩
    refine ⟨standing, Program.typeOf?_eq_some kept, fun meaning means => ?_⟩
    exact tracks.meansStanding laid plain usedTrees unrecorded (trees var symbol stored isVar)
      stands means

def sequenceCalls : List Call :=
  [.addModule,
    .addType (.domain 0 none none), .declareVar ⟨1⟩ "D" ⟨7⟩,
    .addExpression (.reference ⟨7⟩), .addExpression (.iteration [⟨0⟩]),
    .addType .nominal, .declareType ⟨1⟩ "R" ⟨8⟩,
    .addType (.array ⟨8⟩ ⟨1⟩ none), .addType (.sequence ⟨9⟩), .declareVar ⟨1⟩ "s" ⟨10⟩,
    .addType (.array ⟨8⟩ ⟨1⟩ none), .addType (.sequence ⟨11⟩), .declareVar ⟨1⟩ "t" ⟨12⟩,
    .addExpression (.literal 3), .addType (.index ⟨2⟩), .declareVar ⟨1⟩ "i" ⟨13⟩]

/-- Both sequences become one type, which means what each of them was written to mean. -/
theorem variableTypes_preserves_meaning_of_sequences :
    ∃ source final meaning, layOut sequenceCalls = .ok source ∧
      (variableTypes .silent).walkProgram ⟨source, { journal := () }⟩ = .ok () final ∧
      final.program.typeOf? ⟨9⟩ = some ⟨10⟩ ∧ final.program.typeOf? ⟨10⟩ = some ⟨10⟩ ∧
      source.Means ⟨10⟩ meaning ∧ source.Means ⟨12⟩ meaning ∧
      final.program.MeansCanonically ⟨10⟩ meaning := by
  obtain ⟨source, isBuilt, plain, listed, domain, nominal, array, sequence, otherArray,
      otherSequence, index, literal, first, second, left, right, final, isFinal, leftFinal,
      rightFinal⟩ :
    ∃ source ∈ (layOut sequenceCalls).toOption, source.Plain ∧
      (∀ var symbol, source.symbols.get? var = some symbol → symbol.kind = .var →
        symbol.type ∈ [⟨7⟩, ⟨10⟩, ⟨12⟩, ⟨13⟩]) ∧
      source.types.get? ⟨7⟩ = some { form := .domain 0 none none } ∧
      source.types.get? ⟨8⟩ = some { form := .nominal, symbol := some ⟨8⟩ } ∧
      source.types.get? ⟨9⟩ = some { form := .array ⟨8⟩ ⟨1⟩ none } ∧
      source.types.get? ⟨10⟩ = some { form := .sequence ⟨9⟩ } ∧
      source.types.get? ⟨11⟩ = some { form := .array ⟨8⟩ ⟨1⟩ none } ∧
      source.types.get? ⟨12⟩ = some { form := .sequence ⟨11⟩ } ∧
      source.types.get? ⟨13⟩ = some { form := .index ⟨2⟩ } ∧
      source.expressions.get? ⟨2⟩ = some (.literal 3) ∧
      ⟨9⟩ ∈ source.declaredVariables ∧ ⟨10⟩ ∈ source.declaredVariables ∧
      source.typeOf? ⟨9⟩ = some ⟨10⟩ ∧ source.typeOf? ⟨10⟩ = some ⟨12⟩ ∧
      ∃ final ∈ finished? ((variableTypes .silent).walkProgram ⟨source, { journal := () }⟩),
        final.program.typeOf? ⟨9⟩ = some ⟨10⟩ ∧ final.program.typeOf? ⟨10⟩ = some ⟨10⟩ := by
    decide +kernel
  have built := Except.toOption_eq_some_iff.mp isBuilt
  have ran := finished?_eq_some_iff.mp isFinal
  have trees : ∀ var symbol, source.symbols.get? var = some symbol → symbol.kind = .var →
      source.Tree symbol.type := by
    intro var symbol stored isVar
    have member := listed var symbol stored isVar
    simp only [List.mem_cons, List.not_mem_nil, or_false] at member
    rcases member with same | same | same | same
    · exact same ▸ .domain domain
    · exact same ▸ .sequence sequence (.array array (.named nominal))
    · exact same ▸ .sequence otherSequence (.array otherArray (.named nominal))
    · exact same ▸ .literal index literal
  rcases variableTypes_preserves_meaning built plain trees ran with ⟨preserved, shared, -⟩
  rcases shared ⟨9⟩ first ⟨10⟩ second (leftFinal.trans rightFinal.symm) with
    ⟨_, _, _, leftSource, rightSource, leftMeans, rightMeans⟩
  rcases preserved ⟨9⟩ first with ⟨_, _, meaning, again, canonical, means, meansCanonically⟩
  rw [left] at leftSource again
  rw [right] at rightSource
  rw [leftFinal] at canonical
  cases Option.some.inj leftSource
  cases Option.some.inj rightSource
  cases Option.some.inj again
  cases Option.some.inj canonical
  cases leftMeans.unique means
  exact ⟨source, final, _, built, ran, leftFinal, rightFinal, leftMeans, rightMeans,
    meansCanonically⟩

end StructuralTypes
