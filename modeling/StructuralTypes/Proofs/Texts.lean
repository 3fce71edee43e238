import StructuralTypes.Program.Text
import StructuralTypes.Proofs.Descent
import StructuralTypes.Proofs.Ranges

/-! Texts that can be written. Where all references lead somewhere, and neither types nor iterations
are parts of themselves, every type and every statement has a text. -/

namespace StructuralTypes

def Expression.domains : Expression → List ExpressionRef
  | .iteration domains => domains
  | .literal _ | .reference _ => []

namespace Program

variable {program : Program}

/-- Iterations are over older expressions. -/
def IteratesOlder (program : Program) : Prop :=
  ∀ ref expression, program.expressions.get? ref = some expression →
    ∀ domain ∈ expression.domains, domain.index < ref.index

instance (program : Program) : Decidable program.IteratesOlder :=
  inferInstanceAs (Decidable (∀ ref expression, program.expressions.get? ref = some expression → _))

variable (inRange : program.InRange) (older : program.IteratesOlder)
include inRange older

theorem exists_expressionTextWithin {depth : Nat} {ref : ExpressionRef} (has : program.Has ref)
    (deep : ref.index < depth) : ∃ text, program.expressionTextWithin depth ref = .ok text := by
  induction depth generalizing ref with
  | zero => exact absurd deep (Nat.not_lt_zero _)
  | succ depth induction =>
      obtain ⟨expression, found, inside⟩ := inRange.exists_expression has
      refine Except.exists_bind found ?_
      cases expression with
      | literal value => exact ⟨_, rfl⟩
      | reference symbol => exact inRange.exists_symbolName inside
      | iteration domains =>
          have each : ∀ domain ∈ domains, ∃ text,
              program.expressionTextWithin depth domain = .ok text ∧ True := by
            intro domain member
            have less := older ref _ (expression_eq_ok_iff.mp found) domain member
            obtain ⟨text, written⟩ := induction (inside domain member) (by omega)
            exact ⟨text, written, trivial⟩
          obtain ⟨texts, written, -⟩ := exists_mapM_eq_ok each
          exact Except.exists_bind written ⟨_, rfl⟩

theorem exists_expressionText {ref : ExpressionRef} (has : program.Has ref) :
    ∃ text, program.expressionText ref = .ok text :=
  exists_expressionTextWithin inRange older has (Nat.lt_succ_of_lt has)

variable (acyclic : program.Acyclic)
include acyclic

theorem exists_typeTextWithin {depth : Nat} {type : TypeRef} (has : program.Has type)
    (roomy : program.Roomy depth type) : ∃ text, program.typeTextWithin depth type = .ok text := by
  induction depth generalizing type with
  | zero => exact absurd roomy.1 (Nat.lt_irrefl _)
  | succ depth induction =>
      obtain ⟨name, named⟩ := inRange.exists_typeName? has
      refine Except.exists_bind named ?_
      cases name with
      | some name => exact ⟨name, rfl⟩
      | none =>
          obtain ⟨form, found⟩ := exists_form has
          refine Except.exists_bind found ?_
          obtain ⟨symbol, stored⟩ := form_eq_ok_iff.mp found
          have inside := inRange.of_form found
          have parts : ∀ part ∈ form.children,
              ∃ text, program.typeTextWithin depth part = .ok text :=
            fun part member => induction (inside.1 part member)
              (roomy.part acyclic ⟨_, stored, member⟩)
          cases form with
          | primitive primitive => exact ⟨_, rfl⟩
          | nominal => exact ⟨_, rfl⟩
          | array element range recorded =>
              obtain ⟨rangeText, written⟩ :=
                exists_expressionText inRange older
                  (inside.2 range (by simp [TypeForm.expressions]))
              obtain ⟨text, elementWritten⟩ := parts element (by simp [TypeForm.children])
              exact Except.exists_bind written (Except.exists_bind elementWritten ⟨_, rfl⟩)
          | domain rank parent companion =>
              cases parent with
              | none => exact ⟨_, rfl⟩
              | some parent =>
                  obtain ⟨text, written⟩ := parts parent (by simp [TypeForm.children])
                  exact Except.exists_bind written ⟨_, rfl⟩
          | tuple components =>
              have each : ∀ component ∈ components, ∃ text,
                  program.typeTextWithin depth component = .ok text ∧ True :=
                fun component member => (parts component member).imp fun _ => (⟨·, trivial⟩)
              obtain ⟨texts, written, -⟩ := exists_mapM_eq_ok each
              exact Except.exists_bind written ⟨_, rfl⟩
          | sequence element =>
              obtain ⟨text, written⟩ := parts element (by simp [TypeForm.children])
              exact Except.exists_bind written ⟨_, rfl⟩
          | index subject =>
              obtain ⟨text, written⟩ :=
                exists_expressionText inRange older
                  (inside.2 subject (by simp [TypeForm.expressions]))
              exact Except.exists_bind written ⟨_, rfl⟩

theorem exists_typeText {type : TypeRef} (has : program.Has type) :
    ∃ text, program.typeText type = .ok text :=
  exists_typeTextWithin inRange older acyclic has
    (roomy_of_size_lt acyclic (Nat.lt_succ_self _) type)

theorem exists_statementText {ref : StatementRef} (has : program.Has ref) :
    ∃ text, program.statementText ref = .ok text := by
  obtain ⟨statement, found⟩ := exists_statement has
  refine Except.exists_bind found ?_
  obtain ⟨body, stored⟩ := Layout.statement_eq_ok_iff.mp found
  have inside := inRange.statements ref _ stored
  cases declares : statement.kind with
  | typeDeclaration symbol =>
      rw [declares] at inside
      obtain ⟨name, named⟩ := inRange.exists_symbolName inside
      exact Except.exists_bind named ⟨_, rfl⟩
  | varDeclaration symbol =>
      rw [declares] at inside
      obtain ⟨name, named⟩ := inRange.exists_symbolName inside
      obtain ⟨record, symbolFound, -, hasType, -⟩ := inRange.exists_symbol inside
      obtain ⟨text, written⟩ := exists_typeText inRange older acyclic hasType
      exact Except.exists_bind named (Except.exists_bind symbolFound
        (Except.exists_bind written ⟨_, rfl⟩))
  | expression value =>
      rw [declares] at inside
      obtain ⟨text, written⟩ := exists_expressionText inRange older inside
      exact Except.exists_bind written ⟨_, rfl⟩
  | block inner => exact ⟨_, rfl⟩

end Program

end StructuralTypes
