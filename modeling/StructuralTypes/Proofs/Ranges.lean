import StructuralTypes.Proofs.Forest
import StructuralTypes.Proofs.Grounding

/-! References that lead somewhere. If all references that a program stores do, and its statements
are orderly, then passes leave it so at each of their steps, since they only put into it what is
there or what they have just added. -/

namespace StructuralTypes

theorem Arena.size_le_of_kept {entity : Entity} {α : Type} {before after : Arena entity α}
    (kept : ∀ ref entry, before.get? ref = some entry → ∃ later, after.get? ref = some later) :
    before.size ≤ after.size := by
  by_contra fewer
  have inside : (⟨after.size⟩ : Ref entity).index < before.size := Nat.lt_of_not_le fewer
  obtain ⟨entry, stored⟩ := exists_get?_of_lt_size inside
  obtain ⟨later, found⟩ := kept _ entry stored
  exact Nat.lt_irrefl _ (lt_size_of_get? found)

theorem NameTable.size_le_intern (table : NameTable) (text : String) :
    table.strings.size ≤ (table.intern text).2.strings.size := by
  unfold intern
  split
  · exact Nat.le_refl _
  · simp

theorem TypeForm.Rewrites.expressions_eq {form later : TypeForm} (rewrites : form.Rewrites later) :
    later.expressions = form.expressions := by
  cases rewrites <;> rfl

namespace Program

/-! ## Entries -/

def size (program : Program) : Entity → Nat
  | .name => program.names.strings.size
  | .type => program.types.size
  | .expression => program.expressions.size
  | .symbol => program.symbols.size
  | .scope => program.scopes.size
  | .statement => program.layout.statements.size
  | .body => program.layout.bodies.size

def Has (program : Program) {entity : Entity} (ref : Ref entity) : Prop :=
  ref.index < program.size entity

instance (program : Program) {entity : Entity} (ref : Ref entity) : Decidable (program.Has ref) :=
  inferInstanceAs (Decidable (_ < _))

def Outsizes (after before : Program) : Prop :=
  ∀ entity, before.size entity ≤ after.size entity

instance (after before : Program) : Decidable (after.Outsizes before) :=
  decidable_of_iff
    (∀ entity ∈ ([.name, .type, .expression, .symbol, .scope, .statement, .body] : List Entity),
      before.size entity ≤ after.size entity)
    ⟨fun outsizes entity => outsizes entity (by cases entity <;> simp),
      fun outsizes entity _ => outsizes entity⟩

variable {before middle after program : Program}

theorem Has.mono {entity : Entity} {ref : Ref entity} (has : before.Has ref)
    (outsizes : after.Outsizes before) : after.Has ref :=
  Nat.lt_of_lt_of_le has (outsizes entity)

theorem outsizes_intern (before : Program) (text : String) :
    Outsizes { before with names := (before.names.intern text).2 } before
  | .name => before.names.size_le_intern text
  | .type | .expression | .symbol | .scope | .statement | .body => Nat.le_refl _

theorem outsizes_of_types {types : Arena .type TypeNode} {type : TypeRef}
    {change : TypeNode → TypeNode} (modified : before.types.modify type change = .ok types) :
    Outsizes { before with types } before
  | .type => (Arena.size_of_modify modified).ge
  | .name | .expression | .symbol | .scope | .statement | .body => Nat.le_refl _

theorem Introduces.outsizes {scope : ScopeRef} {text : String} {fresh : TypeRef}
    {finish : TypeForm → TypeForm} {position : Position}
    (introduces : before.Introduces scope text fresh finish position after) :
    after.Outsizes before := by
  obtain ⟨body, statements⟩ := introduces.new_statement
  intro entity
  cases entity with
  | name => simpa only [size, introduces.names] using before.names.size_le_intern text
  | type => exact (Arena.size_of_modify introduces.types).ge
  | expression => simp [size, introduces.expressions]
  | symbol => simp [size, introduces.symbols]
  | scope => exact (Arena.size_of_modify introduces.scopes).ge
  | statement => simp [size, statements]
  | body => exact introduces.layout_extends.size.ge

theorem Retains.outsizes (retains : before.Retains after) : after.Outsizes before
  | .name => Arena.size_le_of_kept fun name text named => ⟨text, retains.names name text named⟩
  | .type => retains.size.ge
  | .expression => Nat.le_of_eq (congrArg Arena.size retains.expressions.symm)
  | .symbol => Arena.size_le_of_kept fun ref symbol stored =>
      let ⟨type, found⟩ := retains.symbols ref symbol stored
      ⟨{ symbol with type }, found⟩
  | .scope => Arena.size_le_of_kept fun scope content stored =>
      (retains.scopes scope content stored).imp fun _ found => found.1
  | .statement => Arena.size_le_of_kept fun ref placed stored =>
      ⟨placed, retains.layout.statements ref placed stored⟩
  | .body => retains.layout.size.ge

end Program

/-! ## References of an entry -/

section

variable (program : Program)

def TypeNode.InRange (node : TypeNode) : Prop :=
  (∀ part ∈ node.form.children, program.Has part) ∧
  (∀ expression ∈ node.form.expressions, program.Has expression) ∧
  ∀ symbol ∈ node.symbol, program.Has symbol

def Expression.InRange : Expression → Prop
  | .literal _ => True
  | .reference symbol => program.Has symbol
  | .iteration domains => ∀ domain ∈ domains, program.Has domain

def Symbol.InRange (symbol : Symbol) : Prop :=
  program.Has symbol.name ∧ program.Has symbol.type ∧ program.Has symbol.scope ∧
  ∀ declaration ∈ symbol.definition.statement?, program.Has declaration

def Scope.InRange (scope : Scope) : Prop :=
  (∀ parent ∈ scope.parent, program.Has parent) ∧
  ∀ binding ∈ scope.bindings, program.Has binding.1 ∧ program.Has binding.2

def StatementKind.InRange : StatementKind → Prop
  | .typeDeclaration symbol | .varDeclaration symbol => program.Has symbol
  | .expression value => program.Has value
  | .block body => program.Has body

instance (node : TypeNode) : Decidable (node.InRange program) :=
  inferInstanceAs (Decidable (_ ∧ _ ∧ _))

instance : (expression : Expression) → Decidable (expression.InRange program)
  | .literal _ => inferInstanceAs (Decidable True)
  | .reference _ => inferInstanceAs (Decidable (program.Has _))
  | .iteration domains => inferInstanceAs (Decidable (∀ domain ∈ domains, program.Has domain))

instance (symbol : Symbol) : Decidable (symbol.InRange program) :=
  inferInstanceAs (Decidable (_ ∧ _ ∧ _ ∧ _))

instance (scope : Scope) : Decidable (scope.InRange program) :=
  inferInstanceAs (Decidable (_ ∧ _))

instance : (kind : StatementKind) → Decidable (kind.InRange program)
  | .typeDeclaration _ | .varDeclaration _ | .expression _ | .block _ =>
      inferInstanceAs (Decidable (program.Has _))

end

section

variable {before after : Program} (outsizes : after.Outsizes before)
include outsizes

theorem TypeNode.InRange.mono {node : TypeNode} (inRange : node.InRange before) :
    node.InRange after :=
  ⟨fun part member => (inRange.1 part member).mono outsizes,
    fun expression member => (inRange.2.1 expression member).mono outsizes,
    fun symbol member => (inRange.2.2 symbol member).mono outsizes⟩

theorem Expression.InRange.mono {expression : Expression} (inRange : expression.InRange before) :
    expression.InRange after := by
  cases expression with
  | literal => trivial
  | reference => exact Program.Has.mono inRange outsizes
  | iteration => exact fun domain member => (inRange domain member).mono outsizes

theorem Symbol.InRange.mono {symbol : Symbol} (inRange : symbol.InRange before) :
    symbol.InRange after :=
  ⟨inRange.1.mono outsizes, inRange.2.1.mono outsizes, inRange.2.2.1.mono outsizes,
    fun declaration member => (inRange.2.2.2 declaration member).mono outsizes⟩

theorem Scope.InRange.mono {scope : Scope} (inRange : scope.InRange before) :
    scope.InRange after :=
  ⟨fun parent member => (inRange.1 parent member).mono outsizes, fun binding member =>
    ⟨(inRange.2 binding member).1.mono outsizes, (inRange.2 binding member).2.mono outsizes⟩⟩

theorem StatementKind.InRange.mono {kind : StatementKind} (inRange : kind.InRange before) :
    kind.InRange after := by
  cases kind <;> exact Program.Has.mono inRange outsizes

end

namespace Program

variable {before after program : Program}

/-! ## References of a program -/

/-- All references that the program stores lead to its entries. -/
structure InRange (program : Program) : Prop where
  types : ∀ type node, program.types.get? type = some node → node.InRange program
  expressions : ∀ ref expression, program.expressions.get? ref = some expression →
    expression.InRange program
  symbols : ∀ ref symbol, program.symbols.get? ref = some symbol → symbol.InRange program
  scopes : ∀ scope content, program.scopes.get? scope = some content → content.InRange program
  statements : ∀ ref placed, program.layout.statements.get? ref = some placed →
    placed.statement.kind.InRange program
  bodies : ∀ body content, program.layout.bodies.get? body = some content →
    program.Has content.scope
  roots : ∀ body ∈ program.roots, program.Has body
  shared : program.Has sharedScope

instance (program : Program) : Decidable program.InRange :=
  decidable_of_iff
    ((∀ type node, program.types.get? type = some node → node.InRange program) ∧
      (∀ ref expression, program.expressions.get? ref = some expression →
        expression.InRange program) ∧
      (∀ ref symbol, program.symbols.get? ref = some symbol → symbol.InRange program) ∧
      (∀ scope content, Arena.get? program.scopes scope = some content →
        content.InRange program) ∧
      (∀ ref placed, program.layout.statements.get? ref = some placed →
        placed.statement.kind.InRange program) ∧
      (∀ body content, program.layout.bodies.get? body = some content →
        program.Has content.scope) ∧
      (∀ body ∈ program.roots, program.Has body) ∧ program.Has sharedScope)
    ⟨fun ⟨types, expressions, symbols, scopes, statements, bodies, roots, shared⟩ =>
        ⟨types, expressions, symbols, scopes, statements, bodies, roots, shared⟩,
      fun inRange => ⟨inRange.types, inRange.expressions, inRange.symbols, inRange.scopes,
        inRange.statements, inRange.bodies, inRange.roots, inRange.shared⟩⟩

theorem InRange.of_outsizes (inRange : before.InRange) (outsizes : after.Outsizes before)
    (types : ∀ type node, after.types.get? type = some node →
      before.types.get? type = some node ∨ node.InRange after)
    (expressions : after.expressions = before.expressions)
    (symbols : ∀ ref symbol, after.symbols.get? ref = some symbol →
      before.symbols.get? ref = some symbol ∨ symbol.InRange after)
    (scopes : ∀ scope content, after.scopes.get? scope = some content →
      before.scopes.get? scope = some content ∨ content.InRange after)
    (statements : ∀ ref placed, after.layout.statements.get? ref = some placed →
      before.layout.statements.get? ref = some placed ∨ placed.statement.kind.InRange after)
    (bodies : ∀ body content, after.layout.bodies.get? body = some content →
      ∃ old, before.layout.bodies.get? body = some old ∧ content.scope = old.scope)
    (modules : after.modules = before.modules) : after.InRange where
  types type node stored := (types type node stored).elim
    (fun old => (inRange.types type node old).mono outsizes) id
  expressions ref expression stored :=
    (inRange.expressions ref expression (expressions ▸ stored)).mono outsizes
  symbols ref symbol stored := (symbols ref symbol stored).elim
    (fun old => (inRange.symbols ref symbol old).mono outsizes) id
  scopes scope content stored := (scopes scope content stored).elim
    (fun old => (inRange.scopes scope content old).mono outsizes) id
  statements ref placed stored := (statements ref placed stored).elim
    (fun old => (inRange.statements ref placed old).mono outsizes) id
  bodies body content stored := by
    obtain ⟨old, oldStored, same⟩ := bodies body content stored
    exact same ▸ (inRange.bodies body old oldStored).mono outsizes
  roots body member := by
    rw [Program.roots, modules] at member
    exact (inRange.roots body member).mono outsizes
  shared := inRange.shared.mono outsizes

/-- All references lead somewhere, and statements are listed where they say that they are. -/
structure Ranged (program : Program) : Prop extends InRange program where
  orderly : program.layout.Orderly

theorem Named.has {type : TypeRef} (named : program.Named type) : program.Has type := by
  obtain ⟨form, ref, stored⟩ := named
  exact Arena.lt_size_of_get? stored

namespace InRange

variable (inRange : before.InRange)
include inRange

theorem has_of_bindsKey {key : CanonicalKey} {type : TypeRef} (binds : before.BindsKey key type) :
    before.Has type := by
  obtain ⟨scope, name, ref, symbol, -, -, stored, rfl⟩ := binds
  exact (inRange.symbols ref symbol stored).2.1

/-! ## Changes -/

theorem intern (text : String) : InRange { before with names := (before.names.intern text).2 } :=
  inRange.of_outsizes (outsizes_intern before text)
    (fun _ _ => .inl) rfl (fun _ _ => .inl) (fun _ _ => .inl) (fun _ _ => .inl)
    (fun _ content stored => ⟨content, stored, rfl⟩) rfl

theorem changeForm {type : TypeRef} {node : TypeNode} {change : TypeForm → TypeForm}
    {types : Arena .type TypeNode} (stored : before.types.get? type = some node)
    (modified : before.types.modify type (fun node => { node with form := change node.form }) =
      .ok types)
    (parts : ∀ part ∈ (change node.form).children, before.Has part)
    (expressions : (change node.form).expressions = node.form.expressions) :
    InRange { before with types } := by
  have outsizes := outsizes_of_types modified
  refine inRange.of_outsizes outsizes ?_ rfl (fun _ _ => .inl) (fun _ _ => .inl) (fun _ _ => .inl)
    (fun _ content found => ⟨content, found, rfl⟩) rfl
  intro other later found
  obtain ⟨old, oldStored, rfl⟩ := Arena.get?_eq_some_of_modify modified found
  split
  · rename_i same
    cases Option.mem_unique stored (same ▸ oldStored)
    have old := inRange.types type node stored
    exact .inr (TypeNode.InRange.mono outsizes ⟨parts, expressions ▸ old.2.1, old.2.2⟩)
  · exact .inl oldStored

theorem setSymbolType {ref : SymbolRef} {type : TypeRef} {symbols : Arena .symbol Symbol}
    (has : before.Has type)
    (modified : before.symbols.modify ref (fun symbol => { symbol with type }) = .ok symbols) :
    InRange { before with symbols } := by
  have size : symbols.size = before.symbols.size := Arena.size_of_modify modified
  have outsizes : Outsizes { before with symbols } before := by
    intro entity
    cases entity with
    | symbol => exact size.ge
    | _ => exact Nat.le_refl _
  refine inRange.of_outsizes outsizes (fun _ _ => .inl) rfl ?_ (fun _ _ => .inl) (fun _ _ => .inl)
    (fun _ content found => ⟨content, found, rfl⟩) rfl
  intro other later found
  obtain ⟨old, oldStored, rfl⟩ := Arena.get?_eq_some_of_modify modified found
  split
  · obtain ⟨name, -, scope, definition⟩ := inRange.symbols other old oldStored
    exact .inr (Symbol.InRange.mono outsizes ⟨name, has, scope, definition⟩)
  · exact .inl oldStored

theorem introduce {scope : ScopeRef} {text : String} {fresh : TypeRef} {node : TypeNode}
    {finish : TypeForm → TypeForm} {position : Position}
    (introduces : before.Introduces scope text fresh finish position after)
    (stored : before.types.get? fresh = some node) (has : before.Has scope)
    (parts : ∀ part ∈ (finish node.form).children, before.Has part)
    (expressions : (finish node.form).expressions = node.form.expressions) : after.InRange := by
  obtain ⟨body, statements⟩ := introduces.new_statement
  have extension := introduces.layout_extends
  have outsizes := introduces.outsizes
  have declared : after.Has before.symbols.next :=
    Arena.lt_size_of_get? introduces.new_symbol
  have named : after.Has (before.names.intern text).1 :=
    Arena.lt_size_of_get? introduces.new_name
  refine inRange.of_outsizes outsizes ?_ introduces.expressions ?_ ?_ ?_ ?_ introduces.modules
  · intro type later found
    obtain ⟨old, oldStored, rfl⟩ := Arena.get?_eq_some_of_modify introduces.types found
    split
    · rename_i same
      cases Option.mem_unique stored (same ▸ oldStored)
      have old := inRange.types fresh node stored
      exact .inr ⟨fun part member => (parts part member).mono outsizes,
        fun expression member => (old.2.1 expression (expressions ▸ member)).mono outsizes,
        fun symbol member => Option.mem_some_iff.mp member ▸ declared⟩
    · exact .inl oldStored
  · intro ref symbol found
    rw [introduces.symbols] at found
    rcases Arena.eq_next_or_get?_of_push found with ⟨-, rfl⟩ | old
    · refine .inr ⟨named, Has.mono (Arena.lt_size_of_get? stored) outsizes, has.mono outsizes, ?_⟩
      rintro declaration ⟨⟩
      exact (by simp [Has, size, statements, Arena.next])
    · exact .inl old
  · intro other content found
    obtain ⟨old, oldStored, rfl⟩ := Arena.get?_eq_some_of_modify introduces.scopes found
    split
    · obtain ⟨parent, bindings⟩ := Scope.InRange.mono outsizes (inRange.scopes other old oldStored)
      exact .inr ⟨parent, List.forall_mem_cons.mpr ⟨⟨named, declared⟩, bindings⟩⟩
    · exact .inl oldStored
  · intro ref placed found
    rw [statements] at found
    rcases Arena.eq_next_or_get?_of_push found with ⟨-, rfl⟩ | old
    · exact .inr declared
    · exact .inl old
  · intro other content found
    obtain ⟨old, oldStored⟩ : ∃ old, before.layout.bodies.get? other = some old :=
      Arena.exists_get?_of_lt_size (extension.size ▸ Arena.lt_size_of_get? found)
    obtain ⟨later, laterFound, same, -⟩ := extension.orders other old oldStored
    cases Option.mem_unique found laterFound
    exact ⟨old, oldStored, same⟩

end InRange

/-! ## Answers -/

theorem exists_form {type : TypeRef} (has : program.Has type) :
    ∃ form, program.form type = .ok form := by
  obtain ⟨node, stored⟩ := Arena.exists_get?_of_lt_size has
  exact ⟨node.form, form_eq_ok_iff.mpr ⟨node.symbol, stored⟩⟩

theorem exists_shape {type : TypeRef} (has : program.Has type) :
    ∃ shape, program.shape type = .ok shape := by
  obtain ⟨node, stored⟩ := Arena.exists_get?_of_lt_size has
  exact ⟨node.form.shape, shape_eq_ok_iff.mpr ⟨node, stored, rfl⟩⟩

theorem exists_statement {ref : StatementRef} (has : program.Has ref) :
    ∃ statement, program.statement ref = .ok statement := by
  obtain ⟨placed, stored⟩ := Arena.exists_get?_of_lt_size has
  exact ⟨placed.statement, Layout.statement_eq_ok_iff.mpr ⟨placed.body, stored⟩⟩

namespace InRange

variable (inRange : program.InRange)
include inRange

theorem of_form {type : TypeRef} {form : TypeForm} (found : program.form type = .ok form) :
    (∀ part ∈ form.children, program.Has part) ∧
      ∀ expression ∈ form.expressions, program.Has expression := by
  obtain ⟨symbol, stored⟩ := form_eq_ok_iff.mp found
  exact ⟨(inRange.types type _ stored).1, (inRange.types type _ stored).2.1⟩

theorem exists_typeSymbol? {type : TypeRef} (has : program.Has type) :
    ∃ symbol, program.typeSymbol? type = .ok symbol ∧ ∀ ref ∈ symbol, program.Has ref := by
  obtain ⟨node, stored⟩ := Arena.exists_get?_of_lt_size has
  exact ⟨node.symbol, typeSymbol?_eq_ok_iff.mpr ⟨node.form, stored⟩,
    (inRange.types type node stored).2.2⟩

theorem exists_symbol {ref : SymbolRef} (has : program.Has ref) :
    ∃ symbol, program.symbol ref = .ok symbol ∧ symbol.InRange program := by
  obtain ⟨symbol, stored⟩ := Arena.exists_get?_of_lt_size has
  exact ⟨symbol, symbol_eq_ok_iff.mpr stored, inRange.symbols ref symbol stored⟩

theorem exists_symbolName {ref : SymbolRef} (has : program.Has ref) :
    ∃ text, program.symbolName ref = .ok text := by
  obtain ⟨symbol, stored⟩ := Arena.exists_get?_of_lt_size has
  obtain ⟨text, named⟩ := Arena.exists_get?_of_lt_size (inRange.symbols ref symbol stored).1
  exact ⟨text, symbolName_eq_ok_iff.mpr ⟨symbol, stored, named⟩⟩

theorem exists_typeName? {type : TypeRef} (has : program.Has type) :
    ∃ name, program.typeName? type = .ok name := by
  obtain ⟨symbol, found, inside⟩ := inRange.exists_typeSymbol? has
  cases symbol with
  | none => exact ⟨none, typeName?_eq_none_iff.mpr (typeSymbol?_eq_ok_iff.mp found)⟩
  | some ref =>
      obtain ⟨text, named⟩ := inRange.exists_symbolName (inside ref rfl)
      obtain ⟨symbol, stored, isText⟩ := symbolName_eq_ok_iff.mp named
      obtain ⟨form, declared⟩ := typeSymbol?_eq_ok_iff.mp found
      exact ⟨some text, typeName?_eq_some_iff.mpr ⟨form, ref, symbol, declared, stored, isText⟩⟩

theorem exists_expression {ref : ExpressionRef} (has : program.Has ref) :
    ∃ expression, program.expression ref = .ok expression ∧ expression.InRange program := by
  obtain ⟨expression, stored⟩ := Arena.exists_get?_of_lt_size has
  exact ⟨expression, expression_eq_ok_iff.mpr stored, inRange.expressions ref expression stored⟩

theorem exists_lookup {scope : ScopeRef} (has : program.Has scope) (name : NameRef) :
    ∃ found, program.lookup scope name = .ok found ∧ ∀ ref ∈ found, program.Has ref := by
  obtain ⟨content, stored⟩ := Arena.exists_get?_of_lt_size has
  cases found : content.lookup name with
  | none => exact ⟨none, lookup_eq_none_iff.mpr ⟨content, stored, found⟩, nofun⟩
  | some ref =>
      refine ⟨some ref, lookup_eq_some_iff.mpr ⟨content, stored, found⟩, ?_⟩
      rintro other ⟨⟩
      obtain ⟨front, back, split, -⟩ := List.lookup_eq_some_iff.mp found
      exact ((inRange.scopes scope content stored).2 (name, ref) (by simp [split])).2

theorem exists_homeBeside {ref : SymbolRef} (has : program.Has ref) :
    ∃ home, program.homeBeside ref = .ok home := by
  obtain ⟨symbol, stored⟩ := Arena.exists_get?_of_lt_size has
  obtain ⟨content, scopeStored⟩ :=
    Arena.exists_get?_of_lt_size (inRange.symbols ref symbol stored).2.2.1
  exact ⟨_, homeBeside_eq_ok_iff.mpr ⟨symbol, content, stored, scopeStored, rfl⟩⟩

theorem has_scope_of_homeBeside {ref : SymbolRef} {home : Home}
    (beside : program.homeBeside ref = .ok home) : program.Has home.scope := by
  obtain ⟨symbol, content, stored, -, rfl⟩ := homeBeside_eq_ok_iff.mp beside
  split
  · exact inRange.shared
  · exact (inRange.symbols ref symbol stored).2.2.1

theorem exists_linkedDeclaration? {ref : SymbolRef} (has : program.Has ref) :
    ∃ declaration, program.linkedDeclaration? ref = .ok declaration := by
  obtain ⟨symbol, found, -, -, -, inside⟩ := inRange.exists_symbol has
  rw [linkedDeclaration?, found]
  cases defined : symbol.definition.statement? with
  | none => exact ⟨none, by simp [defined, bind, Except.bind, pure, Except.pure]⟩
  | some declaration =>
      obtain ⟨placed, stored⟩ := Arena.exists_get?_of_lt_size (inside declaration defined)
      exact ⟨placed.body.map fun _ => declaration,
        by simp [defined, Layout.bodyOf_of_get? stored, bind, Except.bind, pure, Except.pure]⟩

theorem has_declared {ref : StatementRef} {statement : Statement} {declared : SymbolRef}
    (found : program.statement ref = .ok statement)
    (declares : statement.declared? = some declared) : program.Has declared := by
  obtain ⟨body, stored⟩ := Layout.statement_eq_ok_iff.mp found
  have inside := inRange.statements ref _ stored
  unfold Statement.declared? at declares
  split at declares <;> simp_all [StatementKind.InRange]

theorem exists_statementScope? {ref : StatementRef} (has : program.Has ref) :
    ∃ scope, program.statementScope? ref = .ok scope := by
  obtain ⟨statement, found⟩ := exists_statement has
  cases declares : statement.declared? with
  | none =>
      exact ⟨none, by simp [statementScope?, found, declares, bind, Except.bind, pure, Except.pure]⟩
  | some declared =>
      obtain ⟨symbol, symbolFound, -⟩ :=
        inRange.exists_symbol (inRange.has_declared found declares)
      exact ⟨some symbol.scope, by
        simp [statementScope?, found, declares, symbolFound, bind, Except.bind, pure, Except.pure]⟩

end InRange

/-! ## Steps -/

namespace Ranged

theorem step (ranged : before.Ranged) (step : Step before after) : after.Ranged := by
  cases step with
  | intern text => exact ⟨ranged.toInRange.intern text, ranged.orderly⟩
  | @reform type form change types stored rewrites modified _ parts =>
      have expressions := rewrites.expressions_eq
      refine ⟨ranged.toInRange.changeForm stored modified ?_ expressions, ranged.orderly⟩
      intro part member
      rcases parts part member with old | ⟨key, binds⟩
      · exact (ranged.types type _ stored).1 part old
      · exact ranged.toInRange.has_of_bindsKey binds
  | @introduce fresh form finish text home position content _ stored rewrites named _ _ scopeStored
      _ introduces _ bare parts =>
      refine ⟨ranged.toInRange.introduce introduces stored (Arena.lt_size_of_get? scopeStored) ?_
        rewrites.expressions_eq, (ranged.orderly.addStatement _).of_position introduces.layout⟩
      intro part member
      cases found : (finish form).element? with
      | none =>
          have same := bare (by_contra fun composite => rewrites.element?_ne_none composite found)
          exact (ranged.types fresh _ stored).1 part (same ▸ member)
      | some element =>
          rcases parts element found part member with rfl | ⟨rank, ranked⟩
          · exact (named part (TypeForm.mem_constituents_of_element? found)).has
          · obtain ⟨_, _, _, isDomain⟩ := rank?_eq_some_iff.mp ranked
            exact Arena.lt_size_of_get? isDomain
  | retype stored declares modified taken =>
      refine ⟨ranged.toInRange.setSymbolType ?_ modified, ranged.orderly⟩
      rcases taken with ⟨symbol, found, rfl⟩ | ⟨key, binds⟩
      · exact (ranged.symbols _ symbol found).2.1
      · exact ranged.toInRange.has_of_bindsKey binds

theorem companionStep (ranged : before.Ranged) (step : CompanionStep before after) :
    after.Ranged := by
  cases step with
  | intern text => exact ⟨ranged.toInRange.intern text, ranged.orderly⟩
  | introduce stored scopeStored free introduces =>
      exact ⟨ranged.toInRange.introduce introduces stored (Arena.lt_size_of_get? scopeStored)
        (ranged.types _ _ stored).1 rfl,
        (ranged.orderly.addStatement _).of_position introduces.layout⟩
  | recompanion stored modified settled =>
      refine ⟨ranged.toInRange.changeForm stored modified ?_ rfl, ranged.orderly⟩
      have old := (ranged.types _ _ stored).1
      intro part member
      rcases List.mem_append.mp member with isParent | isCompanion
      · exact old part (List.mem_append.mpr (.inl isParent))
      · cases List.mem_singleton.mp isCompanion
        rcases settled with rfl | ⟨domain, binds⟩
        · exact old _ (List.mem_append.mpr (.inr (List.mem_singleton_self _)))
        · exact ranged.toInRange.has_of_bindsKey binds

theorem steps (ranged : before.Ranged) (steps : Steps before after) : after.Ranged := by
  induction steps with
  | refl => exact ranged
  | tail _ step induction => exact induction.step step

theorem companionSteps (ranged : before.Ranged) (steps : CompanionSteps before after) :
    after.Ranged := by
  induction steps with
  | refl => exact ranged
  | tail _ step induction => exact induction.companionStep step

end Ranged

end Program

end StructuralTypes
