import StructuralTypes.Proofs.Placement

/-! Programs that are built up from the initial one, call by call. Every reference
that a call mentions was handed out by an earlier call, so the parts of a type are
older than the type, names and symbols lead somewhere, and every statement stands in
a body that can be reached. -/

namespace StructuralTypes

inductive Call where
  | addModule
  | addBlock (body : BodyRef)
  | declareVar (body : BodyRef) (text : String) (type : TypeRef)
  | declareType (body : BodyRef) (text : String) (type : TypeRef)
  | declareDetachedVar (scope : ScopeRef) (text : String) (type : TypeRef)
  | addType (form : TypeForm)
  | addExpression (expression : Expression)
  | addStatement (body : BodyRef) (expression : ExpressionRef)
  deriving DecidableEq, Repr

def TypeForm.expressions : TypeForm → List ExpressionRef
  | .array _ range _ => [range]
  | .index subject => [subject]
  | _ => []

namespace Call

/-! ## What a call mentions

References to scopes and bodies are not listed, since following one that leads
nowhere faults anyway. -/

def types : Call → List TypeRef
  | .declareVar _ _ type | .declareType _ _ type | .declareDetachedVar _ _ type =>
      [type]
  | .addType form => form.children
  | _ => []

def expressions : Call → List ExpressionRef
  | .addType form => form.expressions
  | .addExpression (.iteration domains) => domains
  | .addStatement _ expression => [expression]
  | _ => []

def symbols : Call → List SymbolRef
  | .addExpression (.reference symbol) => [symbol]
  | _ => []

def Valid (call : Call) (program : Program) : Prop :=
  (∀ type ∈ call.types, type.index < program.types.size) ∧
  (∀ expression ∈ call.expressions, expression.index < program.expressions.size) ∧
  ∀ symbol ∈ call.symbols, symbol.index < program.symbols.size

instance (call : Call) (program : Program) : Decidable (call.Valid program) :=
  inferInstanceAs (Decidable (_ ∧ _ ∧ _))

def edit : Call → Edit Unit
  | .addModule => do
      let _ ← Edit.addModule
  | .addBlock body => do
      let _ ← Edit.addBlock body
  | .declareVar body text type => do
      let _ ← Edit.declareVar body text type
  | .declareType body text type => do
      let _ ← Edit.declareType body text type
  | .declareDetachedVar scope text type => do
      let _ ← Edit.declareDetachedVar scope text type
  | .addType form => do
      let _ ← Edit.addType form
  | .addExpression expression => do
      let _ ← Edit.addExpression expression
  | .addStatement body expression => do
      let _ ← Edit.append body { kind := .expression expression }

def run (program : Program) (call : Call) : Except Fault Program :=
  if call.Valid program then
    match call.edit program with
    | .ok _ changed => .ok changed
    | .error fault _ => .error fault
  else
    .error .dangling

theorem run_eq_ok_iff {before after : Program} {call : Call} :
    call.run before = .ok after ↔ call.Valid before ∧ call.edit before = .ok () after := by
  unfold run
  constructor
  · intro ran
    split at ran
    · rename_i valid
      split at ran
      · rename_i edited
        cases Except.ok.inj ran
        exact ⟨valid, edited⟩
      · contradiction
    · contradiction
  · intro holds
    rcases holds with ⟨valid, edited⟩
    rw [if_pos valid, edited]

end Call

def layOut (calls : List Call) : Except Fault Program :=
  calls.foldlM Call.run .initial

/-! ## What holds of every program so built -/

/-- A scope of the program other than the one of the built-in declarations. -/
def Program.OpenScope (program : Program) (scope : ScopeRef) : Prop :=
  ∃ content, program.scopes.get? scope = some content ∧ content.intrinsic = false

def Program.IntrinsicScope (program : Program) (scope : ScopeRef) : Prop :=
  ∃ content, program.scopes.get? scope = some content ∧ content.intrinsic = true

/-- The declaration of a type symbol: none for a built-in, and a statement with a
place for any other. -/
def Program.Standing (program : Program) (symbol : Symbol) : Prop :=
  (symbol.definition = .absent ∧ program.IntrinsicScope symbol.scope) ∨
  ∃ declaration, symbol.definition = .statement declaration ∧
    program.Linked declaration ∧ program.OpenScope symbol.scope

structure LaidOut (program : Program) : Prop where
  distinct : program.names.Distinct
  parts_below : ∀ type node, program.types.get? type = some node →
    ∀ part ∈ node.form.children, part.index < type.index
  declared : ∀ type form ref,
    program.types.get? type = some { form, symbol := some ref } →
    ∃ symbol, program.symbols.get? ref = some symbol ∧ symbol.type = type ∧
      symbol.kind = .type
  typed : ∀ ref symbol, program.symbols.get? ref = some symbol →
    ∃ node, program.types.get? symbol.type = some node
  bound : ∀ ref symbol, program.symbols.get? ref = some symbol →
    ∃ text other, program.names.get? symbol.name = some text ∧
      program.Binds symbol.scope symbol.name other
  bindings : ∀ scope name ref, program.Binds scope name ref →
    (∃ text, program.names.get? name = some text) ∧
      ∃ symbol, program.symbols.get? ref = some symbol
  references : ∀ expression ref,
    program.expressions.get? expression = some (.reference ref) →
    ∃ symbol, program.symbols.get? ref = some symbol
  shared : program.OpenScope Program.sharedScope
  primitives : ∀ primitive, program.symbols.get? (Program.primitiveSymbol primitive) =
    some
      { name := Program.primitiveName primitive
        kind := .type
        type := Program.primitiveType primitive
        scope := Program.intrinsicScope
        definition := .absent }
  standing : ∀ ref symbol, program.symbols.get? ref = some symbol →
    symbol.kind = .type → program.Standing symbol
  tails : program.layout.TailsLinked
  bodies : ∀ body content, program.layout.bodies.get? body = some content →
    program.layout.Reachable program.roots body ∧ program.OpenScope content.scope
  statements : ∀ ref placed, program.layout.statements.get? ref = some placed →
    program.Linked ref ∧ ∀ declared, placed.statement.declared? = some declared →
      ∃ symbol, program.symbols.get? declared = some symbol ∧
        (placed.statement.kind = .varDeclaration declared → symbol.kind = .var)

/-! ## The initial program -/

theorem exists_primitive_of_getElem? {α : Type} {entry : Primitive → α} {index : Nat}
    {stored : α} (found : (Primitive.all.map entry).toArray[index]? = some stored) :
    ∃ primitive : Primitive, primitive.ordinal = index ∧ entry primitive = stored := by
  simp only [List.getElem?_toArray, List.getElem?_map, Option.map_eq_some_iff] at found
  rcases found with ⟨primitive, listed, same⟩
  refine ⟨primitive, ?_, same⟩
  rcases index with _ | _ | _ | _ | _ | _ | _ | index <;>
    simp only [Primitive.all, List.getElem?_cons_zero, List.getElem?_cons_succ,
      List.getElem?_nil, Option.some.injEq, reduceCtorEq] at listed <;>
    subst listed <;> rfl

theorem get?_initial_symbols (primitive : Primitive) :
    Program.initial.symbols.get? (Program.primitiveSymbol primitive) =
      some
        { name := Program.primitiveName primitive
          kind := .type
          type := Program.primitiveType primitive
          scope := Program.intrinsicScope
          definition := .absent } := by
  cases primitive <;> rfl

theorem exists_primitive_of_symbol {ref : SymbolRef} {symbol : Symbol}
    (stored : Program.initial.symbols.get? ref = some symbol) :
    ∃ primitive, ref = Program.primitiveSymbol primitive ∧
      symbol =
        { name := Program.primitiveName primitive
          kind := .type
          type := Program.primitiveType primitive
          scope := Program.intrinsicScope
          definition := .absent } := by
  rcases exists_primitive_of_getElem? stored with ⟨primitive, same, rfl⟩
  exact ⟨primitive, Ref.eq_iff_index_eq.mpr same.symm, rfl⟩

theorem exists_primitive_of_type {type : TypeRef} {node : TypeNode}
    (stored : Program.initial.types.get? type = some node) :
    ∃ primitive, type = Program.primitiveType primitive ∧
      node =
        { form := .primitive primitive
          symbol := some (Program.primitiveSymbol primitive) } := by
  rcases exists_primitive_of_getElem? stored with ⟨primitive, same, rfl⟩
  exact ⟨primitive, Ref.eq_iff_index_eq.mpr same.symm, rfl⟩

theorem binds_initial (primitive : Primitive) :
    Program.initial.Binds Program.intrinsicScope (Program.primitiveName primitive)
      (Program.primitiveSymbol primitive) :=
  ⟨_, rfl, by cases primitive <;> rfl⟩

theorem distinct_initial : Program.initial.names.Distinct := by
  intro left right text atLeft atRight
  have leftInside := Arena.lt_size_of_get? atLeft
  have rightInside := Arena.lt_size_of_get? atRight
  have apart : ∀ first < 8, ∀ second < 8,
      Program.initial.names.get? ⟨first⟩ = Program.initial.names.get? ⟨second⟩ →
      first = second := by
    decide
  exact Ref.eq_iff_index_eq.mpr
    (apart _ leftInside _ rightInside (atLeft.trans atRight.symm))

theorem laidOut_initial : LaidOut .initial where
  distinct := distinct_initial
  parts_below type node stored := by
    rcases exists_primitive_of_type stored with ⟨primitive, rfl, rfl⟩
    simp [TypeForm.children]
  declared type form ref stored := by
    rcases exists_primitive_of_type stored with ⟨primitive, rfl, same⟩
    simp only [TypeNode.mk.injEq, Option.some.injEq] at same
    rcases same with ⟨-, rfl⟩
    exact ⟨_, get?_initial_symbols primitive, rfl, rfl⟩
  typed ref symbol stored := by
    rcases exists_primitive_of_symbol stored with ⟨primitive, -, rfl⟩
    cases primitive <;> exact ⟨_, rfl⟩
  bound ref symbol stored := by
    rcases exists_primitive_of_symbol stored with ⟨primitive, -, rfl⟩
    refine ⟨primitive.name, _, ?_, binds_initial primitive⟩
    cases primitive <;> rfl
  bindings scope name ref bound := by
    rcases bound with ⟨content, stored, found⟩
    obtain ⟨primitive, rfl, rfl⟩ : ∃ primitive, name = Program.primitiveName primitive ∧
        ref = Program.primitiveSymbol primitive := by
      have member : (name, ref) ∈ content.bindings := by
        rcases List.lookup_eq_some_iff.mp found with ⟨front, back, split, -⟩
        simp [split]
      rcases scope with ⟨_ | _ | index⟩
      · cases Option.some.inj stored
        rcases List.mem_map.mp member with ⟨primitive, -, same⟩
        exact ⟨primitive, (Prod.mk.inj same).1.symm, (Prod.mk.inj same).2.symm⟩
      · cases Option.some.inj stored
        simp [Program.initial] at member
      · simp [Program.initial, Arena.get?] at stored
    exact ⟨⟨primitive.name, by cases primitive <;> rfl⟩, _, get?_initial_symbols primitive⟩
  references expression ref stored := by
    simp [Program.initial, Arena.get?] at stored
  shared := ⟨_, rfl, rfl⟩
  primitives := get?_initial_symbols
  standing ref symbol stored _ := by
    rcases exists_primitive_of_symbol stored with ⟨primitive, -, rfl⟩
    exact .inl ⟨rfl, _, rfl, rfl⟩
  tails body content last stored marked := by
    rcases body with ⟨_ | index⟩
    · cases Option.some.inj stored
      simp [Program.initial] at marked
    · simp [Program.initial, Arena.get?] at stored
  bodies body content stored := by
    rcases body with ⟨_ | index⟩
    · cases Option.some.inj stored
      exact ⟨.root List.mem_cons_self, _, rfl, rfl⟩
    · simp [Program.initial, Arena.get?] at stored
  statements ref placed stored := by
    simp [Program.initial, Arena.get?] at stored

/-! ## Additions to a program -/

namespace LaidOut

variable {before : Program}

theorem addType (laid : LaidOut before) {form : TypeForm}
    (inside : ∀ part ∈ form.children, part.index < before.types.size) :
    LaidOut { before with types := before.types.push { form } } where
  distinct := laid.distinct
  parts_below type node stored := by
    rcases Arena.eq_next_or_get?_of_push stored with ⟨rfl, rfl⟩ | old
    · exact inside
    · exact laid.parts_below type node old
  declared type form ref stored := by
    rcases Arena.eq_next_or_get?_of_push stored with ⟨-, same⟩ | old
    · simp at same
    · exact laid.declared type form ref old
  typed ref symbol stored := by
    rcases laid.typed ref symbol stored with ⟨node, found⟩
    exact ⟨node, Arena.get?_push_of_get? _ found⟩
  bound := laid.bound
  bindings := laid.bindings
  references := laid.references
  shared := laid.shared
  primitives := laid.primitives
  standing := laid.standing
  tails := laid.tails
  bodies := laid.bodies
  statements := laid.statements

theorem addExpression (laid : LaidOut before) {expression : Expression}
    (inside : ∀ ref, expression = .reference ref → ref.index < before.symbols.size) :
    LaidOut { before with expressions := before.expressions.push expression } where
  distinct := laid.distinct
  parts_below := laid.parts_below
  declared := laid.declared
  typed := laid.typed
  bound := laid.bound
  bindings := laid.bindings
  references subject ref stored := by
    rcases Arena.eq_next_or_get?_of_push stored with ⟨-, same⟩ | old
    · exact Arena.exists_get?_of_lt_size (inside ref same.symm)
    · exact laid.references subject ref old
  shared := laid.shared
  primitives := laid.primitives
  standing := laid.standing
  tails := laid.tails
  bodies := laid.bodies
  statements := laid.statements

theorem setTypeSymbol (laid : LaidOut before) {type : TypeRef} {ref : SymbolRef}
    {symbol : Symbol} (stored : before.symbols.get? ref = some symbol)
    (typed : symbol.type = type) (kind : symbol.kind = .type)
    {types : Arena .type TypeNode}
    (modified : before.types.modify type (fun node => { node with symbol := some ref }) =
      .ok types) :
    LaidOut { before with types } where
  distinct := laid.distinct
  parts_below other node found := by
    rcases Arena.get?_eq_some_of_modify modified found with ⟨old, oldStored, rfl⟩
    have below := laid.parts_below other old oldStored
    split <;> exact below
  declared other form declaring found := by
    rcases Arena.get?_eq_some_of_modify modified found with ⟨old, oldStored, same⟩
    split at same
    · rename_i here
      simp only [TypeNode.mk.injEq, Option.some.injEq] at same
      rcases same with ⟨-, rfl⟩
      exact ⟨symbol, stored, typed.trans here, kind⟩
    · subst same
      exact laid.declared other form declaring oldStored
  typed other content found := by
    rcases laid.typed other content found with ⟨node, nodeStored⟩
    rw [Arena.get?_of_modify modified, nodeStored]
    split
    · exact ⟨_, rfl⟩
    · exact ⟨node, rfl⟩
  bound := laid.bound
  bindings := laid.bindings
  references := laid.references
  shared := laid.shared
  primitives := laid.primitives
  standing := laid.standing
  tails := laid.tails
  bodies := laid.bodies
  statements := laid.statements

theorem addStatement (laid : LaidOut before) {body : BodyRef} {statement : Statement}
    {layout : Layout} (appended : before.layout.Appended layout body statement)
    (silent : statement.declared? = none) : LaidOut { before with layout } := by
  have still : ∀ ref, before.Linked ref → { before with layout }.Linked ref :=
    fun ref linked => linked.of_grows appended.grows (fun _ member => member)
  refine
    { distinct := laid.distinct
      parts_below := laid.parts_below
      declared := laid.declared
      typed := laid.typed
      bound := laid.bound
      bindings := laid.bindings
      references := laid.references
      shared := laid.shared
      primitives := laid.primitives
      standing := ?_
      tails := appended.tails laid.tails
      bodies := ?_
      statements := ?_ }
  · intro ref symbol stored kind
    rcases laid.standing ref symbol stored kind with builtIn | ⟨declaration, same, linked, scope⟩
    · exact .inl builtIn
    · exact .inr ⟨declaration, same, still declaration linked, scope⟩
  · intro target content stored
    rcases appended.bodies target content stored with ⟨old, oldStored, same⟩
    rcases laid.bodies target old oldStored with ⟨reached, scope⟩
    exact ⟨appended.grows.reachable (fun _ member => member) reached, same ▸ scope⟩
  · intro ref placed stored
    rcases appended.statements ref placed stored with ⟨rfl, rfl⟩ | ⟨old, oldStored, same⟩
    · rcases appended.holder with ⟨content, contentStored⟩
      refine ⟨⟨body, appended.linked, ?_⟩, ?_⟩
      · exact appended.grows.reachable (fun _ member => member)
          (laid.bodies body content contentStored).1
      · rw [silent]
        simp
    · rcases laid.statements ref old oldStored with ⟨linked, declares⟩
      exact ⟨still ref linked, same ▸ declares⟩

theorem addScope (laid : LaidOut before) {content : Scope}
    (opened : content.intrinsic = false) (empty : content.bindings = [])
    {layout : Layout} {modules : List BodyRef} (grows : before.layout.Grows layout)
    (kept : ∀ body ∈ before.modules, body ∈ modules) (tails : layout.TailsLinked)
    (bodies : ∀ body inner, layout.bodies.get? body = some inner →
      (∃ old, before.layout.bodies.get? body = some old ∧ old.scope = inner.scope) ∨
      inner.scope = before.scopes.next ∧
        layout.Reachable (Program.sharedBody :: modules) body)
    (statements : ∀ ref placed, layout.statements.get? ref = some placed →
      (∃ old, before.layout.statements.get? ref = some old ∧
        old.statement = placed.statement) ∨
      placed.statement.declared? = none ∧
        ∃ body, layout.LinkedIn ref body ∧
          ∃ old, before.layout.bodies.get? body = some old) :
    LaidOut
      { before with scopes := before.scopes.push content, layout, modules } := by
  have roots : ∀ body ∈ before.roots, body ∈ Program.sharedBody :: modules := by
    intro body member
    rcases List.mem_cons.mp member with rfl | inModules
    · exact List.mem_cons_self
    · exact List.mem_cons_of_mem _ (kept body inModules)
  have still : ∀ ref, before.Linked ref →
      { before with scopes := before.scopes.push content, layout, modules }.Linked ref :=
    fun ref linked => linked.of_grows grows roots
  refine
    { distinct := laid.distinct
      parts_below := laid.parts_below
      declared := laid.declared
      typed := laid.typed
      bound := ?_
      bindings := ?_
      references := laid.references
      shared := ?_
      primitives := laid.primitives
      standing := ?_
      tails := tails
      bodies := ?_
      statements := ?_ }
  · intro ref symbol stored
    rcases laid.bound ref symbol stored with ⟨text, other, named, scope, scopeStored, found⟩
    exact ⟨text, other, named, scope, Arena.get?_push_of_get? _ scopeStored, found⟩
  · intro scope name ref bound
    rcases bound with ⟨inner, stored, found⟩
    rcases Arena.eq_next_or_get?_of_push stored with ⟨-, rfl⟩ | old
    · simp [Scope.lookup, empty] at found
    · exact laid.bindings scope name ref ⟨inner, old, found⟩
  · rcases laid.shared with ⟨shared, stored, isOpen⟩
    exact ⟨shared, Arena.get?_push_of_get? _ stored, isOpen⟩
  · intro ref symbol stored kind
    rcases laid.standing ref symbol stored kind with
      ⟨absent, scope, scopeStored, builtIn⟩ |
      ⟨declaration, same, linked, scope, scopeStored, isOpen⟩
    · exact .inl ⟨absent, scope, Arena.get?_push_of_get? _ scopeStored, builtIn⟩
    · exact .inr ⟨declaration, same, still declaration linked, scope,
        Arena.get?_push_of_get? _ scopeStored, isOpen⟩
  · intro body inner stored
    rcases bodies body inner stored with ⟨old, oldStored, same⟩ | ⟨same, reached⟩
    · rcases laid.bodies body old oldStored with ⟨reached, scope, scopeStored, isOpen⟩
      exact ⟨grows.reachable roots reached, scope,
        same ▸ Arena.get?_push_of_get? _ scopeStored, isOpen⟩
    · exact ⟨reached, content, same ▸ Arena.get?_push_next .., opened⟩
  · intro ref placed stored
    rcases statements ref placed stored with
      ⟨old, oldStored, same⟩ | ⟨silent, body, linked, old, oldStored⟩
    · rcases laid.statements ref old oldStored with ⟨linked, declares⟩
      exact ⟨still ref linked, same ▸ declares⟩
    · refine ⟨⟨body, linked, grows.reachable roots (laid.bodies body old oldStored).1⟩, ?_⟩
      rw [silent]
      simp

end LaidOut

/-! ## A further symbol -/

namespace Program

def withSymbol (before : Program) (text : String) (new : Symbol) (scopes : Scopes)
    (layout : Layout) : Program :=
  { before with
    names := (before.names.intern text).2
    symbols := before.symbols.push new
    scopes
    layout }

/-- `layout` has the declaration of `new`: a statement at the end of a body with the
scope of the symbol, or none if the symbol is a variable. -/
def Places (before : Program) (new : Symbol) (layout : Layout) : Prop :=
  layout = before.layout ∧ new.kind = .var ∨
  ∃ body content statement,
    before.layout.Appended layout body statement ∧
    before.layout.bodies.get? body = some content ∧ content.scope = new.scope ∧
    new.definition = .statement before.layout.statements.next ∧
    statement.declared? = some before.symbols.next ∧
    (statement.kind = .varDeclaration before.symbols.next → new.kind = .var)

end Program

section

variable {before : Program} {text : String} {new : Symbol} {scopes : Scopes}
  {layout : Layout}

namespace Program.Places

theorem grows (places : before.Places new layout) : before.layout.Grows layout := by
  rcases places with ⟨rfl, -⟩ | ⟨_, _, _, appended, -⟩
  · exact .refl _
  · exact appended.grows

theorem tails (places : before.Places new layout) (laid : LaidOut before) :
    layout.TailsLinked := by
  rcases places with ⟨rfl, -⟩ | ⟨_, _, _, appended, -⟩
  · exact laid.tails
  · exact appended.tails laid.tails

theorem body_source (places : before.Places new layout) {body : BodyRef} {content : Body}
    (stored : layout.bodies.get? body = some content) :
    ∃ old, before.layout.bodies.get? body = some old ∧ old.scope = content.scope := by
  rcases places with ⟨rfl, -⟩ | ⟨_, _, _, appended, -⟩
  · exact ⟨content, stored, rfl⟩
  · exact appended.bodies body content stored

theorem linked_withSymbol (places : before.Places new layout) {ref : StatementRef}
    (linked : before.Linked ref) : (before.withSymbol text new scopes layout).Linked ref :=
  linked.of_grows places.grows (fun _ member => member)

theorem linked_next (laid : LaidOut before) {body : BodyRef} {content : Body}
    {statement : Statement} (appended : before.layout.Appended layout body statement)
    (stored : before.layout.bodies.get? body = some content) :
    (before.withSymbol text new scopes layout).Linked before.layout.statements.next :=
  ⟨body, appended.linked,
    appended.grows.reachable (fun _ member => member) (laid.bodies body content stored).1⟩

theorem statement_cases (places : before.Places new layout) (laid : LaidOut before)
    {ref : StatementRef} {placed : Placed}
    (stored : layout.statements.get? ref = some placed) :
    (∃ old, before.layout.statements.get? ref = some old ∧
      old.statement = placed.statement) ∨
    (before.withSymbol text new scopes layout).Linked ref ∧
      placed.statement.declared? = some before.symbols.next ∧
      (placed.statement.kind = .varDeclaration before.symbols.next → new.kind = .var) := by
  rcases places with ⟨rfl, -⟩ | ⟨body, content, statement, appended, held, -, -, declares⟩
  · exact .inl ⟨placed, stored, rfl⟩
  · rcases appended.statements ref placed stored with ⟨rfl, rfl⟩ | old
    · exact .inr ⟨linked_next laid appended held, declares⟩
    · exact .inl old

end Program.Places

theorem scope_bind_kept {name : NameRef} {ref : SymbolRef} {target : ScopeRef}
    (modified : before.scopes.modify target (·.bind name ref) = .ok scopes)
    {scope : ScopeRef} {content : Scope}
    (stored : before.scopes.get? scope = some content) :
    ∃ later, scopes.get? scope = some later ∧ later.intrinsic = content.intrinsic := by
  rw [Arena.get?_of_modify modified, stored]
  split <;> exact ⟨_, rfl, rfl⟩

theorem Program.OpenScope.withSymbol {name : NameRef} {ref : SymbolRef} {target : ScopeRef}
    (modified : before.scopes.modify target (·.bind name ref) = .ok scopes)
    {scope : ScopeRef} (isOpen : before.OpenScope scope) :
    (before.withSymbol text new scopes layout).OpenScope scope := by
  rcases isOpen with ⟨content, stored, isOpen⟩
  rcases scope_bind_kept modified stored with ⟨later, laterStored, same⟩
  exact ⟨later, laterStored, same.trans isOpen⟩

theorem Program.Binds.exists_withSymbol {name : NameRef} {ref : SymbolRef}
    {target : ScopeRef} (modified : before.scopes.modify target (·.bind name ref) = .ok scopes)
    {scope : ScopeRef} {other : NameRef} {bound : SymbolRef}
    (binds : before.Binds scope other bound) :
    ∃ later, (before.withSymbol text new scopes layout).Binds scope other later := by
  by_cases here : target = scope ∧ name = other
  · exact ⟨ref, (Program.binds_bind_iff modified).mpr (by simp [here])⟩
  · exact ⟨bound, (Program.binds_bind_iff modified).mpr (by simpa [here] using binds)⟩

theorem Program.Standing.withSymbol {name : NameRef} {ref : SymbolRef} {target : ScopeRef}
    (modified : before.scopes.modify target (·.bind name ref) = .ok scopes)
    (places : before.Places new layout) {symbol : Symbol}
    (standing : before.Standing symbol) :
    (before.withSymbol text new scopes layout).Standing symbol := by
  rcases standing with
    ⟨absent, scope, scopeStored, builtIn⟩ | ⟨declaration, same, linked, isOpen⟩
  · rcases scope_bind_kept modified scopeStored with ⟨later, laterStored, sameFlag⟩
    exact .inl ⟨absent, later, laterStored, sameFlag.trans builtIn⟩
  · exact .inr ⟨declaration, same, places.linked_withSymbol linked, isOpen.withSymbol modified⟩

namespace LaidOut

variable (laid : LaidOut before)
include laid

theorem statements_withSymbol (places : before.Places new layout) {ref : StatementRef}
    {placed : Placed} (stored : layout.statements.get? ref = some placed) :
    (before.withSymbol text new scopes layout).Linked ref ∧
      ∀ declared, placed.statement.declared? = some declared →
        ∃ symbol, (before.symbols.push new).get? declared = some symbol ∧
          (placed.statement.kind = .varDeclaration declared → symbol.kind = .var) := by
  rcases places.statement_cases laid stored with ⟨old, oldStored, same⟩ | ⟨linked, declares⟩
  · rcases laid.statements ref old oldStored with ⟨linked, declared⟩
    refine ⟨places.linked_withSymbol linked, fun symbolRef isDeclared => ?_⟩
    rcases declared symbolRef (same ▸ isDeclared) with ⟨symbol, found, kind⟩
    exact ⟨symbol, Arena.get?_push_of_get? _ found, same ▸ kind⟩
  · refine ⟨linked, fun symbolRef isDeclared => ?_⟩
    rw [declares.1] at isDeclared
    cases Option.some.inj isDeclared
    exact ⟨new, Arena.get?_push_next .., declares.2⟩

variable (modified : before.scopes.modify new.scope (·.bind new.name before.symbols.next) =
  .ok scopes)
include modified

theorem standing_withSymbol (places : before.Places new layout) {ref : SymbolRef} {symbol : Symbol}
    (stored : (before.symbols.push new).get? ref = some symbol) (kind : symbol.kind = .type) :
    (before.withSymbol text new scopes layout).Standing symbol := by
  rcases Arena.eq_next_or_get?_of_push stored with ⟨-, rfl⟩ | old
  · rcases places with ⟨-, var⟩ | ⟨body, content, statement, appended, held, scope, same, -⟩
    · rw [var] at kind
      contradiction
    · have isOpen := (laid.bodies body content held).2
      exact .inr ⟨_, same, Program.Places.linked_next laid appended held,
        (scope ▸ isOpen).withSymbol modified⟩
  · exact (laid.standing ref symbol old kind).withSymbol modified places

variable (named : new.name = (before.names.intern text).1)
include named

theorem bound_withSymbol {ref : SymbolRef} {symbol : Symbol}
    (stored : (before.symbols.push new).get? ref = some symbol) :
    ∃ word other, (before.names.intern text).2.get? symbol.name = some word ∧
      (before.withSymbol text new scopes layout).Binds symbol.scope symbol.name other := by
  rcases Arena.eq_next_or_get?_of_push stored with ⟨-, rfl⟩ | old
  · refine ⟨text, before.symbols.next, ?_, (Program.binds_bind_iff modified).mpr (by simp)⟩
    rw [named]
    exact NameTable.get?_intern ..
  · rcases laid.bound ref symbol old with ⟨word, other, oldNamed, bound⟩
    rcases bound.exists_withSymbol modified with ⟨later, boundLater⟩
    exact ⟨word, later, NameTable.get?_intern_of_get? text oldNamed, boundLater⟩

theorem bindings_withSymbol {scope : ScopeRef} {name : NameRef} {ref : SymbolRef}
    (binds : (before.withSymbol text new scopes layout).Binds scope name ref) :
    (∃ word, (before.names.intern text).2.get? name = some word) ∧
      ∃ symbol, (before.symbols.push new).get? ref = some symbol := by
  have found := (Program.binds_bind_iff modified).mp binds
  split at found
  · rename_i here
    refine ⟨⟨text, ?_⟩, new, found ▸ Arena.get?_push_next ..⟩
    rw [← here.2, named]
    exact NameTable.get?_intern ..
  · rcases laid.bindings scope name ref found with ⟨⟨word, oldNamed⟩, symbol, stored⟩
    exact ⟨⟨word, NameTable.get?_intern_of_get? text oldNamed⟩, symbol,
      Arena.get?_push_of_get? _ stored⟩

theorem addSymbol (typed : ∃ node, before.types.get? new.type = some node)
    (places : before.Places new layout) :
    LaidOut (before.withSymbol text new scopes layout) := by
  refine
    { distinct := NameTable.distinct_intern laid.distinct text
      parts_below := laid.parts_below
      declared := ?_
      typed := ?_
      bound := fun _ _ => laid.bound_withSymbol modified named
      bindings := fun _ _ _ => laid.bindings_withSymbol modified named
      references := ?_
      shared := laid.shared.withSymbol modified
      primitives := fun primitive => Arena.get?_push_of_get? _ (laid.primitives primitive)
      standing := fun _ _ => laid.standing_withSymbol modified places
      tails := places.tails laid
      bodies := ?_
      statements := fun _ _ => laid.statements_withSymbol places }
  · intro type form ref stored
    rcases laid.declared type form ref stored with ⟨symbol, found, facts⟩
    exact ⟨symbol, Arena.get?_push_of_get? _ found, facts⟩
  · intro ref symbol stored
    rcases Arena.eq_next_or_get?_of_push stored with ⟨-, rfl⟩ | old
    · exact typed
    · exact laid.typed ref symbol old
  · intro expression ref stored
    rcases laid.references expression ref stored with ⟨symbol, found⟩
    exact ⟨symbol, Arena.get?_push_of_get? _ found⟩
  · intro body content stored
    rcases places.body_source stored with ⟨old, oldStored, same⟩
    rcases laid.bodies body old oldStored with ⟨reached, isOpen⟩
    exact ⟨places.grows.reachable (fun _ member => member) reached,
      same ▸ isOpen.withSymbol modified⟩

end LaidOut

end

/-! ## Calls -/

section

variable {before after : Program}

theorem append_eq_ok {body : BodyRef} {statement : Statement} {ref : StatementRef}
    (ran : Edit.append body statement before = .ok ref after) :
    ref = before.layout.statements.next ∧
      ∃ layout, (before.layout.addStatement statement).2.append body
          before.layout.statements.next = .ok layout ∧
        after = { before with layout } := by
  simp only [Edit.append, bind_eq_ok_iff, Edit.changeLayout_eq_ok_iff,
    pure_eq_ok_iff] at ran
  rcases ran with ⟨added, middle, adding, -, linked, ⟨layout, placed, rfl⟩, rfl, rfl⟩
  simp only [Edit.addStatement, EStateM.Result.ok.injEq] at adding
  rcases adding with ⟨rfl, rfl⟩
  exact ⟨rfl, layout, placed, rfl⟩

theorem addModule_eq_ok {body : BodyRef} (ran : Edit.addModule before = .ok body after) :
    after =
      { before with
        scopes := before.scopes.push
          { parent := some Program.sharedScope, intrinsic := false, shared := false }
        layout := (before.layout.addBody before.scopes.next).2
        modules := before.modules ++ [before.layout.bodies.next] } := by
  simp only [Edit.addModule, bind_eq_ok_iff, Edit.update_eq_ok_iff, pure_eq_ok_iff] at ran
  rcases ran with ⟨scope, _, scopeAdded, added, _, bodyAdded, -, _, extended, rfl, rfl⟩
  simp only [Edit.addScope, EStateM.Result.ok.injEq] at scopeAdded
  rcases scopeAdded with ⟨rfl, rfl⟩
  simp only [Edit.addBody, EStateM.Result.ok.injEq] at bodyAdded
  rcases bodyAdded with ⟨rfl, rfl⟩
  exact (Except.ok.inj extended).symm

theorem addBlock_eq_ok {body inner : BodyRef}
    (ran : Edit.addBlock body before = .ok inner after) :
    ∃ outer layout, before.layout.bodies.get? body = some outer ∧
      ((before.layout.addBody before.scopes.next).2.addStatement
        { kind := .block before.layout.bodies.next }).2.append body
          before.layout.statements.next = .ok layout ∧
      after =
        { before with
          scopes := before.scopes.push
            { parent := some outer.scope, intrinsic := false, shared := false }
          layout } := by
  simp only [Edit.addBlock, bind_eq_ok_iff, Edit.ask_eq_ok_iff, Layout.scopeOf_eq_ok_iff,
    pure_eq_ok_iff] at ran
  rcases ran with
    ⟨parent, before, ⟨⟨outer, outerStored, rfl⟩, rfl⟩, scope, _, scopeAdded, added, _,
      bodyAdded, ref, _, appending, rfl, rfl⟩
  simp only [Edit.addScope, EStateM.Result.ok.injEq] at scopeAdded
  rcases scopeAdded with ⟨rfl, rfl⟩
  simp only [Edit.addBody, EStateM.Result.ok.injEq] at bodyAdded
  rcases bodyAdded with ⟨rfl, rfl⟩
  rcases append_eq_ok appending with ⟨-, layout, placed, rfl⟩
  exact ⟨outer, layout, outerStored, placed, rfl⟩

theorem declare_eq_ok {body : BodyRef} {text : String} {type : TypeRef} {kind : SymbolKind}
    {ref : SymbolRef} (ran : Edit.declare body text type kind before = .ok ref after) :
    ref = before.symbols.next ∧
      ∃ content statement scopes layout,
        before.layout.bodies.get? body = some content ∧
        (statement.declared? = some before.symbols.next ∧
          (statement.kind = .varDeclaration before.symbols.next → kind = .var)) ∧
        statement.synthesized = false ∧
        (before.layout.addStatement statement).2.append body before.layout.statements.next =
          .ok layout ∧
        before.scopes.modify content.scope
          (·.bind (before.names.intern text).1 before.symbols.next) = .ok scopes ∧
        after =
          { before with
            names := (before.names.intern text).2
            symbols := before.symbols.push
              { name := (before.names.intern text).1
                kind
                type
                scope := content.scope
                definition := .statement before.layout.statements.next }
            scopes
            layout } := by
  simp only [Edit.declare, bind_eq_ok_iff, Edit.ask_eq_ok_iff, Layout.scopeOf_eq_ok_iff,
    Edit.setDefinition, Edit.changeSymbol_eq_ok_iff, Edit.bind_eq_ok_iff,
    pure_eq_ok_iff] at ran
  rcases ran with
    ⟨scope, _, ⟨⟨content, stored, rfl⟩, rfl⟩, name, _, interned, symbol, _, added,
      declaration, _, appending, -, _, ⟨symbols, defined, rfl⟩, -, _,
      ⟨scopes, modified, rfl⟩, rfl, rfl⟩
  rcases Edit.intern_eq_ok_iff.mp interned with ⟨rfl, rfl⟩
  rcases Edit.addSymbol_eq_ok_iff.mp added with ⟨rfl, rfl⟩
  rcases append_eq_ok appending with ⟨rfl, layout, placed, rfl⟩
  dsimp only at stored defined modified placed
  rw [Arena.modify_push_next] at defined
  cases Except.ok.inj defined
  exact ⟨rfl, content, _, scopes, layout, stored,
    by cases kind <;> simp [Statement.declared?], rfl, placed, modified, rfl⟩

/-- What a call does. An invariant of the programs that calls build is proved case by case. -/
inductive Call.Makes (before : Program) : Call → Program → Prop
  | addModule {body : BodyRef} {after : Program}
      (added : Edit.addModule before = .ok body after) : Makes before .addModule after
  | addBlock {body inner : BodyRef} {after : Program}
      (added : Edit.addBlock body before = .ok inner after) : Makes before (.addBlock body) after
  | declareVar {body : BodyRef} {text : String} {type : TypeRef} {ref : SymbolRef}
      {after : Program} (declared : Edit.declare body text type .var before = .ok ref after) :
      Makes before (.declareVar body text type) after
  | declareType {body : BodyRef} {text : String} {type : TypeRef} {ref : SymbolRef}
      {middle : Program} {types : Arena .type TypeNode}
      (declared : Edit.declare body text type .type before = .ok ref middle)
      (named : middle.types.modify type (fun node => { node with symbol := some ref }) =
        .ok types) : Makes before (.declareType body text type) { middle with types }
  | declareDetachedVar {scope : ScopeRef} {text : String} {type : TypeRef} {scopes : Scopes}
      (bound : before.scopes.modify scope
        (·.bind (before.names.intern text).1 before.symbols.next) = .ok scopes) :
      Makes before (.declareDetachedVar scope text type)
        { before with
          names := (before.names.intern text).2
          symbols := before.symbols.push
            { name := (before.names.intern text).1
              kind := .var
              type
              scope
              definition := .detached }
          scopes }
  | addType (form : TypeForm) :
      Makes before (.addType form) { before with types := before.types.push { form } }
  | addExpression (expression : Expression) :
      Makes before (.addExpression expression)
        { before with expressions := before.expressions.push expression }
  | addStatement {body : BodyRef} {expression : ExpressionRef} {layout : Layout}
      (placed : (before.layout.addStatement { kind := .expression expression }).2.append body
        before.layout.statements.next = .ok layout) :
      Makes before (.addStatement body expression) { before with layout }

theorem Call.makes_of_edit {call : Call} (ran : call.edit before = .ok () after) :
    call.Makes before after := by
  cases call <;> simp only [Call.edit, bind_eq_ok_iff, pure_eq_ok_iff] at ran
  case addModule =>
    rcases ran with ⟨body, _, added, -, rfl⟩
    exact .addModule added
  case addBlock body =>
    rcases ran with ⟨inner, _, added, -, rfl⟩
    exact .addBlock added
  case declareVar body text type =>
    rcases ran with ⟨ref, _, declared, -, rfl⟩
    exact .declareVar declared
  case declareType body text type =>
    simp only [Edit.declareType, bind_eq_ok_iff, Edit.setTypeSymbol_eq_ok_iff,
      pure_eq_ok_iff] at ran
    rcases ran with ⟨ref, _, ⟨ref, _, declared, -, _, ⟨types, named, rfl⟩, rfl, rfl⟩, -, rfl⟩
    exact .declareType declared named
  case declareDetachedVar scope text type =>
    simp only [Edit.declareDetachedVar, bind_eq_ok_iff, Edit.bind_eq_ok_iff,
      pure_eq_ok_iff] at ran
    rcases ran with
      ⟨ref, _, ⟨name, _, interned, symbol, _, added, -, _, ⟨scopes, bound, rfl⟩, rfl, rfl⟩, -,
        rfl⟩
    rcases Edit.intern_eq_ok_iff.mp interned with ⟨rfl, rfl⟩
    rcases Edit.addSymbol_eq_ok_iff.mp added with ⟨rfl, rfl⟩
    exact .declareDetachedVar bound
  case addType form =>
    simp only [Edit.addType, EStateM.Result.ok.injEq] at ran
    rcases ran with ⟨type, _, ⟨rfl, rfl⟩, -, rfl⟩
    exact .addType form
  case addExpression expression =>
    simp only [Edit.addExpression, EStateM.Result.ok.injEq] at ran
    rcases ran with ⟨ref, _, ⟨rfl, rfl⟩, -, rfl⟩
    exact .addExpression expression
  case addStatement body expression =>
    rcases ran with ⟨ref, _, appending, -, rfl⟩
    rcases append_eq_ok appending with ⟨-, layout, placed, rfl⟩
    exact .addStatement placed

theorem laidOut_declare (laid : LaidOut before) {body : BodyRef} {text : String}
    {type : TypeRef} {kind : SymbolKind} {ref : SymbolRef}
    (inside : type.index < before.types.size)
    (ran : Edit.declare body text type kind before = .ok ref after) : LaidOut after := by
  rcases declare_eq_ok ran with
    ⟨-, content, statement, scopes, layout, stored, declares, -, placed, modified, rfl⟩
  exact laid.addSymbol modified rfl (Arena.exists_get?_of_lt_size inside)
    (.inr ⟨body, content, statement, Layout.appended_of_append placed, stored, rfl, rfl, declares⟩)

theorem laidOut_addModule (laid : LaidOut before) {body : BodyRef}
    (ran : Edit.addModule before = .ok body after) : LaidOut after := by
  rcases addModule_eq_ok ran with rfl
  refine laid.addScope rfl rfl (Layout.grows_addBody _ _)
    (fun _ member => List.mem_append_left _ member)
    (Layout.tailsLinked_addBody laid.tails _) ?_ ?_
  · intro target inner stored
    rcases Arena.eq_next_or_get?_of_push stored with ⟨rfl, rfl⟩ | old
    · exact .inr ⟨rfl, .root (by simp)⟩
    · exact .inl ⟨inner, old, rfl⟩
  · intro ref placed stored
    exact .inl ⟨placed, stored, rfl⟩

theorem reachable_block {layout after : Layout} {roots : List BodyRef}
    {body inner : BodyRef}
    (appended : layout.Appended after body { kind := .block inner })
    (absent : layout.statements.get? layout.statements.next = none)
    (reached : after.Reachable roots body) : after.Reachable roots inner := by
  rcases appended.linked with ⟨placed, content, found, -, stored, member⟩
  rcases appended.statements _ placed found with ⟨-, same⟩ | ⟨old, oldStored, -⟩
  · exact .inner reached stored member found (by rw [same])
  · rw [absent] at oldStored
    contradiction

theorem laidOut_addBlock (laid : LaidOut before) {body inner : BodyRef}
    (ran : Edit.addBlock body before = .ok inner after) : LaidOut after := by
  rcases addBlock_eq_ok ran with ⟨outer, layout, outerStored, placed, rfl⟩
  have appended := Layout.appended_of_append placed
  have grows := (Layout.grows_addBody before.layout before.scopes.next).trans appended.grows
  have reached : layout.Reachable before.roots body :=
    grows.reachable (fun _ member => member) (laid.bodies body outer outerStored).1
  refine laid.addScope rfl rfl grows (fun _ member => member)
    (appended.tails (Layout.tailsLinked_addBody laid.tails _)) ?_ ?_
  · intro target content stored
    rcases appended.bodies target content stored with ⟨old, oldStored, same⟩
    rcases Arena.eq_next_or_get?_of_push oldStored with ⟨rfl, rfl⟩ | older
    · exact .inr ⟨same.symm, reachable_block appended (Arena.get?_next _) reached⟩
    · exact .inl ⟨old, older, same⟩
  · intro other placed stored
    rcases appended.statements other placed stored with ⟨rfl, same⟩ | old
    · refine .inr ⟨by rw [same]; rfl, body, appended.linked, outer, outerStored⟩
    · exact .inl old

theorem laidOut_edit (laid : LaidOut before) {call : Call} (valid : call.Valid before)
    (ran : call.edit before = .ok () after) : LaidOut after := by
  rcases valid with ⟨types, -, symbols⟩
  cases Call.makes_of_edit ran with
  | addModule added => exact laidOut_addModule laid added
  | addBlock added => exact laidOut_addBlock laid added
  | declareVar declared => exact laidOut_declare laid (types _ List.mem_cons_self) declared
  | declareType declared named =>
      have laidMiddle := laidOut_declare laid (types _ List.mem_cons_self) declared
      rcases declare_eq_ok declared with ⟨rfl, content, _, scopes, layout, -, -, -, -, -, rfl⟩
      exact laidMiddle.setTypeSymbol (Arena.get?_push_next ..) rfl rfl named
  | declareDetachedVar bound =>
      have inside := types _ List.mem_cons_self
      exact laid.addSymbol bound rfl (Arena.exists_get?_of_lt_size inside) (.inl ⟨rfl, rfl⟩)
  | addType => exact laid.addType types
  | addExpression =>
      apply laid.addExpression
      rintro symbol rfl
      exact symbols symbol (by simp [Call.symbols])
  | addStatement placed => exact laid.addStatement (Layout.appended_of_append placed) rfl

end

theorem laidOut_of_layOut {calls : List Call} {program : Program}
    (built : layOut calls = .ok program) : LaidOut program := by
  suffices ∀ start, LaidOut start → calls.foldlM Call.run start = .ok program →
      LaidOut program from this .initial laidOut_initial built
  intro start laid ran
  clear built
  induction calls generalizing start with
  | nil =>
      simp only [List.foldlM_nil, Except.pure_eq_ok_iff] at ran
      exact ran ▸ laid
  | cons call rest induction =>
      simp only [List.foldlM_cons, Except.bind_eq_ok_iff, Call.run_eq_ok_iff] at ran
      rcases ran with ⟨next, ⟨valid, edited⟩, ran⟩
      exact induction next (laidOut_edit laid valid edited) ran

end StructuralTypes
