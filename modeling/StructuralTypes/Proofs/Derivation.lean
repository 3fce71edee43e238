import StructuralTypes.Canonical.Variables
import StructuralTypes.Proofs.Outcome
import StructuralTypes.Proofs.Reading

/-! What a successful canonicalization does to a program, as rules. A rule names the
form of the type, the parts that were canonicalized before, and how the type settled;
the computation succeeds only in ways that the rules allow. -/

namespace StructuralTypes

namespace Program

/-! ## Settling -/

/-- `position` is where `placement` leads to. -/
inductive Located (program : Program) : Placement → Position → Prop
  | shared : Located program .shared .shared
  | before {statement : StatementRef} : Located program (.before statement) (.before statement)
  | afterElement {element : SymbolRef} {declaration : StatementRef}
      (linked : program.linkedDeclaration? element = .ok (some declaration)) :
      Located program (.afterElement element) (.after declaration)

/-- `after` is `before` with a declaration of `fresh`, whose form is then changed by
`finish`. -/
structure Introduces (before : Program) (scope : ScopeRef) (text : String)
    (fresh : TypeRef) (finish : TypeForm → TypeForm) (position : Position)
    (after : Program) : Prop where
  names : after.names = (before.names.intern text).2
  expressions : after.expressions = before.expressions
  modules : after.modules = before.modules
  symbols : after.symbols = before.symbols.push
    { name := (before.names.intern text).1
      kind := .type
      type := fresh
      scope
      definition := .statement before.layout.statements.next }
  types : before.types.modify fresh
    (fun node => { form := finish node.form, symbol := some before.symbols.next }) =
      .ok after.types
  scopes : before.scopes.modify scope
    (·.bind (before.names.intern text).1 before.symbols.next) = .ok after.scopes
  layout : position.link before.layout.statements.next
    (before.layout.addStatement (.synthesizedType before.symbols.next)).2 =
      .ok after.layout

/-- `fresh` settles in `scope` under the name `text` on the type at the end. -/
inductive Settles (before : Program) (scope : ScopeRef) (text : String)
    (fresh : TypeRef) (finish : TypeForm → TypeForm) (placement : Placement) :
    TypeRef → Program → Prop
  | reused {existing : SymbolRef} {symbol : Symbol}
      (bound : before.Binds scope (before.names.intern text).1 existing)
      (stored : before.symbols.get? existing = some symbol) :
      Settles before scope text fresh finish placement symbol.type
        { before with names := (before.names.intern text).2 }
  | created {position : Position} {after : Program} {content : Scope}
      (stored : before.scopes.get? scope = some content)
      (free : content.lookup (before.names.intern text).1 = none)
      (located : before.Located placement position)
      (introduces : before.Introduces scope text fresh finish position after) :
      Settles before scope text fresh finish placement fresh after

theorem introduces_of_introduce {before after : Program} {scope : ScopeRef}
    {text : String} {fresh : TypeRef} {position : Position} {answer : Unit}
    (ran : Edit.introduce scope (before.names.intern text).1 fresh position
      { before with names := (before.names.intern text).2 } = .ok answer after) :
    before.Introduces scope text fresh id position after := by
  simp only [Edit.introduce, StructuralTypes.bind_eq_ok_iff, Edit.setTypeSymbol_eq_ok_iff,
    Edit.setDefinition, Edit.changeSymbol_eq_ok_iff, Edit.bind_eq_ok_iff,
    Edit.changeLayout_eq_ok_iff] at ran
  rcases ran with
    ⟨symbol, _, added, -, _, ⟨types, declared, rfl⟩, declaration, _, stated, -, _,
      ⟨symbols, defined, rfl⟩, -, _, ⟨scopes, bound, rfl⟩, layout, placed, rfl⟩
  rcases Edit.addSymbol_eq_ok_iff.mp added with ⟨rfl, rfl⟩
  simp only [Edit.addStatement, EStateM.Result.ok.injEq] at stated
  rcases stated with ⟨rfl, rfl⟩
  dsimp only at defined declared bound placed
  rw [Arena.modify_push_next] at defined
  cases Except.ok.inj defined
  exact ⟨rfl, rfl, rfl, rfl, declared, bound, placed⟩

theorem grows_position {position : Position} {layout linked : Layout} {new : StatementRef}
    (placed : position.link new layout = .ok linked) : layout.Grows linked := by
  cases position with
  | shared => exact Layout.grows_placeSynthesized placed
  | after anchor => exact Layout.grows_insertAfter placed
  | before anchor => exact Layout.grows_insertBefore placed

theorem Introduces.grows {before after : Program} {scope : ScopeRef} {text : String}
    {fresh : TypeRef} {finish : TypeForm → TypeForm} {position : Position}
    (introduces : before.Introduces scope text fresh finish position after) :
    before.layout.Grows after.layout :=
  (Layout.grows_addStatement _ _).trans (grows_position introduces.layout)

theorem Introduces.finish {before middle : Program} {scope : ScopeRef}
    {text : String} {fresh : TypeRef} {position : Position}
    (introduces : before.Introduces scope text fresh id position middle)
    {change : TypeForm → TypeForm} {types : Arena .type TypeNode}
    (changed : middle.types.modify fresh
      (fun node => { node with form := change node.form }) = .ok types) :
    before.Introduces scope text fresh change position { middle with types } where
  names := introduces.names
  expressions := introduces.expressions
  modules := introduces.modules
  symbols := introduces.symbols
  types := Arena.modify_modify introduces.types changed
  scopes := introduces.scopes
  layout := introduces.layout

section

variable {before after : Program} {scope : ScopeRef} {text : String} {fresh : TypeRef}
  {finish : TypeForm → TypeForm} {position : Position}
  (introduces : before.Introduces scope text fresh finish position after)
include introduces

/-! What an introduction adds, and what it leaves alone. -/

theorem Introduces.new_symbol : after.symbols.get? before.symbols.next = some
    { name := (before.names.intern text).1
      kind := .type
      type := fresh
      scope
      definition := .statement before.layout.statements.next } := by
  rw [introduces.symbols]
  exact Arena.get?_push_next ..

theorem Introduces.old_symbol {ref : SymbolRef} {symbol : Symbol}
    (stored : before.symbols.get? ref = some symbol) :
    after.symbols.get? ref = some symbol := by
  rw [introduces.symbols]
  exact Arena.get?_push_of_get? _ stored

theorem Introduces.new_name : after.names.get? (before.names.intern text).1 = some text := by
  rw [introduces.names]
  exact NameTable.get?_intern ..

theorem Introduces.old_name {name : NameRef} {other : String}
    (named : before.names.get? name = some other) : after.names.get? name = some other := by
  rw [introduces.names]
  exact NameTable.get?_intern_of_get? text named

theorem Introduces.type_same {form : TypeForm} {symbol : Option SymbolRef}
    (stored : before.types.get? fresh = some { form, symbol }) :
    after.types.get? fresh = some { form := finish form, symbol := some before.symbols.next } := by
  rw [Arena.get?_of_modify_same introduces.types, stored]
  rfl

theorem Introduces.type_other {type : TypeRef} (different : type ≠ fresh) :
    after.types.get? type = before.types.get? type :=
  Arena.get?_of_modify_of_ne introduces.types (Ne.symm different)

theorem Introduces.type_cases {form later : TypeForm} {symbol owner : Option SymbolRef}
    {type : TypeRef} (stored : before.types.get? fresh = some { form, symbol })
    (found : after.types.get? type = some { form := later, symbol := owner }) :
    (type = fresh ∧ later = finish form ∧ owner = some before.symbols.next) ∨
      before.types.get? type = some { form := later, symbol := owner } := by
  by_cases isFresh : type = fresh
  · subst isFresh
    rw [introduces.type_same stored] at found
    simp only [Option.some.injEq, TypeNode.mk.injEq] at found
    exact .inl ⟨rfl, found.1.symm, found.2.symm⟩
  · exact .inr ((introduces.type_other isFresh).symm.trans found)

theorem Introduces.binds_iff {other : ScopeRef} {name : NameRef} {found : SymbolRef} :
    after.Binds other name found ↔
      if scope = other ∧ (before.names.intern text).1 = name
      then before.symbols.next = found else before.Binds other name found :=
  binds_bind_iff introduces.scopes

theorem Introduces.binds_cases {other : ScopeRef} {name : NameRef} {found : SymbolRef}
    (binds : after.Binds other name found) :
    (other = scope ∧ name = (before.names.intern text).1 ∧ found = before.symbols.next) ∨
      before.Binds other name found := by
  rw [introduces.binds_iff] at binds
  split at binds
  · rename_i isNew
    exact .inl ⟨isNew.1.symm, isNew.2.symm, binds.symm⟩
  · exact .inr binds

theorem Introduces.bound_cases {source : Program}
    (isNew : source.symbols.get? before.symbols.next = none)
    (bound : ∀ other name ref, before.Binds other name ref →
      source.Binds other name ref ∨ source.symbols.get? ref = none ∧
        ∃ symbol, before.symbols.get? ref = some symbol ∧ symbol.name = name ∧
          symbol.scope = other)
    {other : ScopeRef} {name : NameRef} {ref : SymbolRef} (binds : after.Binds other name ref) :
    source.Binds other name ref ∨ source.symbols.get? ref = none ∧
      ∃ symbol, after.symbols.get? ref = some symbol ∧ symbol.name = name ∧
        symbol.scope = other := by
  rcases introduces.binds_cases binds with ⟨rfl, rfl, rfl⟩ | old
  · exact .inr ⟨isNew, _, introduces.new_symbol, rfl, rfl⟩
  · refine (bound other name ref old).imp_right ?_
    rintro ⟨missing, symbol, found, facts⟩
    exact ⟨missing, symbol, introduces.old_symbol found, facts⟩

theorem Introduces.new_bound :
    after.Binds scope (before.names.intern text).1 before.symbols.next := by
  rw [introduces.binds_iff, if_pos ⟨rfl, rfl⟩]

theorem Introduces.scope_kept {other : ScopeRef} {content : Scope}
    (stored : before.scopes.get? other = some content) :
    ∃ later, after.scopes.get? other = some later ∧ later.intrinsic = content.intrinsic := by
  rw [Arena.get?_of_modify introduces.scopes, stored]
  split <;> exact ⟨_, rfl, rfl⟩

end

section

variable {before after : Program} {scope : ScopeRef} {text : String}
  {fresh canonical : TypeRef} {finish : TypeForm → TypeForm} {placement : Placement}
  (settles : before.Settles scope text fresh finish placement canonical after)
include settles

theorem Settles.symbols {ref : SymbolRef} {symbol : Symbol}
    (stored : before.symbols.get? ref = some symbol) :
    after.symbols.get? ref = some symbol := by
  cases settles with
  | reused => exact stored
  | created _ _ _ introduces => exact introduces.old_symbol stored

theorem Settles.type_other {type : TypeRef} (different : type ≠ fresh) :
    after.types.get? type = before.types.get? type := by
  cases settles with
  | reused => rfl
  | created _ _ _ introduces => exact introduces.type_other different

end

end Program

def Session.Alongside {τ : Type} (before after : Session τ) : Prop :=
  after.scope = before.scope ∧ after.statement = before.statement

theorem located_of_locate {τ : Type} {fresh : TypeRef} {placement : Placement}
    {before after : Session τ} {position : Position}
    (ran : Canon.locate fresh placement before = .ok position after) :
    after = before ∧ before.program.Located placement position := by
  cases placement with
  | shared =>
      simp only [Canon.locate, pure_eq_ok_iff] at ran
      rcases ran with ⟨rfl, rfl⟩
      exact ⟨rfl, .shared⟩
  | before statement =>
      simp only [Canon.locate, pure_eq_ok_iff] at ran
      rcases ran with ⟨rfl, rfl⟩
      exact ⟨rfl, .before⟩
  | afterElement element =>
      simp only [Canon.locate, bind_eq_ok_iff, Canon.ask_eq_ok_iff] at ran
      rcases ran with ⟨declaration, _, ⟨asked, rfl⟩, ran⟩
      cases declaration with
      | none => simp [bind_eq_ok_iff, Canon.fail_eq_ok_iff] at ran
      | some declaration =>
          simp only [pure_eq_ok_iff] at ran
          rcases ran with ⟨rfl, rfl⟩
          exact ⟨rfl, .afterElement asked⟩

/-! ## How settling a type ends -/

section

variable {τ : Type}

namespace Session

def interning (session : Session τ) (text : String) : Session τ :=
  { session with
    program := { session.program with names := (session.program.names.intern text).2 } }

def reusing (session : Session τ) : Session τ :=
  { session with own := { session.own with tally := session.own.tally.countReused } }

def declaring (session : Session τ) (program : Program) (shape : Shape) : Session τ :=
  { session with
    program
    own := { session.own with tally := session.own.tally.countCreated shape } }

end Session

def Program.Free (program : Program) (scope : ScopeRef) (name : NameRef) : Prop :=
  ∃ content, program.scopes.get? scope = some content ∧ content.lookup name = none

theorem Program.Free.not_binds {program : Program} {scope : ScopeRef} {name : NameRef}
    (free : program.Free scope name) (symbol : SymbolRef) : ¬program.Binds scope name symbol := by
  rcases free with ⟨content, stored, missing⟩
  intro binds
  rcases binds with ⟨again, storedAgain, found⟩
  cases Option.mem_unique stored storedAgain
  cases missing.symm.trans found

namespace Canon

variable {before after : Session τ} {text : String} {fresh type : TypeRef} {placement : Placement}

theorem settle_eq_reused
    (ran : settle text fresh placement before = .ok (.reused type) after) :
    ∃ existing symbol,
      before.program.Binds before.scope (before.program.names.intern text).1 existing ∧
      before.program.symbols.get? existing = some symbol ∧ type = symbol.type ∧
      after = (before.interning text).reusing := by
  simp only [settle, bind_eq_ok_iff, get_eq_ok_iff, perform_eq_ok_iff,
    Edit.intern_eq_ok_iff, ask_eq_ok_iff] at ran
  rcases ran with ⟨_, before, ⟨rfl, rfl⟩, _, _, ⟨_, ⟨rfl, rfl⟩, rfl⟩, existing, _,
    ⟨looked, rfl⟩, ran⟩
  cases existing with
  | some existing =>
      simp only [bind_eq_ok_iff, count_eq_ok_iff, ask_eq_ok_iff, Program.symbol_eq_ok_iff,
        pure_eq_ok_iff, Settled.reused.injEq] at ran
      rcases ran with ⟨-, _, rfl, symbol, _, ⟨stored, rfl⟩, rfl, rfl⟩
      exact ⟨existing, symbol, Program.lookup_eq_some_iff.mp looked, stored, rfl, rfl⟩
  | none =>
      simp only [bind_eq_ok_iff, pure_eq_ok_iff, reduceCtorEq, false_and, and_false,
        exists_false] at ran

theorem settle_eq_created
    (ran : settle text fresh placement before = .ok (.created type) after) :
    type = fresh ∧ ∃ form symbol position program,
      before.program.types.get? fresh = some { form, symbol } ∧
      before.program.Free before.scope (before.program.names.intern text).1 ∧
      before.program.Located placement position ∧
      before.program.Introduces before.scope text fresh id position program ∧
      after = before.declaring program form.shape := by
  simp only [settle, bind_eq_ok_iff, get_eq_ok_iff, perform_eq_ok_iff,
    Edit.intern_eq_ok_iff, ask_eq_ok_iff] at ran
  rcases ran with ⟨_, before, ⟨rfl, rfl⟩, _, _, ⟨_, ⟨rfl, rfl⟩, rfl⟩, existing, _,
    ⟨looked, rfl⟩, ran⟩
  cases existing with
  | some existing =>
      simp only [bind_eq_ok_iff, pure_eq_ok_iff, reduceCtorEq, false_and, and_false,
        exists_false] at ran
  | none =>
      simp only [bind_eq_ok_iff, count_eq_ok_iff, ask_eq_ok_iff, perform_eq_ok_iff,
        Program.shape_eq_ok_iff, pure_eq_ok_iff, Settled.created.injEq] at ran
      rcases ran with
        ⟨position, _, locating, _, _, ⟨program, introduced, rfl⟩, shape, _,
          ⟨⟨node, declared, rfl⟩, rfl⟩, -, _, rfl, rfl, rfl⟩
      rcases located_of_locate locating with ⟨rfl, located⟩
      have introduces := Program.introduces_of_introduce introduced
      rcases Arena.get?_eq_some_of_modify introduces.types declared with ⟨old, stored, isNode⟩
      rw [if_pos rfl] at isNode
      refine ⟨rfl, old.form, old.symbol, position, program, stored,
        Program.lookup_eq_none_iff.mp looked, ?_, introduces, ?_⟩
      · cases located with
        | shared => exact .shared
        | before => exact .before
        | afterElement linked => exact .afterElement linked
      · rw [isNode]
        rfl

end Canon

theorem settle_eq_ok {text : String} {fresh : TypeRef} {placement : Placement}
    {before after : Session τ} {settled : Settled}
    (ran : Canon.settle text fresh placement before = .ok settled after) :
    before.Alongside after ∧
      ((∃ existing symbol,
          before.program.Binds before.scope (before.program.names.intern text).1 existing ∧
          before.program.symbols.get? existing = some symbol ∧
          settled = .reused symbol.type ∧
          after.program =
            { before.program with names := (before.program.names.intern text).2 }) ∨
        ∃ position content,
          before.program.scopes.get? before.scope = some content ∧
          content.lookup (before.program.names.intern text).1 = none ∧
          before.program.Located placement position ∧
          before.program.Introduces before.scope text fresh id position after.program ∧
          settled = .created fresh) := by
  cases settled with
  | reused type =>
      rcases Canon.settle_eq_reused ran with ⟨existing, symbol, bound, stored, rfl, rfl⟩
      exact ⟨⟨rfl, rfl⟩, .inl ⟨existing, symbol, bound, stored, rfl, rfl⟩⟩
  | created type =>
      rcases Canon.settle_eq_created ran with
        ⟨rfl, _, _, position, program, -, ⟨content, scopeStored, free⟩, located, introduces, rfl⟩
      exact ⟨⟨rfl, rfl⟩, .inr ⟨position, content, scopeStored, free, located, introduces, rfl⟩⟩

end

theorem settles_of_settle {τ : Type} {text : String} {fresh : TypeRef}
    {placement : Placement} {before after : Session τ} {settled : Settled}
    (ran : Canon.settle text fresh placement before = .ok settled after) :
    before.Alongside after ∧
      before.program.Settles before.scope text fresh id placement settled.type
        after.program := by
  rcases settle_eq_ok ran with ⟨alongside, outcome⟩
  refine ⟨alongside, ?_⟩
  rcases outcome with ⟨existing, symbol, bound, stored, rfl, same⟩ |
    ⟨position, content, stored, free, located, introduces, rfl⟩
  · rw [same]
    exact .reused bound stored
  · exact .created stored free located introduces

theorem settles_of_settleShared {τ : Type} {key : CanonicalKey} {fresh canonical : TypeRef}
    {before after : Session τ}
    (ran : Canon.settleShared key fresh before = .ok canonical after) :
    before.Alongside after ∧
      before.program.Settles Program.sharedScope key.name fresh id .shared canonical
        after.program := by
  simp only [Canon.settleShared, Canon.inScope_eq_ok_iff, bind_eq_ok_iff,
    pure_eq_ok_iff] at ran
  rcases ran with ⟨_, ⟨settled, inner, ran, rfl, rfl⟩, rfl⟩
  rcases settles_of_settle ran with ⟨⟨-, same⟩, settles⟩
  exact ⟨⟨rfl, same⟩, settles⟩

namespace Program

/-! ## Rules -/

/-- Key of the index type over `subject`, looked up in `scope`. -/
inductive IndexKeyed (program : Program) (scope : ScopeRef) (subject : ExpressionRef) :
    CanonicalKey → Prop
  | ofLiteral {value : Int}
      (denotes : program.expressions.get? subject = some (.literal value)) :
      IndexKeyed program scope subject (.indexOfLiteral value)
  | ofVariable {ref : SymbolRef} {domain : TypeRef} {rank : Nat} {text : String}
      (denotes : program.expressions.get? subject = some (.reference ref))
      (found : program.denotedIn? scope ref = some domain)
      (ranked : program.rank? domain = some rank)
      (name : program.typeName? domain = .ok (some text)) :
      IndexKeyed program scope subject (.indexOfDomain text)

/-- Canonicalizing `type` as an element or for a variable of `scope` takes one program
to the other and ends in the second type. -/
inductive Canonicalizes (scope : ScopeRef) :
    Program → TypeRef → TypeRef → Program → Prop
  | kept {program : Program} {type : TypeRef} {form : TypeForm} {ref : SymbolRef}
      (stored : program.types.get? type = some { form, symbol := some ref }) :
      Canonicalizes scope program type type program
  | scalar {program : Program} {type : TypeRef} {form : TypeForm}
      (stored : program.types.get? type = some { form, symbol := none })
      (scalar : form.Scalar) :
      Canonicalizes scope program type type program
  | index {before after : Program} {type canonical : TypeRef} {subject : ExpressionRef}
      {key : CanonicalKey}
      (stored : before.types.get? type = some { form := .index subject, symbol := none })
      (keyed : before.IndexKeyed scope subject key)
      (settles : before.Settles sharedScope key.name type id .shared canonical after) :
      Canonicalizes scope before type canonical after
  | domain {before after : Program} {type canonical : TypeRef} {rank : Nat}
      {companion : Option TypeRef} {types : Arena .type TypeNode}
      (stored : before.types.get? type =
        some { form := .domain rank none companion, symbol := none })
      (ranked : before.types.modify type
        (fun node => { node with form := node.form.withRank (effectiveRank rank) }) =
          .ok types)
      (settles : { before with types }.Settles sharedScope (CanonicalKey.domain rank).name
        type id .shared canonical after) :
      Canonicalizes scope before type canonical after
  | tuple {before after : Program} {type canonical : TypeRef} {components : List TypeRef}
      {text : TypeRef → String}
      (stored : before.types.get? type = some { form := .tuple components, symbol := none })
      (named : ∀ component ∈ components,
        before.typeName? component = .ok (some (text component)))
      (settles : before.Settles sharedScope (CanonicalKey.tuple (components.map text)).name
        type id .shared canonical after) :
      Canonicalizes scope before type canonical after
  | sequence {before middle after : Program} {type element inner canonical : TypeRef}
      {types : Arena .type TypeNode} {ref : SymbolRef} {home : Home} {text : String}
      (stored : before.types.get? type = some { form := .sequence element, symbol := none })
      (nested : Canonicalizes scope before element inner middle)
      (rewritten : middle.types.modify type
        (fun node => { node with form := node.form.withElement inner }) = .ok types)
      (named : { middle with types }.typeSymbol? inner = .ok (some ref))
      (beside : middle.homeBeside ref = .ok home)
      (name : middle.symbolName ref = .ok text)
      (settles : { middle with types }.Settles home.scope (CanonicalKey.sequence text).name
        type id home.placement canonical after) :
      Canonicalizes scope before type canonical after
  | array {before middle after : Program} {type element inner canonical domain : TypeRef}
      {range : ExpressionRef} {recorded : Option TypeRef} {rank : Nat}
      {types : Arena .type TypeNode} {ref : SymbolRef} {home : Home} {text : String}
      (stored : before.types.get? type =
        some { form := .array element range recorded, symbol := none })
      (nested : Canonicalizes scope before element inner middle)
      (rewritten : middle.types.modify type
        (fun node => { node with form := node.form.withElement inner }) = .ok types)
      (named : { middle with types }.typeSymbol? inner = .ok (some ref))
      (beside : middle.homeBeside ref = .ok home)
      (name : middle.symbolName ref = .ok text)
      (ranges : { middle with types }.rangeDomain? range = some domain)
      (ranked : { middle with types }.rank? domain = some rank)
      (settles : { middle with types }.Settles home.scope (CanonicalKey.array text rank).name
        type (·.withDomain domain) home.placement canonical after) :
      Canonicalizes scope before type canonical after

end Program

/-! ## Computations follow the rules -/

section

variable {τ : Type} {before after : Session τ} {type canonical : TypeRef}

theorem expectAnonymous_eq_ok {answer : Unit}
    (ran : Canon.expectAnonymous type before = .ok answer after) :
    after = before ∧ ∀ form symbol,
      before.program.types.get? type = some { form, symbol } → symbol = none := by
  simp only [Canon.expectAnonymous, bind_eq_ok_iff, Canon.ask_eq_ok_iff] at ran
  rcases ran with ⟨name, before, ⟨asked, rfl⟩, ran⟩
  cases name with
  | none =>
      simp only [pure_eq_ok_iff] at ran
      refine ⟨ran.2.symm, fun form symbol stored => ?_⟩
      rcases Program.typeName?_eq_none_iff.mp asked with ⟨_, found⟩
      rw [stored] at found
      simp only [Option.some.injEq, TypeNode.mk.injEq] at found
      exact found.2
  | some name => simp [bind_eq_ok_iff, Canon.fail_eq_ok_iff] at ran

theorem indexKeyOfVariable_eq_ok {subject : ExpressionRef} {ref : SymbolRef}
    {scope : ScopeRef} {key : CanonicalKey}
    (denotes : before.program.expressions.get? subject = some (.reference ref))
    (ran : Canon.indexKeyOfVariable ref scope before = .ok key after) :
    after = before ∧ before.program.IndexKeyed scope subject key := by
  simp only [Canon.indexKeyOfVariable, bind_eq_ok_iff, Canon.ask_eq_ok_iff,
    Program.symbol_eq_ok_iff] at ran
  rcases ran with ⟨symbol, before, ⟨stored, rfl⟩, found, _, ⟨looked, rfl⟩, ran⟩
  cases found with
  | none => simp [bind_eq_ok_iff, Canon.fail_eq_ok_iff] at ran
  | some found =>
      simp only [bind_eq_ok_iff, Canon.ask_eq_ok_iff, Program.symbol_eq_ok_iff] at ran
      rcases ran with ⟨other, before, ⟨otherStored, rfl⟩, shape, _, ⟨shaped, rfl⟩, ran⟩
      split at ran
      · simp only [bind_eq_ok_iff, Canon.ask_eq_ok_iff] at ran
        rcases ran with ⟨name, before, ⟨asked, rfl⟩, ran⟩
        cases name with
        | none => simp [Canon.unsupported_eq_ok_iff] at ran
        | some text =>
            simp only [pure_eq_ok_iff] at ran
            rcases ran with ⟨rfl, rfl⟩
            have bound := Program.lookup_eq_some_iff.mp looked
            have denoted : before.program.denotedIn? scope ref = some other.type :=
              Program.denotedIn?_eq_some_iff.mpr
                ⟨symbol, found, other, stored, bound, otherStored, rfl⟩
            rcases Program.shape_eq_ok_iff.mp shaped with ⟨⟨form, holder⟩, nodeStored, isDomain⟩
            cases form with
            | domain rank parent companion =>
                exact ⟨rfl, .ofVariable denotes denoted
                  (Program.rank?_eq_some_iff.mpr ⟨_, _, _, nodeStored⟩) asked⟩
            | _ => simp [TypeForm.shape] at isDomain
      · simp [bind_eq_ok_iff, Canon.unsupported_eq_ok_iff] at ran

theorem indexKey_eq_ok {subject : ExpressionRef} {scope : ScopeRef} {key : CanonicalKey}
    (ran : Canon.indexKey subject scope before = .ok key after) :
    after = before ∧ before.program.IndexKeyed scope subject key := by
  simp only [Canon.indexKey, bind_eq_ok_iff, Canon.ask_eq_ok_iff,
    Program.expression_eq_ok_iff] at ran
  rcases ran with ⟨expression, before, ⟨denotes, rfl⟩, ran⟩
  cases expression with
  | literal value =>
      simp only [pure_eq_ok_iff] at ran
      rcases ran with ⟨rfl, rfl⟩
      exact ⟨rfl, .ofLiteral denotes⟩
  | reference ref => exact indexKeyOfVariable_eq_ok denotes ran
  | iteration domains => simp [Canon.unsupported_eq_ok_iff] at ran

theorem index_eq_ok {scope : ScopeRef}
    (ran : Canon.index type scope before = .ok canonical after) :
    before.Alongside after ∧
      (∃ form, before.program.types.get? type = some { form, symbol := none }) ∧
      before.program.Canonicalizes scope type canonical after.program := by
  simp only [Canon.index, bind_eq_ok_iff, Canon.ask_eq_ok_iff,
    Program.form_eq_ok_iff] at ran
  rcases ran with ⟨form, before, ⟨⟨symbol, stored⟩, rfl⟩, ran⟩
  split at ran
  · rename_i subject
    simp only [bind_eq_ok_iff] at ran
    rcases ran with ⟨_, _, anonymous, key, middle, keying, settling⟩
    rcases expectAnonymous_eq_ok anonymous with ⟨rfl, isNone⟩
    cases isNone _ _ stored
    rcases indexKey_eq_ok keying with ⟨rfl, keyed⟩
    rcases settles_of_settleShared settling with ⟨alongside, settles⟩
    exact ⟨alongside, ⟨_, stored⟩, .index stored keyed settles⟩
  · simp [Canon.fail_eq_ok_iff] at ran

theorem domain_eq_ok (ran : Canon.domain type before = .ok canonical after)
    (scope : ScopeRef) :
    before.Alongside after ∧
      (∃ form, before.program.types.get? type = some { form, symbol := none }) ∧
      before.program.Canonicalizes scope type canonical after.program := by
  simp only [Canon.domain, bind_eq_ok_iff, Canon.ask_eq_ok_iff,
    Program.form_eq_ok_iff] at ran
  rcases ran with ⟨form, before, ⟨⟨symbol, stored⟩, rfl⟩, ran⟩
  split at ran
  · rename_i rank parent companion
    simp only [bind_eq_ok_iff] at ran
    rcases ran with ⟨_, _, anonymous, ran⟩
    rcases expectAnonymous_eq_ok anonymous with ⟨rfl, isNone⟩
    cases isNone _ _ stored
    cases parent with
    | some parent => simp [Canon.unsupported_eq_ok_iff] at ran
    | none =>
        simp only [bind_eq_ok_iff, Canon.perform_eq_ok_iff,
          Edit.changeForm_eq_ok_iff] at ran
        rcases ran with ⟨_, _, ⟨_, ⟨types, ranked, rfl⟩, rfl⟩, settling⟩
        rcases settles_of_settleShared settling with ⟨alongside, settles⟩
        exact ⟨alongside, ⟨_, stored⟩, .domain stored ranked settles⟩
  · simp [Canon.fail_eq_ok_iff] at ran

def currentName (program : Program) (type : TypeRef) : String :=
  match program.typeName? type with
  | .ok (some text) => text
  | _ => ""

theorem componentNames_eq_ok {position : Nat} {components : List TypeRef}
    {names : List String}
    (ran : Canon.componentNames position components before = .ok names after) :
    after = before ∧ names = components.map (currentName before.program) ∧
      ∀ component ∈ components, before.program.typeName? component =
        .ok (some (currentName before.program component)) := by
  induction components generalizing position names with
  | nil =>
      simp only [Canon.componentNames, pure_eq_ok_iff] at ran
      rcases ran with ⟨rfl, rfl⟩
      simp
  | cons head tail induction =>
      simp only [Canon.componentNames, bind_eq_ok_iff, Canon.ask_eq_ok_iff] at ran
      rcases ran with ⟨name, before, ⟨asked, rfl⟩, ran⟩
      cases name with
      | none => simp [Canon.unsupported_eq_ok_iff] at ran
      | some text =>
          simp only [bind_eq_ok_iff, pure_eq_ok_iff] at ran
          rcases ran with ⟨rest, middle, later, rfl, rfl⟩
          rcases induction later with ⟨same, rfl, named⟩
          subst middle
          have current : currentName before.program head = text := by
            simp only [currentName, asked]
          refine ⟨rfl, by rw [List.map_cons, current], ?_⟩
          intro component member
          rcases List.mem_cons.mp member with rfl | inTail
          · rw [current]
            exact asked
          · exact named component inTail

theorem tuple_eq_ok (ran : Canon.tuple type before = .ok canonical after)
    (scope : ScopeRef) :
    before.Alongside after ∧
      (∃ form, before.program.types.get? type = some { form, symbol := none }) ∧
      before.program.Canonicalizes scope type canonical after.program := by
  simp only [Canon.tuple, bind_eq_ok_iff, Canon.ask_eq_ok_iff,
    Program.form_eq_ok_iff] at ran
  rcases ran with ⟨form, before, ⟨⟨symbol, stored⟩, rfl⟩, ran⟩
  split at ran
  · rename_i components
    simp only [bind_eq_ok_iff] at ran
    rcases ran with ⟨_, _, anonymous, names, _, naming, settling⟩
    rcases expectAnonymous_eq_ok anonymous with ⟨rfl, isNone⟩
    cases isNone _ _ stored
    rcases componentNames_eq_ok naming with ⟨rfl, rfl, named⟩
    rcases settles_of_settleShared settling with ⟨alongside, settles⟩
    exact ⟨alongside, ⟨_, stored⟩, .tuple stored named settles⟩
  · simp [Canon.fail_eq_ok_iff] at ran

end

section

variable {before after : Session Unit} {type canonical : TypeRef}

/-- Every success of `action` on an element is one that the rules allow. -/
def Ruled (action : TypeRef → Canon Unit TypeRef) : Prop :=
  ∀ before after type canonical, action type before = .ok canonical after →
    before.Alongside after ∧
      before.program.Canonicalizes before.scope type canonical after.program

theorem elementSymbol_eq_ok {τ : Type} {before after : Session τ} {shape : Shape}
    {element : TypeRef} {ref : SymbolRef}
    (ran : Canon.elementSymbol shape element before = .ok ref after) :
    after = before ∧ before.program.typeSymbol? element = .ok (some ref) := by
  simp only [Canon.elementSymbol, bind_eq_ok_iff, Canon.ask_eq_ok_iff] at ran
  rcases ran with ⟨symbol, _, ⟨found, rfl⟩, ran⟩
  cases symbol with
  | some symbol =>
      simp only [pure_eq_ok_iff] at ran
      rcases ran with ⟨rfl, rfl⟩
      exact ⟨rfl, found⟩
  | none => simp [bind_eq_ok_iff, Canon.unsupported_eq_ok_iff] at ran

theorem settleElement_eq_ok {action : TypeRef → Canon Unit TypeRef} (ruled : Ruled action)
    {shape : Shape} {element : TypeRef} {ref : SymbolRef} {home : Home}
    (ran : Canon.settleElement shape action type element before = .ok (ref, home) after) :
    before.Alongside after ∧ ∃ inner middle types,
      before.program.Canonicalizes before.scope element inner middle ∧
      middle.types.modify type
        (fun node => { node with form := node.form.withElement inner }) = .ok types ∧
      after.program = { middle with types } ∧
      { middle with types }.typeSymbol? inner = .ok (some ref) ∧
      middle.homeBeside ref = .ok home := by
  simp only [Canon.settleElement, bind_eq_ok_iff, Canon.perform_eq_ok_iff,
    Edit.changeForm_eq_ok_iff, Canon.ask_eq_ok_iff, pure_eq_ok_iff, Prod.mk.injEq] at ran
  rcases ran with
    ⟨inner, middle, nested, _, _, ⟨_, ⟨types, rewritten, rfl⟩, rfl⟩, symbol, _, naming,
      home, _, ⟨beside, rfl⟩, ⟨rfl, rfl⟩, rfl⟩
  rcases ruled _ _ _ _ nested with ⟨alongside, canonicalizes⟩
  rcases elementSymbol_eq_ok naming with ⟨rfl, named⟩
  exact ⟨alongside, inner, middle.program, types, canonicalizes, rewritten, rfl, named, beside⟩

theorem materialize_silent_eq_ok {answer : Unit}
    (ran : Canon.materialize .silent type before = .ok answer after) :
    before.Alongside after ∧ after.program = before.program := by
  simp only [Canon.materialize, SequenceHook.silent, bind_eq_ok_iff, get_eq_ok_iff,
    Canon.perform_eq_ok_iff, pure_eq_ok_iff, modify_eq_ok_iff] at ran
  rcases ran with ⟨_, _, ⟨rfl, rfl⟩, _, _, ⟨_, ⟨-, rfl⟩, rfl⟩, rfl⟩
  exact ⟨⟨rfl, rfl⟩, rfl⟩

theorem sequenceWith_eq_ok {action : TypeRef → Canon Unit TypeRef} (ruled : Ruled action)
    (ran : Canon.sequenceWith .silent action type before = .ok canonical after) :
    before.Alongside after ∧
      (∃ form, before.program.types.get? type = some { form, symbol := none }) ∧
      before.program.Canonicalizes before.scope type canonical after.program := by
  simp only [Canon.sequenceWith, bind_eq_ok_iff, Canon.ask_eq_ok_iff,
    Program.form_eq_ok_iff] at ran
  rcases ran with ⟨form, before, ⟨⟨symbol, stored⟩, rfl⟩, ran⟩
  split at ran
  · rename_i element
    simp only [bind_eq_ok_iff, Canon.inScope_eq_ok_iff, Canon.ask_eq_ok_iff] at ran
    rcases ran with
      ⟨_, _, anonymous, ⟨ref, home⟩, outer, nesting, settled, _,
        ⟨inner, ⟨text, _, ⟨name, rfl⟩, settling⟩, rfl⟩, ran⟩
    rcases expectAnonymous_eq_ok anonymous with ⟨rfl, isNone⟩
    cases isNone _ _ stored
    rcases settleElement_eq_ok ruled nesting with
      ⟨⟨outerScope, outerStatement⟩, part, middle, types, nested, rewritten, same, named, beside⟩
    rcases settles_of_settle settling with ⟨⟨innerScope, innerStatement⟩, settles⟩
    dsimp only at innerScope innerStatement settles name
    rw [same] at settles name
    obtain ⟨⟨lastScope, lastStatement⟩, unchanged, final⟩ :
        (after.scope = outer.scope ∧ after.statement = inner.statement) ∧
          after.program = inner.program ∧ canonical = settled.type := by
      cases settled with
      | reused existing =>
          simp only [pure_eq_ok_iff] at ran
          rcases ran with ⟨rfl, rfl⟩
          exact ⟨⟨rfl, rfl⟩, rfl, rfl⟩
      | created created =>
          simp only [bind_eq_ok_iff, pure_eq_ok_iff] at ran
          rcases ran with ⟨_, _, materialized, rfl, rfl⟩
          rcases materialize_silent_eq_ok materialized with ⟨alongside, unchanged⟩
          exact ⟨alongside, unchanged, rfl⟩
    refine ⟨⟨lastScope.trans outerScope,
      lastStatement.trans (innerStatement.trans outerStatement)⟩, ⟨_, stored⟩, ?_⟩
    rw [unchanged, final]
    exact .sequence stored nested rewritten named beside name settles
  · simp [Canon.fail_eq_ok_iff] at ran

theorem rangeDomain_eq_ok {τ : Type} {before after : Session τ} {range : ExpressionRef}
    {domain : TypeRef} {rank : Nat}
    (ran : Canon.rangeDomain range before = .ok (domain, rank) after) :
    after = before ∧ before.program.rangeDomain? range = some domain ∧
      before.program.rank? domain = some rank := by
  simp only [Canon.rangeDomain, bind_eq_ok_iff, Canon.ask_eq_ok_iff,
    Program.expression_eq_ok_iff] at ran
  rcases ran with ⟨expression, before, ⟨iterates, rfl⟩, ran⟩
  split at ran
  · rename_i single
    simp only [bind_eq_ok_iff, Canon.ask_eq_ok_iff, Program.expression_eq_ok_iff] at ran
    rcases ran with ⟨inner, before, ⟨refers, rfl⟩, ran⟩
    split at ran
    · rename_i ref
      simp only [bind_eq_ok_iff, Canon.ask_eq_ok_iff, Program.symbol_eq_ok_iff,
        Program.form_eq_ok_iff] at ran
      rcases ran with ⟨symbol, before, ⟨stored, rfl⟩, form, before, ⟨⟨holder, found⟩, rfl⟩, ran⟩
      split at ran
      · simp only [pure_eq_ok_iff, Prod.mk.injEq] at ran
        rcases ran with ⟨⟨rfl, rfl⟩, rfl⟩
        exact ⟨rfl,
          Program.rangeDomain?_eq_some_iff.mpr
            ⟨single, ref, symbol, iterates, refers, stored, rfl⟩,
          Program.rank?_eq_some_iff.mpr ⟨_, _, _, found⟩⟩
      · simp [bind_eq_ok_iff, Canon.unsupported_eq_ok_iff] at ran
    · simp [Canon.unsupported_eq_ok_iff] at ran
  · simp [Canon.unsupported_eq_ok_iff] at ran
  · simp [Canon.unsupported_eq_ok_iff] at ran

theorem arrayWith_eq_ok {action : TypeRef → Canon Unit TypeRef} (ruled : Ruled action)
    (ran : Canon.arrayWith action type before = .ok canonical after) :
    before.Alongside after ∧
      (∃ form, before.program.types.get? type = some { form, symbol := none }) ∧
      before.program.Canonicalizes before.scope type canonical after.program := by
  simp only [Canon.arrayWith, bind_eq_ok_iff, Canon.ask_eq_ok_iff,
    Program.form_eq_ok_iff] at ran
  rcases ran with ⟨form, before, ⟨⟨symbol, stored⟩, rfl⟩, ran⟩
  split at ran
  · rename_i element range recorded
    simp only [bind_eq_ok_iff, Canon.inScope_eq_ok_iff, Canon.ask_eq_ok_iff] at ran
    rcases ran with
      ⟨_, _, anonymous, ⟨ref, home⟩, outer, nesting, final, ⟨⟨domain, rank⟩, _, ranging,
        text, _, ⟨name, rfl⟩, settled, innermost, settling, ran⟩, rfl⟩
    rcases expectAnonymous_eq_ok anonymous with ⟨rfl, isNone⟩
    cases isNone _ _ stored
    rcases settleElement_eq_ok ruled nesting with
      ⟨⟨outerScope, outerStatement⟩, part, middle, types, nested, rewritten, same, named, beside⟩
    rcases rangeDomain_eq_ok ranging with ⟨rfl, ranges, ranked⟩
    rcases settle_eq_ok settling with ⟨⟨settledScope, settledStatement⟩, outcome⟩
    dsimp only at ranges ranked name settledScope settledStatement outcome
    rw [same] at ranges ranked name outcome
    have done : final.scope = innermost.scope ∧ final.statement = innermost.statement ∧
        Program.Settles { middle with types } home.scope
          (CanonicalKey.array text rank).name type (·.withDomain domain) home.placement
          canonical final.program := by
      rcases outcome with ⟨existing, symbol, bound, symbolStored, rfl, reused⟩ |
        ⟨position, content, scopeStored, free, located, introduces, rfl⟩
      · simp only [pure_eq_ok_iff] at ran
        rcases ran with ⟨rfl, rfl⟩
        refine ⟨rfl, rfl, ?_⟩
        rw [reused]
        exact .reused bound symbolStored
      · simp only [bind_eq_ok_iff, Canon.perform_eq_ok_iff, Edit.changeForm_eq_ok_iff,
          pure_eq_ok_iff] at ran
        rcases ran with ⟨_, _, ⟨_, ⟨changed, recording, rfl⟩, rfl⟩, rfl, rfl⟩
        exact ⟨rfl, rfl, .created scopeStored free located (introduces.finish recording)⟩
    rcases done with ⟨-, lastStatement, settles⟩
    refine ⟨⟨outerScope, lastStatement.trans (settledStatement.trans outerStatement)⟩,
      ⟨_, stored⟩, ?_⟩
    exact .array stored nested rewritten named beside name ranges ranked settles
  · simp [Canon.fail_eq_ok_iff] at ran

/-- What the canonicalization of composites does with a type: one that is no composite
stays as it is, all others follow a rule, which takes them without a declaration only. -/
def ComposesTo (before after : Session Unit) (type canonical : TypeRef) : Prop :=
  (∃ form symbol, before.program.types.get? type = some { form, symbol } ∧
    (form.Scalar ∨ form.shape = .index) ∧ canonical = type ∧
    after.program = before.program) ∨
  (∃ form, before.program.types.get? type = some { form, symbol := none }) ∧
    before.program.Canonicalizes before.scope type canonical after.program

theorem ruled_elementWith {composite : TypeRef → Canon Unit TypeRef}
    (composes : ∀ before after type canonical,
      composite type before = .ok canonical after →
      before.Alongside after ∧ ComposesTo before after type canonical) :
    Ruled (Canon.elementWith composite) := by
  intro before after type canonical ran
  simp only [Canon.elementWith, bind_eq_ok_iff, Canon.ask_eq_ok_iff,
    Program.typeSymbol?_eq_ok_iff] at ran
  rcases ran with ⟨symbol, before, ⟨⟨form, stored⟩, rfl⟩, ran⟩
  cases symbol with
  | some ref =>
      simp only [pure_eq_ok_iff] at ran
      rcases ran with ⟨rfl, rfl⟩
      exact ⟨⟨rfl, rfl⟩, .kept stored⟩
  | none =>
      simp only [bind_eq_ok_iff, Canon.ask_eq_ok_iff, Program.shape_eq_ok_iff] at ran
      rcases ran with ⟨shape, before, ⟨⟨node, found, shaped⟩, rfl⟩, ran⟩
      cases Option.mem_unique stored found
      split at ran
      · simp only [bind_eq_ok_iff, get_eq_ok_iff] at ran
        rcases ran with ⟨_, before, ⟨rfl, rfl⟩, ran⟩
        rcases index_eq_ok ran with ⟨alongside, -, canonicalizes⟩
        exact ⟨alongside, canonicalizes⟩
      · rename_i notIndex
        rcases composes _ _ _ _ ran with ⟨alongside, composed⟩
        refine ⟨alongside, ?_⟩
        rcases composed with ⟨other, symbol, otherStored, plain, rfl, same⟩ | ⟨-, canonicalizes⟩
        · rcases Program.node_unique stored otherStored with ⟨rfl, -⟩
          rw [same]
          rcases plain with scalar | isIndex
          · exact .scalar stored scalar
          · exact absurd (shaped.symm.trans isIndex) notIndex
        · exact canonicalizes

theorem compositeWithin_eq_ok {depth : Nat}
    (ran : Canon.compositeWithin .silent depth type before = .ok canonical after) :
    before.Alongside after ∧ ComposesTo before after type canonical := by
  induction depth generalizing before after type canonical with
  | zero => simp [Canon.compositeWithin, Canon.fault_eq_ok_iff] at ran
  | succ depth induction =>
      have ruled : Ruled (Canon.elementWith (Canon.compositeWithin .silent depth)) :=
        ruled_elementWith fun _ _ _ _ => induction
      simp only [Canon.compositeWithin, bind_eq_ok_iff, Canon.ask_eq_ok_iff,
        Program.shape_eq_ok_iff] at ran
      rcases ran with ⟨shape, before, ⟨⟨⟨form, symbol⟩, stored, rfl⟩, rfl⟩, ran⟩
      cases form with
      | primitive primitive =>
          simp only [TypeForm.shape, pure_eq_ok_iff] at ran
          rcases ran with ⟨rfl, rfl⟩
          exact ⟨⟨rfl, rfl⟩, .inl ⟨_, _, stored, .inl (.inl rfl), rfl, rfl⟩⟩
      | nominal =>
          simp only [TypeForm.shape, pure_eq_ok_iff] at ran
          rcases ran with ⟨rfl, rfl⟩
          exact ⟨⟨rfl, rfl⟩, .inl ⟨_, _, stored, .inl (.inr rfl), rfl, rfl⟩⟩
      | index subject =>
          simp only [TypeForm.shape, pure_eq_ok_iff] at ran
          rcases ran with ⟨rfl, rfl⟩
          exact ⟨⟨rfl, rfl⟩, .inl ⟨_, _, stored, .inr rfl, rfl, rfl⟩⟩
      | array element range recorded =>
          rcases arrayWith_eq_ok ruled ran with ⟨alongside, canonicalizes⟩
          exact ⟨alongside, .inr canonicalizes⟩
      | domain rank parent companion =>
          rcases domain_eq_ok ran before.scope with ⟨alongside, canonicalizes⟩
          exact ⟨alongside, .inr canonicalizes⟩
      | tuple components =>
          rcases tuple_eq_ok ran before.scope with ⟨alongside, canonicalizes⟩
          exact ⟨alongside, .inr canonicalizes⟩
      | sequence element =>
          rcases sequenceWith_eq_ok ruled ran with ⟨alongside, canonicalizes⟩
          exact ⟨alongside, .inr canonicalizes⟩

end

/-- A variable of `scope` that is declared with `type` gets the type `canonical`. -/
inductive Program.Adopts (before : Program) (scope : ScopeRef) (type : TypeRef) :
    TypeRef → Program → Prop
  | scalar {form : TypeForm} {symbol : Option SymbolRef}
      (stored : before.types.get? type = some { form, symbol }) (scalar : form.Scalar) :
      Adopts before scope type type before
  | settled {form : TypeForm} {canonical : TypeRef} {after : Program}
      (stored : before.types.get? type = some { form, symbol := none })
      (canonicalizes : before.Canonicalizes scope type canonical after) :
      Adopts before scope type canonical after
  /-- What a composite settled on would itself be an index type to settle. -/
  | twice {form inner : TypeForm} {first canonical : TypeRef} {middle after : Program}
      (stored : before.types.get? type = some { form, symbol := none })
      (canonicalizes : before.Canonicalizes scope type first middle)
      (anonymous : middle.types.get? first = some { form := inner, symbol := none })
      (again : middle.Canonicalizes scope first canonical after) :
      Adopts before scope type canonical after

theorem adopts_of_declaredType {before after : Session Unit} {type canonical : TypeRef}
    {scope : ScopeRef} (here : before.scope = scope)
    (ran : Canon.declaredType .silent type scope before = .ok canonical after) :
    before.program.Adopts scope type canonical after.program := by
  subst here
  simp only [Canon.declaredType, Canon.composite, Canon.nesting, bind_eq_ok_iff,
    get_eq_ok_iff, pure_eq_ok_iff] at ran
  rcases ran with ⟨first, middle, ⟨_, _, ⟨_, _, ⟨rfl, rfl⟩, rfl, rfl⟩, composing⟩, ran⟩
  rcases compositeWithin_eq_ok composing with ⟨⟨sameScope, -⟩, composed⟩
  simp only [Canon.indexOrSelf, bind_eq_ok_iff, Canon.ask_eq_ok_iff,
    Program.shape_eq_ok_iff] at ran
  rcases ran with ⟨shape, middle, ⟨⟨node, found, shaped⟩, rfl⟩, ran⟩
  rcases composed with ⟨form, symbol, stored, plain, rfl, same⟩ | ⟨stored, canonicalizes⟩
  · rw [same] at found
    cases Option.mem_unique stored found
    split at ran
    · rcases index_eq_ok ran with ⟨-, ⟨inner, anonymous⟩, canonicalizes⟩
      rw [same] at anonymous canonicalizes
      exact .settled anonymous canonicalizes
    · rename_i notIndex
      simp only [pure_eq_ok_iff] at ran
      rcases ran with ⟨rfl, rfl⟩
      rw [same]
      rcases plain with scalar | isIndex
      · exact .scalar stored scalar
      · exact absurd (shaped.symm.trans isIndex) notIndex
  · rcases stored with ⟨form, stored⟩
    split at ran
    · rcases index_eq_ok ran with ⟨-, ⟨inner, anonymous⟩, again⟩
      exact .twice stored canonicalizes anonymous again
    · simp only [pure_eq_ok_iff] at ran
      rcases ran with ⟨rfl, rfl⟩
      exact .settled stored canonicalizes

/-! ## The walk over the variables -/

/-- What entering a statement does: the variable that it declares adopts a type. -/
inductive Program.Resolves (before : Program) (ref : StatementRef) : Program → Prop
  | declaration {statement : Statement} {var : SymbolRef} {symbol : Symbol}
      {canonical : TypeRef} {middle : Program} {symbols : Arena .symbol Symbol}
      (found : before.statement ref = .ok statement)
      (declares : statement.kind = .varDeclaration var)
      (stored : before.symbols.get? var = some symbol)
      (adopts : before.Adopts symbol.scope symbol.type canonical middle)
      (changed : middle.symbols.modify var (fun symbol => { symbol with type := canonical }) =
        .ok symbols) :
      Resolves before ref { middle with symbols }
  | other {statement : Statement} (found : before.statement ref = .ok statement)
      (silent : ∀ var, statement.kind ≠ .varDeclaration var) :
      Resolves before ref before

inductive Program.ResolvesAll : Program → List StatementRef → Program → Prop
  | nil {program : Program} : ResolvesAll program [] program
  | cons {before middle after : Program} {ref : StatementRef} {rest : List StatementRef}
      (first : before.Resolves ref middle) (later : ResolvesAll middle rest after) :
      ResolvesAll before (ref :: rest) after

section

variable {before after : Walker (Progress Unit)} {answer : Unit}

theorem resolves_of_enterStatement {ref : StatementRef}
    (ran : (variableTypes .silent).enterStatement ref before = .ok answer after) :
    before.program.Resolves ref after.program := by
  simp only [variableTypes, bind_eq_ok_iff, Walk.ask_eq_ok_iff] at ran
  rcases ran with ⟨statement, before, ⟨found, rfl⟩, ran⟩
  cases declares : statement.kind with
  | varDeclaration var =>
      simp only [declares, bind_eq_ok_iff, Walk.ask_eq_ok_iff, Program.symbol_eq_ok_iff,
        Canon.within_eq_ok_iff, Walk.perform_eq_ok_iff, Edit.setSymbolType,
        Edit.changeSymbol_eq_ok_iff] at ran
      rcases ran with
        ⟨symbol, before, ⟨stored, rfl⟩, canonical, _, ⟨inner, declared, rfl⟩, middle,
          ⟨symbols, changed, rfl⟩, rfl⟩
      have adopts := adopts_of_declaredType (by rfl) declared
      exact .declaration found declares stored adopts changed
  | _ =>
      simp only [declares, pure_eq_ok_iff] at ran
      rcases ran with ⟨-, rfl⟩
      exact .other found (by simp [declares])

theorem walkTypeWithin_eq_ok {depth : Nat} {type : TypeRef}
    (ran : (variableTypes .silent).walkTypeWithin depth type before = .ok answer after) :
    after = before := by
  induction depth generalizing before after type with
  | zero => simp [Traversal.walkTypeWithin, Walk.fault_eq_ok_iff] at ran
  | succ depth induction =>
      simp only [Traversal.walkTypeWithin, bind_eq_ok_iff, Walk.ask_eq_ok_iff] at ran
      rcases ran with ⟨_, middle, visited, form, _, ⟨-, rfl⟩, ran⟩
      simp only [variableTypes, pure_eq_ok_iff] at visited
      rcases visited with ⟨-, rfl⟩
      generalize form.children = parts at ran
      induction parts generalizing before with
      | nil =>
          simp only [List.forM, pure_eq_ok_iff] at ran
          exact ran.2.symm
      | cons head tail inner =>
          simp only [List.forM, bind_eq_ok_iff] at ran
          rcases ran with ⟨_, middle, first, rest⟩
          cases induction first
          exact inner rest

theorem enterStatement_of_walkStatement {ref : StatementRef}
    (ran : (variableTypes .silent).walkStatement ref before = .ok answer after) :
    (variableTypes .silent).enterStatement ref before = .ok () after := by
  simp only [Traversal.walkStatement, bind_eq_ok_iff, Walk.ask_eq_ok_iff] at ran
  rcases ran with ⟨_, middle, entered, statement, middle, ⟨-, rfl⟩, ran⟩
  suffices after = middle from this ▸ entered
  cases declared : statement.declared? with
  | some symbol =>
      simp only [declared, bind_eq_ok_iff, Walk.ask_eq_ok_iff, Traversal.walkType,
        get_eq_ok_iff] at ran
      rcases ran with ⟨symbol, _, ⟨-, rfl⟩, _, last, ⟨_, middle, ⟨rfl, rfl⟩, walked⟩, left⟩
      cases walkTypeWithin_eq_ok walked
      simp only [variableTypes, pure_eq_ok_iff] at left
      exact left.2.symm
  | none =>
      simp only [declared, variableTypes, pure_eq_ok_iff] at ran
      exact ran.2.symm

theorem resolves_of_walkStatement {ref : StatementRef}
    (ran : (variableTypes .silent).walkStatement ref before = .ok answer after) :
    before.program.Resolves ref after.program :=
  resolves_of_enterStatement (enterStatement_of_walkStatement ran)

theorem resolvesAll_of_forM {order : List StatementRef}
    (ran : order.forM (variableTypes .silent).walkStatement before = .ok answer after) :
    before.program.ResolvesAll order after.program := by
  induction order generalizing before with
  | nil =>
      simp only [List.forM, pure_eq_ok_iff] at ran
      rcases ran with ⟨-, rfl⟩
      exact .nil
  | cons head tail induction =>
      simp only [List.forM, bind_eq_ok_iff] at ran
      rcases ran with ⟨_, middle, first, rest⟩
      exact .cons (resolves_of_walkStatement first) (induction rest)

theorem resolvesAll_of_walkProgram
    (ran : (variableTypes .silent).walkProgram before = .ok answer after) :
    ∃ order, before.program.preorder = .ok order ∧
      before.program.ResolvesAll order after.program := by
  simp only [Traversal.walkProgram, bind_eq_ok_iff, Walk.ask_eq_ok_iff] at ran
  rcases ran with ⟨order, before, ⟨listed, rfl⟩, ran⟩
  exact ⟨order, listed, resolvesAll_of_forM ran⟩

end

end StructuralTypes
