import StructuralTypes.Proofs.Settlement

/-! What has a declaration is made of parts that have one. The walk over the variables
keeps it so, given that the domains of a range are canonical by the time an array over
the range is reached; the only parts left out are the companions of domains. -/

namespace StructuralTypes

namespace TypeForm

/-- What a form refers to apart from the companion of a domain. -/
def parts : TypeForm → List TypeRef
  | .domain _ parent _ => parent.toList
  | form => form.children

end TypeForm

namespace Program

def Named (program : Program) (type : TypeRef) : Prop :=
  ∃ form ref, program.types.get? type = some { form, symbol := some ref }

/-- `ref` is built in, or declared by a statement that stands in a body that can be
reached. -/
def Declared (program : Program) (ref : SymbolRef) : Prop :=
  ∃ symbol, program.symbols.get? ref = some symbol ∧
    ((symbol.definition = .absent ∧ program.IntrinsicScope symbol.scope) ∨
      ∃ declaration, symbol.definition = .statement declaration ∧ program.Linked declaration)

/-- `part` is `type` or a part of it, at any depth. -/
inductive Reaches (program : Program) : TypeRef → TypeRef → Prop
  | self {type : TypeRef} : Reaches program type type
  | child {type child part : TypeRef} {form : TypeForm} {symbol : Option SymbolRef}
      (stored : program.types.get? type = some { form, symbol })
      (member : child ∈ form.children) (rest : Reaches program child part) :
      Reaches program type part

def DeclaredBy (program : Program) (ref : StatementRef) (var : SymbolRef) : Prop :=
  ∃ placed, program.layout.statements.get? ref = some placed ∧
    placed.statement.kind = .varDeclaration var

/-- In reading order, the variables that the arrays of a variable range over are declared
before the variable. -/
def RangesPrecede (program : Program) : Prop :=
  ∀ order, program.preorder = .ok order → ∀ front ref back, order = front ++ ref :: back →
    ∀ var symbol, program.DeclaredBy ref var → program.symbols.get? var = some symbol →
    ∀ type element range recorded holder, program.Reaches symbol.type type →
    program.types.get? type =
      some { form := .array element range recorded, symbol := holder } →
    ∀ singles, program.expressions.get? range = some (.iteration singles) →
    ∀ single ∈ singles, ∀ used, program.expressions.get? single = some (.reference used) →
    ∃ earlier ∈ front, program.DeclaredBy earlier used

structure Closed (program : Program) : Prop where
  distinct : program.names.Distinct
  tails : program.layout.TailsLinked
  statements : ∀ ref placed, program.layout.statements.get? ref = some placed →
    program.Linked ref
  declared : ∀ type form ref, program.types.get? type = some { form, symbol := some ref } →
    program.Declared ref
  parts : ∀ type form ref, program.types.get? type = some { form, symbol := some ref } →
    ∀ part ∈ form.parts, program.Named part
  bindings : ∀ scope name ref, program.Binds scope name ref →
    ∃ text, program.names.get? name = some text
  reserved : ∀ scope name ref text, program.Binds scope name ref →
    program.names.get? name = some text → Reserved text →
    ∃ symbol, program.symbols.get? ref = some symbol ∧ program.Named symbol.type

theorem closed_of_laidOut {program : Program} (laid : LaidOut program)
    (scalars : ∀ type form ref,
      program.types.get? type = some { form, symbol := some ref } → form.Scalar)
    (unreserved : program.Unreserved) : Closed program where
  distinct := laid.distinct
  tails := laid.tails
  statements ref placed stored := (laid.statements ref placed stored).1
  declared type form ref stored := by
    rcases laid.declared type form ref stored with ⟨symbol, symbolStored, -, kind⟩
    refine ⟨symbol, symbolStored, ?_⟩
    rcases laid.standing ref symbol symbolStored kind with
      builtIn | ⟨declaration, defined, linked, -⟩
    · exact .inl builtIn
    · exact .inr ⟨declaration, defined, linked⟩
  parts type form ref stored part member := by
    have scalar := scalars type form ref stored
    cases form <;>
      simp [TypeForm.Scalar, TypeForm.shape, TypeForm.parts, TypeForm.children]
        at scalar member
  bindings scope name ref binds := (laid.bindings scope name ref binds).1
  reserved scope name ref text binds named reserved :=
    absurd reserved (unreserved text (mem_boundNames binds named))

variable {before after : Program}

/-! ## Settling -/

def anchor? : Position → Option StatementRef
  | .shared => none
  | .after anchor | .before anchor => some anchor

theorem linked_of_position {roots : List BodyRef} {position : Position} {new : StatementRef}
    {layout linked : Layout} (shared : sharedBody ∈ roots) (tails : layout.TailsLinked)
    (anchored : ∀ anchor ∈ anchor? position,
      ∃ body, layout.LinkedIn anchor body ∧ layout.Reachable roots body)
    (placed : position.link new layout = .ok linked) :
    (∃ body, linked.LinkedIn new body ∧ linked.Reachable roots body) ∧ linked.TailsLinked := by
  have reached : ∀ {body}, layout.Reachable roots body → linked.Reachable roots body :=
    (grows_position placed).reachable (fun _ member => member)
  cases position with
  | shared =>
      rcases Layout.linkedIn_placeSynthesized tails placed with ⟨inside, tailsAfter⟩
      exact ⟨⟨sharedBody, inside, .root shared⟩, tailsAfter⟩
  | after anchor =>
      rcases anchored anchor rfl with ⟨body, inside, reachable⟩
      exact ⟨⟨body, Layout.linkedIn_insertAfter inside placed, reached reachable⟩,
        Layout.tailsLinked_insertAfter tails placed⟩
  | before anchor =>
      rcases anchored anchor rfl with ⟨body, inside, reachable⟩
      exact ⟨⟨body, Layout.linkedIn_insertBefore inside placed, reached reachable⟩,
        Layout.tailsLinked_insertBefore tails placed⟩

theorem exists_statement_of_position {position : Position} {new : StatementRef}
    {layout linked : Layout} (placed : position.link new layout = .ok linked)
    {ref : StatementRef} {later : Placed} (stored : linked.statements.get? ref = some later) :
    ∃ old, layout.statements.get? ref = some old := by
  cases position with
  | shared => exact Layout.exists_statement_of_placeSynthesized placed stored
  | after | before => exact Layout.exists_statement_of_anchored placed stored

/-- `after` has what `before` has, but for the types of variables and the forms of
types. -/
structure Advances (before after : Program) : Prop where
  expressions : after.expressions = before.expressions
  modules : after.modules = before.modules
  layout : before.layout.Grows after.layout
  named : ∀ type, before.Named type → after.Named type
  symbols : ∀ ref symbol, before.symbols.get? ref = some symbol →
    ∃ type, after.symbols.get? ref = some { symbol with type }
  scopes : ∀ scope content, before.scopes.get? scope = some content →
    ∃ later, after.scopes.get? scope = some later ∧ later.intrinsic = content.intrinsic

namespace Advances

theorem refl (program : Program) : Advances program program where
  expressions := rfl
  modules := rfl
  layout := .refl _
  named _ named := named
  symbols _ symbol stored := ⟨symbol.type, stored⟩
  scopes _ content stored := ⟨content, stored, rfl⟩

theorem trans {middle : Program} (first : Advances before middle)
    (second : Advances middle after) : Advances before after where
  expressions := second.expressions.trans first.expressions
  modules := second.modules.trans first.modules
  layout := first.layout.trans second.layout
  named type named := second.named type (first.named type named)
  symbols ref symbol stored := by
    rcases first.symbols ref symbol stored with ⟨_, found⟩
    rcases second.symbols ref _ found with ⟨type, again⟩
    exact ⟨type, again⟩
  scopes scope content stored := by
    rcases first.scopes scope content stored with ⟨between, found, same⟩
    rcases second.scopes scope between found with ⟨later, laterFound, sameLater⟩
    exact ⟨later, laterFound, sameLater.trans same⟩

theorem linked (advances : Advances before after) {ref : StatementRef}
    (linked : before.Linked ref) : after.Linked ref :=
  linked.of_grows advances.layout (by simp only [roots, advances.modules]; exact fun _ => id)

theorem declared (advances : Advances before after) {ref : SymbolRef}
    (declared : before.Declared ref) : after.Declared ref := by
  rcases declared with ⟨symbol, stored, standing⟩
  rcases advances.symbols ref symbol stored with ⟨type, found⟩
  refine ⟨_, found, ?_⟩
  rcases standing with ⟨isAbsent, content, scopeStored, builtIn⟩ | ⟨declaration, defined, linked⟩
  · rcases advances.scopes _ content scopeStored with ⟨later, laterStored, same⟩
    exact .inl ⟨isAbsent, later, laterStored, same.trans builtIn⟩
  · exact .inr ⟨declaration, defined, advances.linked linked⟩

end Advances

theorem Introduces.advances {scope : ScopeRef} {text : String} {fresh : TypeRef}
    {form : TypeForm} {symbol : Option SymbolRef} {finish : TypeForm → TypeForm}
    {position : Position} (stored : before.types.get? fresh = some { form, symbol })
    (introduces : before.Introduces scope text fresh finish position after) :
    Advances before after where
  expressions := introduces.expressions
  modules := introduces.modules
  layout := introduces.grows
  named := by
    intro type holds
    rcases holds with ⟨other, ref, found⟩
    by_cases isFresh : type = fresh
    · exact isFresh ▸ ⟨_, _, introduces.type_same stored⟩
    · exact ⟨other, ref, (introduces.type_other isFresh).trans found⟩
  symbols _ symbol found := ⟨symbol.type, introduces.old_symbol found⟩
  scopes _ _ found := introduces.scope_kept found

theorem Introduces.linked (tails : before.layout.TailsLinked) {scope : ScopeRef}
    {text : String} {fresh : TypeRef} {finish : TypeForm → TypeForm} {position : Position}
    (anchored : ∀ anchor ∈ anchor? position, before.Linked anchor)
    (introduces : before.Introduces scope text fresh finish position after) :
    after.Linked before.layout.statements.next ∧ after.layout.TailsLinked := by
  have added : before.layout.Grows
      (before.layout.addStatement (.synthesizedType before.symbols.next)).2 :=
    Layout.grows_addStatement _ _
  obtain ⟨⟨body, inside, reached⟩, tailsAfter⟩ :
      (∃ body, after.layout.LinkedIn before.layout.statements.next body ∧
        after.layout.Reachable before.roots body) ∧ after.layout.TailsLinked := by
    refine linked_of_position List.mem_cons_self (Layout.tailsLinked_addStatement tails _)
      ?_ introduces.layout
    intro anchor isAnchor
    rcases anchored anchor isAnchor with ⟨body, inside, reached⟩
    exact ⟨body, added.linkedIn inside, added.reachable (fun _ => id) reached⟩
  refine ⟨⟨body, inside, ?_⟩, tailsAfter⟩
  simpa only [roots, introduces.modules] using reached

theorem Introduces.closed (closed : Closed before) {scope : ScopeRef} {text : String}
    {fresh : TypeRef} {form : TypeForm} {symbol : Option SymbolRef}
    {finish : TypeForm → TypeForm} {position : Position}
    (stored : before.types.get? fresh = some { form, symbol })
    (parts : ∀ part ∈ (finish form).parts, before.Named part)
    (anchored : ∀ anchor ∈ anchor? position, before.Linked anchor)
    (introduces : before.Introduces scope text fresh finish position after) : Closed after := by
  have advances := introduces.advances stored
  rcases introduces.linked closed.tails anchored with ⟨newLinked, tails⟩
  refine
    { distinct := introduces.names ▸ NameTable.distinct_intern closed.distinct text
      tails := tails
      statements := ?_
      declared := ?_
      parts := ?_
      bindings := ?_
      reserved := ?_ }
  · intro ref placed found
    rcases exists_statement_of_position introduces.layout found with ⟨old, oldFound⟩
    rcases Arena.eq_next_or_get?_of_push oldFound with ⟨rfl, -⟩ | older
    · exact newLinked
    · exact advances.linked (closed.statements ref old older)
  · intro type later ref found
    rcases introduces.type_cases stored found with ⟨-, -, isNext⟩ | old
    · cases isNext
      exact ⟨_, introduces.new_symbol, .inr ⟨_, rfl, newLinked⟩⟩
    · exact advances.declared (closed.declared type later ref old)
  · intro type later ref found part member
    rcases introduces.type_cases stored found with ⟨-, rfl, -⟩ | old
    · exact advances.named part (parts part member)
    · exact advances.named part (closed.parts type later ref old part member)
  · intro other name ref binds
    rcases introduces.binds_cases binds with ⟨-, rfl, -⟩ | old
    · exact ⟨text, introduces.new_name⟩
    · rcases closed.bindings other name ref old with ⟨older, named⟩
      exact ⟨older, introduces.old_name named⟩
  · intro other name ref inner binds named reserved
    rcases introduces.binds_cases binds with ⟨-, -, rfl⟩ | old
    · exact ⟨_, introduces.new_symbol, ⟨_, _, introduces.type_same stored⟩⟩
    · rcases closed.bindings other name ref old with ⟨older, oldNamed⟩
      cases Option.mem_unique named (introduces.old_name oldNamed)
      rcases closed.reserved other name ref inner old oldNamed reserved with
        ⟨found, symbolStored, isNamed⟩
      exact ⟨found, introduces.old_symbol symbolStored, advances.named _ isNamed⟩

theorem Settles.advances {scope : ScopeRef} {text : String} {fresh canonical : TypeRef}
    {form : TypeForm} {symbol : Option SymbolRef} {finish : TypeForm → TypeForm}
    {placement : Placement} (stored : before.types.get? fresh = some { form, symbol })
    (settles : before.Settles scope text fresh finish placement canonical after) :
    Advances before after := by
  cases settles with
  | reused => exact ⟨rfl, rfl, .refl _, fun _ named => named,
      fun _ symbol stored => ⟨symbol.type, stored⟩, fun _ inner stored => ⟨inner, stored, rfl⟩⟩
  | created _ _ _ introduces => exact introduces.advances stored

theorem Closed.text_of_binds (closed : Closed before) {scope : ScopeRef} {text : String}
    {ref : SymbolRef} (bound : before.Binds scope (before.names.intern text).1 ref) :
    before.names.get? (before.names.intern text).1 = some text := by
  rcases closed.bindings _ _ _ bound with ⟨older, named⟩
  have same := NameTable.get?_intern_of_get? text named
  rw [NameTable.get?_intern] at same
  rw [named, Option.some.inj same]

theorem Closed.intern (closed : Closed before) (text : String) :
    Closed { before with names := (before.names.intern text).2 } where
  distinct := NameTable.distinct_intern closed.distinct text
  tails := closed.tails
  statements := closed.statements
  declared := closed.declared
  parts := closed.parts
  bindings scope name ref binds := by
    rcases closed.bindings scope name ref binds with ⟨older, named⟩
    exact ⟨older, NameTable.get?_intern_of_get? text named⟩
  reserved scope name ref inner binds named isReserved := by
    rcases closed.bindings scope name ref binds with ⟨older, oldNamed⟩
    cases Option.mem_unique named (NameTable.get?_intern_of_get? text oldNamed)
    exact closed.reserved scope name ref inner binds oldNamed isReserved

theorem Located.linked (closed : Closed before) {placement : Placement} {position : Position}
    (anchored : ∀ statement, placement = .before statement → before.Linked statement)
    (located : before.Located placement position) :
    ∀ anchor ∈ anchor? position, before.Linked anchor := by
  intro anchor isAnchor
  cases located with
  | shared => simp [anchor?] at isAnchor
  | before =>
      cases Option.some.inj isAnchor
      exact anchored _ rfl
  | afterElement linked =>
      cases Option.some.inj isAnchor
      simp only [linkedDeclaration?, Except.bind_eq_ok_iff, symbol_eq_ok_iff] at linked
      rcases linked with ⟨element, -, linked⟩
      split at linked
      · simp [Except.pure_eq_ok_iff] at linked
      · simp only [Except.bind_eq_ok_iff, Except.pure_eq_ok_iff,
          Option.map_eq_some_iff, Layout.bodyOf_eq_ok_iff] at linked
        rcases linked with ⟨holder, ⟨statement, found⟩, _, _, rfl⟩
        exact closed.statements _ _ found

theorem Settles.closed (closed : Closed before) {scope : ScopeRef} {text : String}
    {fresh canonical : TypeRef} {form : TypeForm} {symbol : Option SymbolRef}
    {finish : TypeForm → TypeForm} {placement : Placement}
    (stored : before.types.get? fresh = some { form, symbol })
    (parts : ∀ part ∈ (finish form).parts, before.Named part) (reserved : Reserved text)
    (anchored : ∀ statement, placement = .before statement → before.Linked statement)
    (settles : before.Settles scope text fresh finish placement canonical after) :
    Closed after ∧ Advances before after ∧ after.Named canonical := by
  have advances := settles.advances stored
  cases settles with
  | reused bound symbolStored =>
      rcases closed.reserved _ _ _ _ bound (closed.text_of_binds bound) reserved with
        ⟨again, againStored, isNamed⟩
      cases Option.mem_unique symbolStored againStored
      exact ⟨closed.intern text, advances, isNamed⟩
  | created _ _ located introduces =>
      exact ⟨introduces.closed closed stored parts (located.linked closed anchored), advances,
        ⟨_, _, introduces.type_same stored⟩⟩

theorem advances_of_changeForm {type : TypeRef} {change : TypeForm → TypeForm}
    {types : Arena .type TypeNode}
    (modified : before.types.modify type (fun node => { node with form := change node.form }) =
      .ok types) : Advances before { before with types } := by
  refine ⟨rfl, rfl, .refl _, ?_, fun _ symbol found => ⟨symbol.type, found⟩,
    fun _ content found => ⟨content, found, rfl⟩⟩
  intro other holds
  rcases holds with ⟨otherForm, ref, found⟩
  refine ⟨if other = type then change otherForm else otherForm, ref, ?_⟩
  dsimp only
  split
  · rename_i isType
    subst isType
    rw [Arena.get?_of_modify_same modified, found]
    rfl
  · rename_i isOther
    rw [Arena.get?_of_modify_of_ne modified (Ne.symm isOther), found]

theorem Closed.changeForm (closed : Closed before) {type : TypeRef} {form : TypeForm}
    {symbol : Option SymbolRef} (stored : before.types.get? type = some { form, symbol })
    {change : TypeForm → TypeForm}
    (parts : symbol ≠ none → ∀ part ∈ (change form).parts, before.Named part)
    {types : Arena .type TypeNode}
    (modified : before.types.modify type (fun node => { node with form := change node.form }) =
      .ok types) : Closed { before with types } := by
  have advances := advances_of_changeForm modified
  -- Whatever has a declaration now had it before, and only `type` had another form.
  have origin : ∀ other otherForm ref,
      types.get? other = some { form := otherForm, symbol := some ref } →
      ∃ old, before.types.get? other = some { form := old, symbol := some ref } ∧
        ∀ part ∈ otherForm.parts, before.Named part := by
    intro other otherForm ref found
    by_cases isType : type = other
    · subst isType
      rw [Arena.get?_of_modify_same modified, stored] at found
      simp only [Option.map_some, Option.some.injEq, TypeNode.mk.injEq] at found
      rcases found with ⟨rfl, rfl⟩
      exact ⟨form, stored, parts (by simp)⟩
    · rw [Arena.get?_of_modify_of_ne modified isType] at found
      exact ⟨otherForm, found, closed.parts other otherForm ref found⟩
  refine
    { distinct := closed.distinct
      tails := closed.tails
      statements := closed.statements
      declared := ?_
      parts := ?_
      bindings := closed.bindings
      reserved := ?_ }
  · intro other otherForm ref found
    rcases origin other otherForm ref found with ⟨old, oldStored, -⟩
    exact closed.declared other old ref oldStored
  · intro other otherForm ref found part member
    rcases origin other otherForm ref found with ⟨old, -, named⟩
    exact advances.named part (named part member)
  · intro scope name ref text binds isText reserved
    rcases closed.reserved scope name ref text binds isText reserved with ⟨symbol, found, isNamed⟩
    exact ⟨symbol, found, advances.named _ isNamed⟩

/-! ## Canonicalizing -/

section

variable {source : Program}

def RangesNamed (source current : Program) (type : TypeRef) : Prop :=
  ∀ part ∈ source.chain type, ∀ element range recorded,
    source.types.get? part = some { form := .array element range recorded, symbol := none } →
    ∀ domain, current.rangeDomain? range = some domain → current.Named domain

theorem RangesNamed.element (laid : LaidOut source) {type element : TypeRef} {form : TypeForm}
    (ranges : source.RangesNamed before type)
    (stored : source.types.get? type = some { form, symbol := none })
    (found : form.element? = some element) : source.RangesNamed before element :=
  fun part member => ranges part (mem_chain_of_element laid stored found member)

theorem Tracks.rangeDomain?_of_symbols (laid : LaidOut source) (tracks : Tracks source before)
    (expressions : after.expressions = before.expressions)
    (kept : ∀ ref symbol, before.symbols.get? ref = some symbol →
      after.symbols.get? ref = some symbol) {range : ExpressionRef} {domain : TypeRef}
    (ranges : after.rangeDomain? range = some domain) :
    before.rangeDomain? range = some domain := by
  rcases rangeDomain?_eq_some_iff.mp ranges with
    ⟨single, ref, symbol, iterates, refers, stored, rfl⟩
  rw [expressions] at iterates refers
  rcases laid.references single ref (by rw [← tracks.expressions, refers]) with ⟨old, oldStored⟩
  rcases tracks.symbols ref old oldStored with ⟨type, between, -⟩
  have same := kept ref _ between
  cases Option.mem_unique stored same
  exact rangeDomain?_eq_some_iff.mpr ⟨single, ref, _, iterates, refers, between, rfl⟩

theorem Tracks.element_cases (tracks : Tracks source before) {type element : TypeRef}
    {form : TypeForm} (stored : before.types.get? type = some { form, symbol := none })
    (found : form.element? = some element) :
    before.Named element ∨ ∃ original,
      source.types.get? type = some { form := original, symbol := none } ∧
      original.element? = some element := by
  rcases tracks.anonymous_source stored with ⟨original, anonymous, varies⟩
  rcases varies.element? found with ⟨first, firstFound, rfl | ⟨⟨-, rfl⟩ | interns, -⟩⟩
  · exact .inr ⟨original, anonymous, firstFound⟩
  · exact .inr ⟨original, anonymous, firstFound⟩
  · exact .inl (tracks.named_of_interns interns)

theorem Home.placement_ne_before (home : Home) {statement : StatementRef} :
    home.placement ≠ .before statement := by
  cases home <;> simp [Home.placement]

theorem Closed.settleElement (laid : LaidOut source) (unreserved : source.Unreserved)
    (tracks : Tracks source before) (closed : Closed before) {scope : ScopeRef}
    {type element inner : TypeRef} {form : TypeForm} {middle : Program}
    {types : Arena .type TypeNode} (used : source.UsedIn scope type)
    (ranges : source.RangesNamed before type)
    (stored : before.types.get? type = some { form, symbol := none })
    (found : form.element? = some element)
    (nested : before.Canonicalizes scope element inner middle)
    (closing : source.UsedIn scope element → source.RangesNamed before element →
      Closed middle ∧ Advances before middle ∧ middle.Named inner)
    (rewritten : middle.types.modify type
      (fun node => { node with form := node.form.withElement inner }) = .ok types) :
    Closed { middle with types } ∧ Advances before { middle with types } ∧
      { middle with types }.Named inner ∧
      ∃ later : TypeForm, later.shape = form.shape ∧
        types.get? type = some { form := later.withElement inner, symbol := none } := by
  rcases tracks.settleElement laid used stored found nested
    (nested.carries laid unreserved tracks) rewritten with ⟨original, first, later, settled⟩
  obtain ⟨closedMiddle, advances, named⟩ :
      Closed middle ∧ Advances before middle ∧ middle.Named inner := by
    rcases tracks.element_cases stored found with ⟨_, _, named⟩ | ⟨other, again, otherFound⟩
    · rcases nested.eq_of_named named with ⟨rfl, rfl⟩
      exact ⟨closed, .refl _, ⟨_, _, named⟩⟩
    · exact closing (used.element laid again otherFound) (ranges.element laid again otherFound)
  rcases Arena.get?_eq_some_of_modify rewritten settled.stored with ⟨node, laterStored, modified⟩
  rw [if_pos rfl] at modified
  rcases node with ⟨laterForm, holder⟩
  simp only [TypeNode.mk.injEq] at modified
  rcases modified with ⟨-, rfl⟩
  have closedPlaced :=
    closedMiddle.changeForm laterStored (fun declared => absurd rfl declared) rewritten
  have placing := advances_of_changeForm rewritten
  exact ⟨closedPlaced, advances.trans placing, placing.named _ named, later,
    settled.laterVaries.shape_eq.trans settled.varies.shape_eq.symm, settled.stored⟩

theorem RangesNamed.domain (laid : LaidOut source) (tracks : Tracks source before)
    {type element domain : TypeRef} {range : ExpressionRef} {recorded : Option TypeRef}
    (ranges : source.RangesNamed before type) (advances : Advances before after)
    (stored : before.types.get? type =
      some { form := .array element range recorded, symbol := none })
    (kept : ∀ ref symbol, before.symbols.get? ref = some symbol →
      after.symbols.get? ref = some symbol)
    (ranging : after.rangeDomain? range = some domain) : after.Named domain := by
  rcases tracks.anonymous_source stored with ⟨original, anonymous, varies⟩
  have ranging := tracks.rangeDomain?_of_symbols laid advances.expressions kept ranging
  apply advances.named domain
  cases varies <;> exact ranges type (mem_chain_self type) _ _ _ anonymous domain ranging

theorem named_of_withElement {form : TypeForm} {inner : TypeRef} (shape : form.shape = .sequence)
    (named : before.Named inner) : ∀ part ∈ (form.withElement inner).parts, before.Named part := by
  cases form <;> simp only [TypeForm.shape, reduceCtorEq] at shape
  intro part member
  cases List.mem_singleton.mp member
  exact named

theorem named_of_withDomain {form : TypeForm} {inner domain : TypeRef}
    (shape : form.shape = .array) (innerNamed : before.Named inner)
    (domainNamed : before.Named domain) :
    ∀ part ∈ ((form.withElement inner).withDomain domain).parts, before.Named part := by
  cases form <;> simp only [TypeForm.shape, reduceCtorEq] at shape
  intro part member
  simp only [TypeForm.withElement, TypeForm.withDomain, TypeForm.parts,
    TypeForm.children, Option.toList, List.mem_cons, List.not_mem_nil, or_false] at member
  rcases member with rfl | rfl
  · exact innerNamed
  · exact domainNamed

/-- Canonicalizing a type keeps programs closed and ends in a type with a declaration. -/
theorem Canonicalizes.closed (laid : LaidOut source) (unreserved : source.Unreserved)
    (scalars : source.ScalarsNamed) {scope : ScopeRef} {type canonical : TypeRef}
    (canonicalizes : before.Canonicalizes scope type canonical after)
    (tracks : Tracks source before) (used : source.UsedIn scope type)
    (closed : Closed before) (ranges : source.RangesNamed before type) :
    Closed after ∧ Advances before after ∧ after.Named canonical := by
  induction canonicalizes with
  | kept stored => exact ⟨closed, .refl _, ⟨_, _, stored⟩⟩
  | scalar stored scalar =>
      rcases tracks.anonymous_source stored with ⟨original, anonymous, varies⟩
      refine absurd ?_ (scalars _ _ anonymous)
      unfold TypeForm.Scalar at scalar ⊢
      rwa [← varies.shape_eq]
  | index stored _ settles =>
      exact settles.closed closed stored (by simp [TypeForm.parts, TypeForm.children])
        (CanonicalKey.reserved_name _) (by simp)
  | @domain after type canonical rank companion types stored ranked settles =>
      have storedRanked : types.get? type =
          some { form := .domain (effectiveRank rank) none companion, symbol := none } := by
        rw [Arena.get?_of_modify_same ranked, stored]
        rfl
      have closedRanked := closed.changeForm stored (fun named => absurd rfl named) ranked
      rcases settles.closed closedRanked storedRanked (by simp [TypeForm.parts])
          (CanonicalKey.reserved_name _) (by simp) with ⟨closedAfter, advances, canonicalNamed⟩
      exact ⟨closedAfter, (advances_of_changeForm ranked).trans advances, canonicalNamed⟩
  | @tuple after type canonical components text stored named settles =>
      have parts : ∀ part ∈ components, before.Named part := by
        intro part member
        rcases typeName?_eq_some_iff.mp (named part member) with ⟨form, ref, _, found, -⟩
        exact ⟨form, ref, found⟩
      exact settles.closed closed stored (by exact parts) (CanonicalKey.reserved_name _) (by simp)
  | sequence stored nested rewritten _ _ _ settles induction =>
      rcases closed.settleElement laid unreserved tracks used ranges stored rfl nested
          induction rewritten with ⟨closedPlaced, placing, innerNamed, later, shape, storedPlaced⟩
      have parts := named_of_withElement shape innerNamed
      rcases settles.closed closedPlaced storedPlaced parts (CanonicalKey.reserved_name _)
          (fun _ same => absurd same (Home.placement_ne_before _)) with
        ⟨closedAfter, advances, canonicalNamed⟩
      exact ⟨closedAfter, placing.trans advances, canonicalNamed⟩
  | array stored nested rewritten _ _ _ ranging _ settles induction =>
      rcases closed.settleElement laid unreserved tracks used ranges stored rfl nested
          induction rewritten with ⟨closedPlaced, placing, innerNamed, later, shape, storedPlaced⟩
      have domainNamed := ranges.domain laid tracks placing stored
        (fun _ _ found => nested.symbols found) ranging
      have parts := named_of_withDomain shape innerNamed domainNamed
      rcases settles.closed closedPlaced storedPlaced parts (CanonicalKey.reserved_name _)
          (fun _ same => absurd same (Home.placement_ne_before _)) with
        ⟨closedAfter, advances, canonicalNamed⟩
      exact ⟨closedAfter, placing.trans advances, canonicalNamed⟩

/-! ## Variables -/

theorem Represents.named (scalars : source.ScalarsNamed) (tracks : Tracks source before)
    {type canonical : TypeRef} (represents : source.Represents before type canonical) :
    before.Named canonical := by
  rcases represents with ⟨fixed, rfl⟩ | interns
  · rcases fixed.declared scalars with ⟨form, ref, stored⟩
    rcases tracks.declaration_kept stored with ⟨later, found⟩
    exact ⟨later, ref, found⟩
  · exact tracks.named_of_interns interns

theorem Adopts.closed (laid : LaidOut source) (unreserved : source.Unreserved)
    (scalars : source.ScalarsNamed) (tracks : Tracks source before) {scope : ScopeRef}
    {declared type canonical : TypeRef}
    (stands : type = declared ∨ source.Represents before declared type)
    (used : source.UsedIn scope declared) (closed : Closed before)
    (ranges : source.RangesNamed before declared)
    (adopts : before.Adopts scope type canonical after) :
    Closed after ∧ Advances before after ∧ after.Named canonical := by
  cases adopts.eq_declared tracks stands
  cases adopts with
  | scalar stored scalar =>
      have carries := tracks.carries_kept stored (.inr scalar)
      exact ⟨closed, .refl _, carries.represents.named scalars tracks⟩
  | settled _ canonicalizes =>
      exact canonicalizes.closed laid unreserved scalars tracks used closed ranges
  | twice _ canonicalizes anonymous again =>
      rcases canonicalizes.closed laid unreserved scalars tracks used closed ranges with
        ⟨-, -, _, _, named⟩
      rw [anonymous] at named
      simp at named

theorem Closed.setType (closed : Closed before) {var : SymbolRef} {canonical : TypeRef}
    (named : before.Named canonical) {symbols : Arena .symbol Symbol}
    (modified : before.symbols.modify var (fun symbol => { symbol with type := canonical }) =
      .ok symbols) :
    Closed { before with symbols } ∧ Advances before { before with symbols } := by
  have kept : ∀ ref symbol, before.symbols.get? ref = some symbol →
      ∃ type, symbols.get? ref = some { symbol with type } ∧
        (type = symbol.type ∨ type = canonical) := by
    intro ref symbol stored
    by_cases isVar : var = ref
    · subst isVar
      refine ⟨canonical, ?_, .inr rfl⟩
      rw [Arena.get?_of_modify_same modified, stored]
      rfl
    · exact ⟨symbol.type, (Arena.get?_of_modify_of_ne modified isVar).trans stored, .inl rfl⟩
  have advances : Advances before { before with symbols } := by
    refine ⟨rfl, rfl, .refl _, fun _ isNamed => isNamed, ?_, fun _ content stored =>
      ⟨content, stored, rfl⟩⟩
    intro ref symbol stored
    rcases kept ref symbol stored with ⟨type, found, -⟩
    exact ⟨type, found⟩
  refine ⟨?_, advances⟩
  refine
    { distinct := closed.distinct
      tails := closed.tails
      statements := closed.statements
      declared := fun type form ref stored =>
        advances.declared (closed.declared type form ref stored)
      parts := closed.parts
      bindings := closed.bindings
      reserved := ?_ }
  intro scope name ref text binds isText reserved
  rcases closed.reserved scope name ref text binds isText reserved with ⟨symbol, stored, isNamed⟩
  rcases kept ref symbol stored with ⟨type, found, same | same⟩
  · exact ⟨_, found, same ▸ isNamed⟩
  · exact ⟨_, found, same ▸ named⟩

theorem Resolves.closed (laid : LaidOut source) (unreserved : source.Unreserved)
    (scalars : source.ScalarsNamed) (tracks : Tracks source before) {ref : StatementRef}
    {placed : Placed} (stored : source.layout.statements.get? ref = some placed)
    (closed : Closed before)
    (ranges : ∀ var symbol, placed.statement.kind = .varDeclaration var →
      source.symbols.get? var = some symbol → source.RangesNamed before symbol.type)
    (resolves : before.Resolves ref after) : Closed after := by
  cases resolves with
  | @declaration statement var symbol canonical middle symbols found declares symbolStored adopts
      changed =>
      cases tracks.statement_source stored found
      rcases tracks.variable_source laid stored declares symbolStored with
        ⟨old, type, oldStored, rfl, stands, used⟩
      rcases adopts.closed laid unreserved scalars tracks stands used closed
          (ranges var old declares oldStored) with ⟨closedMiddle, -, named⟩
      exact (closedMiddle.setType named changed).1
  | other => exact closed

theorem reaches_of_mem_chain {type part : TypeRef} (member : part ∈ source.chain type) :
    source.Reaches type part := by
  induction bound : type.index using Nat.strongRecOn generalizing type with
  | ind index induction =>
      rw [chain] at member
      rcases List.mem_cons.mp member with rfl | later
      · exact .self
      · split at later
        · rename_i form stored
          split at later
          · rename_i element found
            split at later
            · rename_i below
              refine .child stored ?_ (induction element.index (bound ▸ below) later rfl)
              cases form <;> simp_all [TypeForm.element?, TypeForm.children]
            · simp at later
          · simp at later
        · simp at later

/-- The walk over the variables keeps programs closed if the domains of ranges become
canonical before the arrays over them. -/
theorem ResolvesAll.closed (laid : LaidOut source) (unreserved : source.Unreserved)
    (scalars : source.ScalarsNamed) (precede : source.RangesPrecede)
    {order front rest : List StatementRef} (listed : source.preorder = .ok order)
    (split : order = front ++ rest) (resolves : before.ResolvesAll rest after)
    (resolved : ∀ ref ∈ front, ∀ var, source.DeclaredBy ref var → source.Resolved before var)
    (tracks : Tracks source before) (closed : Closed before) : Closed after := by
  induction resolves generalizing front with
  | nil => exact closed
  | @cons before middle after ref rest first later induction =>
      rcases Layout.reachable_of_mem_preorder listed (show ref ∈ order by simp [split]) with
        ⟨⟨placed, stored⟩, -⟩
      have ranges : ∀ var symbol, placed.statement.kind = .varDeclaration var →
          source.symbols.get? var = some symbol → source.RangesNamed before symbol.type := by
        intro var symbol declares symbolStored part member element range recorded partStored
          domain ranging
        rcases rangeDomain?_eq_some_iff.mp ranging with
          ⟨single, used, content, iterates, refers, contentStored, rfl⟩
        rw [tracks.expressions] at iterates refers
        rcases precede order listed front ref rest split var
            symbol ⟨placed, stored, declares⟩ symbolStored part element range recorded none
            (reaches_of_mem_chain member) partStored [single] iterates single
            List.mem_cons_self used refers with ⟨earlier, inFront, declared⟩
        rcases resolved earlier inFront used declared with ⟨old, type, -, current, represents, -⟩
        cases Option.mem_unique contentStored current
        exact represents.named scalars tracks
      have closedMiddle := first.closed laid unreserved scalars tracks stored closed ranges
      rcases first.tracks laid unreserved tracks stored with ⟨tracksMiddle, kept, declared⟩
      refine induction (by rw [split, List.append_cons]) ?_ tracksMiddle closedMiddle
      intro other member var declaredBy
      rcases List.mem_append.mp member with inFront | isRef
      · exact kept var (resolved other inFront var declaredBy)
      · cases List.mem_singleton.mp isRef
        rcases declaredBy with ⟨again, againStored, declares⟩
        cases Option.mem_unique stored againStored
        exact declared var declares

theorem closed_of_walkProgram (laid : LaidOut source) (unreserved : source.Unreserved)
    (scalars : ∀ type node, source.types.get? type = some node →
      (node.symbol ≠ none ↔ node.form.Scalar)) (precede : source.RangesPrecede)
    {own : Progress Unit} {final : Walker (Progress Unit)}
    (ran : (variableTypes .silent).walkProgram ⟨source, own⟩ = .ok () final) :
    Closed final.program ∧ ∀ var ∈ source.declaredVariables, ∃ type,
      final.program.typeOf? var = some type ∧ final.program.Named type := by
  have scalarsNamed : source.ScalarsNamed := fun type form stored scalar =>
    (scalars type _ stored).mpr scalar rfl
  rcases resolvesAll_of_walkProgram ran with ⟨order, listed, resolves⟩
  rcases resolved_of_walkProgram laid unreserved ran with ⟨tracks, resolved⟩
  have start := closed_of_laidOut laid
    (fun type form ref stored => (scalars type _ stored).mp (by simp)) unreserved
  refine ⟨resolves.closed laid unreserved scalarsNamed precede listed (List.nil_append _).symm
    (by simp) (tracks_refl laid) start, ?_⟩
  intro var member
  rcases resolved var member with ⟨old, type, -, newStored, represents, -⟩
  exact ⟨type, typeOf?_eq_some newStored, represents.named scalarsNamed tracks⟩

end

end Program

end StructuralTypes
