import StructuralTypes.Proofs.Linking
import StructuralTypes.Proofs.Safety

/-! Settling a type is all or nothing. It reuses the declaration that the scope has under the name,
or it is refused for want of an anchor, or it makes one complete declaration; apart from the
interned name, the first two leave the program alone. -/

namespace StructuralTypes

variable {τ : Type}

namespace Program

def Unanchored (program : Program) (element : SymbolRef) : Prop :=
  ∃ symbol, program.symbols.get? element = some symbol ∧
    ∀ declaration, symbol.definition = .statement declaration →
      ¬∃ body, program.layout.Lists body declaration

variable {program : Program}

theorem unanchored_of_linkedDeclaration? (orderly : program.layout.Orderly) {element : SymbolRef}
    (linked : program.linkedDeclaration? element = .ok none) : program.Unanchored element := by
  simp only [linkedDeclaration?, Except.bind_eq_ok_iff, symbol_eq_ok_iff] at linked
  rcases linked with ⟨symbol, stored, linked⟩
  refine ⟨symbol, stored, ?_⟩
  intro declaration defined listed
  rcases listed with ⟨body, lists⟩
  have held := (orderly.held declaration body).mpr lists
  simp [defined, Definition.statement?, held, bind, Except.bind, pure, Except.pure] at linked

theorem not_unanchored_of_linkedDeclaration? (orderly : program.layout.Orderly)
    {element : SymbolRef} {declaration : StatementRef}
    (linked : program.linkedDeclaration? element = .ok (some declaration)) :
    ¬program.Unanchored element := by
  intro unanchored
  rcases unanchored with ⟨symbol, stored, unlisted⟩
  rcases linkedDeclaration?_eq_some linked with ⟨again, storedAgain, defined⟩
  cases Option.mem_unique stored storedAgain
  exact unlisted declaration defined (lists_of_linkedDeclaration? orderly linked)

end Program

/-! ## What has a name is not declared again -/

namespace Canon

variable {before : Session τ} {text : String} {fresh : TypeRef} {placement : Placement}

theorem settle_of_binds {existing : SymbolRef} {symbol : Symbol}
    (binds : before.program.Binds before.scope (before.program.names.intern text).1 existing)
    (stored : before.program.symbols.get? existing = some symbol) :
    settle text fresh placement before =
      .ok (.reused symbol.type) (before.interning text).reusing := by
  have interned : (perform (Edit.intern text) : Canon τ NameRef) before =
      .ok (before.program.names.intern text).1 (before.interning text) := rfl
  have looked : (before.interning text).program.lookup before.scope
      (before.program.names.intern text).1 = .ok (some existing) :=
    Program.lookup_eq_some_iff.mpr binds
  have asked : (before.interning text).reusing.program.symbol existing = .ok symbol :=
    Program.symbol_eq_ok_iff.mpr stored
  unfold settle
  rw [bind_of_ok (get_eq_ok_iff.mpr ⟨rfl, rfl⟩), bind_of_ok interned, bind_of_ok (ask_of_ok looked)]
  have counted : (count Tally.countReused : Canon τ Unit) (before.interning text) =
      .ok () (before.interning text).reusing := rfl
  exact (bind_of_ok counted).trans (bind_of_ok (ask_of_ok asked))

end Canon

/-! ## One new declaration -/

/-- Where a placement asks a new statement to go: between two parts of the order of `body`. -/
def Placement.Asks (program : Program) (body : BodyRef) (content : Body)
    (front back : List StatementRef) : Placement → Prop
  | .shared => body = Program.sharedBody ∧ front.getLast? = content.lastSynthesized
  | .afterElement element => ∃ symbol declaration, program.symbols.get? element = some symbol ∧
      symbol.definition = .statement declaration ∧ front.getLast? = some declaration
  | .before statement => back.head? = some statement

def Placement.recalled (new : StatementRef) (content : Body) : Placement → Option StatementRef
  | .shared => some new
  | .afterElement _ | .before _ => content.lastSynthesized

/-- `after` is `before` with one declaration more. All that it consists of is there: a symbol of
that name and scope, the type that it names, a statement in the place that was asked for, a binding
in the scope, and a count. -/
structure Session.Declares (before : Session τ) (text : String) (fresh : TypeRef)
    (form : TypeForm) (placement : Placement) (after : Session τ) : Prop where
  names : after.program.names = (before.program.names.intern text).2
  expressions : after.program.expressions = before.program.expressions
  modules : after.program.modules = before.program.modules
  symbol : after.program.symbols = before.program.symbols.push
    { name := (before.program.names.intern text).1
      kind := .type
      type := fresh
      scope := before.scope
      definition := .statement before.program.layout.statements.next }
  type : after.program.types.get? fresh = some { form, symbol := some before.program.symbols.next }
  otherTypes : ∀ other, other ≠ fresh →
    after.program.types.get? other = before.program.types.get? other
  binding : before.program.scopes.modify before.scope
      (·.bind (before.program.names.intern text).1 before.program.symbols.next) =
    .ok after.program.scopes
  statement : ∃ body content front back,
    before.program.layout.bodies.get? body = some content ∧ content.order = front ++ back ∧
    placement.Asks before.program body content front back ∧
    after.program.layout.statements = before.program.layout.statements.push
      { statement := .synthesizedType before.program.symbols.next, body := some body } ∧
    after.program.layout.bodies.get? body = some
      { content with
        order := front ++ before.program.layout.statements.next :: back
        lastSynthesized := placement.recalled before.program.layout.statements.next content } ∧
    ∀ other, other ≠ body →
      after.program.layout.bodies.get? other = before.program.layout.bodies.get? other
  tally : after.own.tally = before.own.tally.countCreated form.shape
  journal : after.own.journal = before.own.journal
  alongside : before.Alongside after

namespace Program

variable {before : Program}

theorem Ranged.truthful (ranged : before.Ranged) : before.layout.Truthful :=
  fun ref body held => (ranged.orderly.held ref body).mp held

theorem Ranged.tailsLinked (ranged : before.Ranged) : before.layout.TailsLinked := by
  intro body content last stored marked
  have member := ranged.orderly.recalled body content last stored marked
  have held := (ranged.orderly.held last body).mpr ⟨content, stored, member⟩
  rcases Layout.bodyOf_eq_ok_iff.mp held with ⟨statement, placed⟩
  exact ⟨_, content, placed, rfl, stored, member⟩

theorem symbolName_intern {ref : SymbolRef} {text : String} (new : String)
    (named : before.symbolName ref = .ok text) :
    symbolName { before with names := (before.names.intern new).2 } ref = .ok text := by
  rcases symbolName_eq_ok_iff.mp named with ⟨symbol, stored, read⟩
  exact symbolName_eq_ok_iff.mpr ⟨symbol, stored, NameTable.get?_intern_of_get? new read⟩

theorem Ranged.symbolName_of_intern (ranged : before.Ranged) {ref : SymbolRef}
    (has : before.Has ref) {new text : String}
    (named : symbolName { before with names := (before.names.intern new).2 } ref = .ok text) :
    before.symbolName ref = .ok text := by
  rcases ranged.exists_symbolName has with ⟨old, isOld⟩
  cases (symbolName_intern new isOld).symm.trans named
  exact isOld

theorem Located.asks {placement : Placement} {position : Position}
    (located : before.Located placement position) {new : StatementRef} {body : BodyRef}
    {content later : Body} {front back : List StatementRef}
    (picks : position.Picks new body content later front back) :
    placement.Asks before body content front back ∧
      later.lastSynthesized = placement.recalled new content := by
  cases located with
  | shared => exact ⟨⟨picks.1, picks.2.1⟩, picks.2.2⟩
  | before => exact picks
  | afterElement linked =>
      rcases linkedDeclaration?_eq_some linked with ⟨symbol, stored, defined⟩
      exact ⟨⟨symbol, _, stored, defined, picks.1⟩, picks.2⟩

end Program

theorem Session.declares_of_introduces {before : Session τ} (ranged : before.program.Ranged)
    {text : String} {fresh : TypeRef} {form : TypeForm} {symbol : Option SymbolRef}
    (stored : before.program.types.get? fresh = some { form, symbol }) {placement : Placement}
    {position : Position} (located : before.program.Located placement position) {program : Program}
    (introduces : before.program.Introduces before.scope text fresh id position program) :
    before.Declares text fresh form placement (before.declaring program form.shape) := by
  rcases ranged.truthful.inserts ranged.tailsLinked introduces.layout with
    ⟨body, content, later, front, back, inserts, picks⟩
  rcases located.asks picks with ⟨asks, recalled⟩
  have isLater : later =
      { content with
        order := front ++ before.program.layout.statements.next :: back
        lastSynthesized := placement.recalled before.program.layout.statements.next content } := by
    rw [← inserts.order, ← recalled, ← inserts.scope]
  exact {
    names := introduces.names
    expressions := introduces.expressions
    modules := introduces.modules
    symbol := introduces.symbols
    type := introduces.type_same stored
    otherTypes := fun _ different => introduces.type_other different
    binding := introduces.scopes
    statement := ⟨body, content, front, back, inserts.stored, inserts.split, asks,
      inserts.statements, isLater ▸ inserts.laterStored, inserts.others⟩
    tally := rfl
    journal := rfl
    alongside := ⟨rfl, rfl⟩ }

theorem Session.Declares.settles {before after : Session τ} {text : String} {fresh : TypeRef}
    {form : TypeForm} {placement : Placement}
    (declares : before.Declares text fresh form placement after) {later : Session τ}
    (program : later.program = after.program) (scope : later.scope = before.scope)
    (other : TypeRef) (elsewhere : Placement) :
    Canon.settle text other elsewhere later = .ok (.reused fresh) later.reusing := by
  have known : after.program.names.intern text =
      ((before.program.names.intern text).1, after.program.names) := by
    rw [declares.names]
    exact NameTable.intern_of_find? (NameTable.find?_intern ..)
  have binds : later.program.Binds later.scope (later.program.names.intern text).1
      before.program.symbols.next := by
    rw [program, scope, known]
    exact (Program.binds_bind_iff declares.binding).mpr (by rw [if_pos ⟨rfl, rfl⟩])
  have stored := Arena.get?_push_next before.program.symbols
    { name := (before.program.names.intern text).1
      kind := .type
      type := fresh
      scope := before.scope
      definition := .statement before.program.layout.statements.next }
  rw [← declares.symbol, ← program] at stored
  have unchanged : later.interning text = later := by
    unfold Session.interning
    rw [program, known, ← program]
  rw [Canon.settle_of_binds binds stored, unchanged]

/-! ## All or nothing -/

/-- Settling an anonymous type ends in exactly one of three ways. Where the scope has the name, what
it is bound to is reused, and no more than that is counted. Otherwise, where the type is to stand
after an element without an anchor, that is refused, and the program has no more than the name. -/
theorem settle_all_or_nothing {before : Session τ} (ranged : before.program.Ranged)
    (hasScope : before.program.Has before.scope) {fresh : TypeRef} {form : TypeForm}
    (anonymous : before.program.types.get? fresh = some { form, symbol := none })
    {placement : Placement} (hasAnchor : placement.HasAnchor before.program) (text : String) :
    (∃ existing symbol,
      before.program.Binds before.scope (before.program.names.intern text).1 existing ∧
      before.program.symbols.get? existing = some symbol ∧
      Canon.settle text fresh placement before =
        .ok (.reused symbol.type) (before.interning text).reusing) ∨
    (before.program.Free before.scope (before.program.names.intern text).1 ∧
      ∃ element name, placement = .afterElement element ∧ before.program.Unanchored element ∧
        before.program.symbolName element = .ok name ∧
        Canon.settle text fresh placement before =
          .error (.failed ⟨before.statement, .unanchored form.shape name⟩)
            (before.interning text)) ∨
    (before.program.Free before.scope (before.program.names.intern text).1 ∧
      (∀ element, placement = .afterElement element → ¬before.program.Unanchored element) ∧
      ∃ after, Canon.settle text fresh placement before = .ok (.created fresh) after ∧
        before.Declares text fresh form placement after ∧
        ∀ later : Session τ, later.program = after.program → later.scope = before.scope →
          ∀ other elsewhere,
            Canon.settle text other elsewhere later = .ok (.reused fresh) later.reusing) := by
  have has : before.program.Has fresh := Arena.lt_size_of_get? anonymous
  -- The three ways to end are those of the run; that it comes to no fault is what is left.
  cases ran : Canon.settle text fresh placement before with
  | ok settled after =>
      cases settled with
      | reused type =>
          rcases Canon.settle_eq_reused ran with ⟨existing, symbol, binds, stored, rfl, rfl⟩
          exact .inl ⟨existing, symbol, binds, stored, rfl⟩
      | created type =>
          rcases Canon.settle_eq_created ran with
            ⟨rfl, form', symbol, position, program, stored, free, located, introduces, rfl⟩
          cases Option.mem_unique anonymous stored
          have declares := Session.declares_of_introduces ranged anonymous located introduces
          refine .inr (.inr ⟨free, ?_, _, rfl, declares, fun later same here other elsewhere =>
            declares.settles same here other elsewhere⟩)
          intro element isElement
          subst isElement
          cases located with
          | afterElement linked =>
              exact Program.not_unanchored_of_linkedDeclaration? ranged.orderly linked
  | error halt after =>
      cases halt with
      | fault fault =>
          exact absurd ran (Canon.faultless_settle ranged has hasScope hasAnchor text _ _)
      | failed failure =>
          rcases Canon.settle_eq_unanchored ran with
            ⟨element, shape, name, rfl, free, linked, shaped, named, rfl, rfl⟩
          rcases Program.shape_eq_ok_iff.mp shaped with ⟨node, stored, rfl⟩
          cases Option.mem_unique anonymous stored
          have unanchored := Program.unanchored_of_linkedDeclaration? ranged.orderly linked
          exact .inr (.inl ⟨free, element, name, rfl, unanchored, ranged.symbolName_of_intern
            hasAnchor named, rfl⟩)

def recordSequenceCalls : List Call :=
  [.addModule, .addType .nominal, .declareType ⟨1⟩ "R" ⟨7⟩, .addType (.sequence ⟨7⟩),
    .declareVar ⟨1⟩ "s" ⟨8⟩]

def recordSequenceRequests : List Request :=
  [.addBody ⟨1⟩, .addBody ⟨2⟩, .addStatement { kind := .typeDeclaration ⟨7⟩ }, .append ⟨1⟩ ⟨0⟩,
    .addStatement { kind := .varDeclaration ⟨8⟩ }, .append ⟨1⟩ ⟨1⟩]

/-- The sequence is declared after the record. -/
theorem settle_all_or_nothing_of_record_sequence :
    ∃ (source : Program) (before : Session Unit) (after : Session Unit),
      before = ⟨⟨source, { journal := () }⟩, ⟨2⟩, ⟨1⟩⟩ ∧
      (source.Ranged ∧ source.Has before.scope ∧
        source.types.get? ⟨8⟩ = some { form := .sequence ⟨7⟩, symbol := none } ∧
        (Placement.afterElement ⟨7⟩).HasAnchor source) ∧
      Canon.settle "_seq_R" ⟨8⟩ (.afterElement ⟨7⟩) before = .ok (.created ⟨8⟩) after ∧
      before.Declares "_seq_R" ⟨8⟩ (.sequence ⟨7⟩) (.afterElement ⟨7⟩) after ∧
      Canon.settle "_seq_R" ⟨0⟩ .shared after = .ok (.reused ⟨8⟩) after.reusing := by
  rcases (show ∃ source ∈ (layOut recordSequenceCalls).toOption, source.InRange ∧
      (recordSequenceRequests.foldlM Request.onLayout {}).toOption = some source.layout ∧
      source.Has (⟨2⟩ : ScopeRef) ∧ source.Has (⟨7⟩ : SymbolRef) ∧
      source.types.get? ⟨8⟩ = some { form := .sequence ⟨7⟩, symbol := none } ∧
      ∃ answered ∈ answer? (Canon.settle "_seq_R" ⟨8⟩ (.afterElement ⟨7⟩)
        ⟨⟨source, { journal := () }⟩, ⟨2⟩, ⟨1⟩⟩), answered.1 = .created ⟨8⟩ by decide +kernel) with
    ⟨source, -, inRange, requested, hasScope, hasElement, anonymous, ⟨answer, state⟩, answered, rfl⟩
  have created := answer?_eq_some_iff.mp answered
  have made : source.layout.Made := ⟨_, Except.toOption_eq_some_iff.mp requested⟩
  have ranged : source.Ranged := ⟨inRange, made.orderly⟩
  rcases @settle_all_or_nothing Unit ⟨⟨source, { journal := () }⟩, ⟨2⟩, ⟨1⟩⟩ ranged hasScope _ _
      anonymous (.afterElement ⟨7⟩) hasElement "_seq_R" with
    ⟨_, _, _, _, ran⟩ | ⟨_, _, _, _, _, _, ran⟩ | ⟨_, _, after, ran, declares, again⟩
  · cases created.symm.trans ran
  · cases created.symm.trans ran
  · exact ⟨source, _, after, rfl, ⟨ranged, hasScope, anonymous, hasElement⟩, ran, declares,
      again after rfl declares.alongside.1 _ _⟩

end StructuralTypes
