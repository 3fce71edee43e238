import StructuralTypes.Proofs.Linking

/-! Scopes and bodies. In a program that calls build, every body has a scope nested in the
shared one, and a declaration stands in the body of the scope that its symbol belongs to.
Nothing has been put in by a canonicalization yet. -/

namespace StructuralTypes

namespace Program

variable {program before after : Program}

inductive Encloses (program : Program) (outer : ScopeRef) : ScopeRef → Prop
  | self : Encloses program outer outer
  | parent {inner parent : ScopeRef} {content : Scope}
      (stored : program.scopes.get? inner = some content) (nested : content.parent = some parent)
      (rest : Encloses program outer parent) : Encloses program outer inner

def KeepsScopes (before after : Program) : Prop :=
  ∀ scope content, before.scopes.get? scope = some content →
    ∃ later, after.scopes.get? scope = some later ∧ later.parent = content.parent ∧
      later.intrinsic = content.intrinsic

theorem keepsScopes_of_eq (same : after.scopes = before.scopes) : before.KeepsScopes after :=
  fun _ content stored => ⟨content, same ▸ stored, rfl, rfl⟩

theorem keepsScopes_of_bind {target : ScopeRef} {name : NameRef} {ref : SymbolRef}
    (modified : before.scopes.modify target (·.bind name ref) = .ok after.scopes) :
    before.KeepsScopes after := by
  intro scope content stored
  rw [Arena.get?_of_modify modified, stored]
  split
  · exact ⟨content.bind name ref, rfl, rfl, rfl⟩
  · exact ⟨content, rfl, rfl, rfl⟩

theorem KeepsScopes.trans {middle : Program} (first : before.KeepsScopes middle)
    (second : middle.KeepsScopes after) : before.KeepsScopes after := by
  intro scope content stored
  rcases first scope content stored with ⟨between, found, parent, intrinsic⟩
  rcases second scope between found with ⟨later, laterFound, sameParent, sameIntrinsic⟩
  exact ⟨later, laterFound, sameParent.trans parent, sameIntrinsic.trans intrinsic⟩

theorem Encloses.of_keepsScopes (keeps : before.KeepsScopes after) {outer inner : ScopeRef}
    (encloses : before.Encloses outer inner) : after.Encloses outer inner := by
  induction encloses with
  | self => exact .self
  | parent stored nested _ induction =>
      rcases keeps _ _ stored with ⟨later, found, sameParent, -⟩
      exact .parent found (sameParent.trans nested) induction

theorem OpenScope.of_keepsScopes (keeps : before.KeepsScopes after) {scope : ScopeRef}
    (isOpen : before.OpenScope scope) : after.OpenScope scope := by
  rcases isOpen with ⟨content, stored, intrinsic⟩
  rcases keeps scope content stored with ⟨later, found, -, same⟩
  exact ⟨later, found, same.trans intrinsic⟩

/-- Every declaration stands in the body of the scope that its symbol belongs to. -/
structure Lexical (program : Program) : Prop where
  placedOnce : program.layout.PlacedOnce
  tails : program.layout.TailsLinked
  shared : ∃ content, program.layout.bodies.get? sharedBody = some content ∧
    content.scope = sharedScope
  sole : ∀ body content, program.layout.bodies.get? body = some content →
    content.scope = sharedScope → body = sharedBody
  opened : ∀ body content, program.layout.bodies.get? body = some content →
    program.OpenScope content.scope
  enclosed : ∀ body content, program.layout.bodies.get? body = some content →
    program.Encloses sharedScope content.scope
  declarations : ∀ ref symbol declaration, program.symbols.get? ref = some symbol →
    symbol.definition = .statement declaration → ∃ statement body content,
      program.layout.statements.get? declaration = some { statement, body := some body } ∧
      statement.declared? = some ref ∧ program.layout.bodies.get? body = some content ∧
      content.scope = symbol.scope

namespace Lexical

theorem not_intrinsic (lexical : program.Lexical) {ref : SymbolRef} {symbol : Symbol}
    {declaration : StatementRef} {content : Scope}
    (stored : program.symbols.get? ref = some symbol)
    (defined : symbol.definition = .statement declaration)
    (scopeStored : program.scopes.get? symbol.scope = some content) :
    content.intrinsic = false := by
  rcases lexical.declarations ref symbol declaration stored defined with
    ⟨_, body, holder, -, -, holderStored, isScope⟩
  rcases lexical.opened body holder holderStored with ⟨again, found, intrinsic⟩
  rw [isScope] at found
  cases Option.mem_unique scopeStored found
  exact intrinsic

theorem mem_shared (lexical : program.Lexical) {ref : SymbolRef} {symbol : Symbol}
    {declaration : StatementRef} (stored : program.symbols.get? ref = some symbol)
    (defined : symbol.definition = .statement declaration)
    (isShared : symbol.scope = sharedScope) :
    ∃ content, program.layout.bodies.get? sharedBody = some content ∧
      declaration ∈ content.order := by
  rcases lexical.declarations ref symbol declaration stored defined with
    ⟨statement, body, content, placed, -, found, isScope⟩
  cases lexical.sole body content found (isScope.trans isShared)
  rcases lexical.placedOnce.placed declaration _ placed with
    ⟨other, again, isBody, againFound, member⟩
  cases Option.some.inj isBody
  exact ⟨again, againFound, member⟩

theorem of_layout_eq (lexical : before.Lexical) (same : after.layout = before.layout)
    (scopes : before.KeepsScopes after)
    (symbols : ∀ ref symbol declaration, after.symbols.get? ref = some symbol →
      symbol.definition = .statement declaration → ∃ old, before.symbols.get? ref = some old ∧
        old.scope = symbol.scope ∧ old.definition = symbol.definition) : after.Lexical where
  placedOnce := same ▸ lexical.placedOnce
  tails := same ▸ lexical.tails
  shared := by
    rw [same]
    exact lexical.shared
  sole body content stored := lexical.sole body content (same ▸ stored)
  opened body content stored := (lexical.opened body content (same ▸ stored)).of_keepsScopes scopes
  enclosed body content stored :=
    (lexical.enclosed body content (same ▸ stored)).of_keepsScopes scopes
  declarations ref symbol declaration stored defined := by
    rcases symbols ref symbol declaration stored defined with ⟨old, oldStored, isScope, isDefined⟩
    rw [same, ← isScope]
    exact lexical.declarations ref old declaration oldStored (isDefined.trans defined)

theorem insert (lexical : before.Lexical) {statement : Statement} {body : BodyRef}
    {content later : Body} {front back : List StatementRef}
    (inserts : before.layout.Inserts after.layout statement body content later front back)
    (tails : after.layout.TailsLinked) (scopes : before.KeepsScopes after)
    (symbols : ∀ ref symbol declaration, after.symbols.get? ref = some symbol →
      symbol.definition = .statement declaration →
      (∃ old, before.symbols.get? ref = some old ∧ old.scope = symbol.scope ∧
        old.definition = symbol.definition) ∨
      declaration = before.layout.statements.next ∧ statement.declared? = some ref ∧
        symbol.scope = content.scope) : after.Lexical where
  placedOnce := inserts.placedOnce lexical.placedOnce
  tails := tails
  shared := by
    rcases lexical.shared with ⟨old, stored, isShared⟩
    rcases inserts.body_kept stored with ⟨found, foundStored, same⟩
    exact ⟨found, foundStored, same.trans isShared⟩
  sole other found stored isShared := by
    rcases inserts.body_source stored with ⟨old, oldStored, same⟩
    exact lexical.sole other old oldStored (same.symm.trans isShared)
  opened other found stored := by
    rcases inserts.body_source stored with ⟨old, oldStored, same⟩
    rw [same]
    exact (lexical.opened other old oldStored).of_keepsScopes scopes
  enclosed other found stored := by
    rcases inserts.body_source stored with ⟨old, oldStored, same⟩
    rw [same]
    exact (lexical.enclosed other old oldStored).of_keepsScopes scopes
  declarations ref symbol declaration stored defined := by
    rcases symbols ref symbol declaration stored defined with
      ⟨old, oldStored, isScope, isDefined⟩ | ⟨rfl, declares, isScope⟩
    · rcases lexical.declarations ref old declaration oldStored (isDefined.trans defined) with
        ⟨written, other, found, placed, declares, foundStored, same⟩
      rcases inserts.body_kept foundStored with ⟨kept, keptStored, sameScope⟩
      exact ⟨written, other, kept, inserts.old_stored placed, declares, keptStored,
        sameScope.trans (same.trans isScope)⟩
    · exact ⟨statement, body, later, inserts.new_stored, declares, inserts.laterStored,
        inserts.scope.trans isScope.symm⟩

theorem addBody (lexical : before.Lexical) (isOpen : before.OpenScope sharedScope)
    (content : Scope) {outer : ScopeRef} (opened : content.intrinsic = false)
    (nested : content.parent = some outer) (encloses : before.Encloses sharedScope outer)
    (modules : List BodyRef) :
    Lexical
      { before with
        scopes := before.scopes.push content
        layout := (before.layout.addBody before.scopes.next).2
        modules } := by
  have keeps : before.KeepsScopes
      { before with
        scopes := before.scopes.push content
        layout := (before.layout.addBody before.scopes.next).2
        modules } := fun _ old stored =>
    ⟨old, Arena.get?_push_of_get? content stored, rfl, rfl⟩
  have newScope := Arena.get?_push_next before.scopes content
  have bodies : ∀ body found, (before.layout.bodies.push { scope := before.scopes.next }).get?
      body = some found → before.layout.bodies.get? body = some found ∨
        found = { scope := before.scopes.next } := by
    intro body found stored
    exact (Arena.eq_next_or_get?_of_push stored).elim (fun isNew => .inr isNew.2) .inl
  refine ⟨⟨?_, ?_, ?_⟩, Layout.tailsLinked_addBody lexical.tails _, ?_, ?_, ?_, ?_, ?_⟩
  · intro ref placed stored
    rcases lexical.placedOnce.placed ref placed stored with
      ⟨body, found, isBody, bodyStored, member⟩
    exact ⟨body, found, isBody, Arena.get?_push_of_get? _ bodyStored, member⟩
  · intro body found ref stored member
    rcases bodies body found stored with old | rfl
    · exact lexical.placedOnce.held body found ref old member
    · cases member
  · intro body found stored
    rcases bodies body found stored with old | rfl
    · exact lexical.placedOnce.nodup body found old
    · exact List.nodup_nil
  · rcases lexical.shared with ⟨found, stored, isShared⟩
    exact ⟨found, Arena.get?_push_of_get? _ stored, isShared⟩
  · intro body found stored isShared
    rcases bodies body found stored with old | rfl
    · exact lexical.sole body found old isShared
    · rcases isOpen with ⟨_, sharedStored, -⟩
      rw [← isShared, Arena.get?_next] at sharedStored
      contradiction
  · intro body found stored
    rcases bodies body found stored with old | rfl
    · exact (lexical.opened body found old).of_keepsScopes keeps
    · exact ⟨content, newScope, opened⟩
  · intro body found stored
    rcases bodies body found stored with old | rfl
    · exact (lexical.enclosed body found old).of_keepsScopes keeps
    · exact .parent newScope nested (encloses.of_keepsScopes keeps)
  · intro ref symbol declaration stored defined
    rcases lexical.declarations ref symbol declaration stored defined with
      ⟨statement, body, found, placed, declares, bodyStored, isScope⟩
    exact ⟨statement, body, found, placed, declares, Arena.get?_push_of_get? _ bodyStored, isScope⟩

end Lexical

/-! ## Programs that calls build -/

/-- A lexical program in which nothing was put in by a canonicalization, and each declaration
defines its symbol. -/
structure Composed (program : Program) : Prop extends Lexical program where
  declared : ∀ ref placed var, program.layout.statements.get? ref = some placed →
    placed.statement.declared? = some var → ∃ symbol, program.symbols.get? var = some symbol ∧
      symbol.definition = .statement ref
  written : ∀ ref, ¬program.layout.Generated ref
  untouched : ∀ body content, program.layout.bodies.get? body = some content →
    content.lastSynthesized = none

namespace Composed

theorem of_layout_eq (composed : before.Composed) (same : after.layout = before.layout)
    (scopes : before.KeepsScopes after)
    (symbols : ∀ ref symbol declaration, after.symbols.get? ref = some symbol →
      symbol.definition = .statement declaration → ∃ old, before.symbols.get? ref = some old ∧
        old.scope = symbol.scope ∧ old.definition = symbol.definition)
    (kept : ∀ ref symbol, before.symbols.get? ref = some symbol →
      after.symbols.get? ref = some symbol) : after.Composed where
  toLexical := composed.toLexical.of_layout_eq same scopes symbols
  declared ref placed var stored declares := by
    rw [same] at stored
    rcases composed.declared ref placed var stored declares with ⟨symbol, found, defined⟩
    exact ⟨symbol, kept var symbol found, defined⟩
  written ref := same ▸ composed.written ref
  untouched body content stored := composed.untouched body content (same ▸ stored)

theorem append (composed : before.Composed) {statement : Statement} {body : BodyRef}
    (appended : before.layout.Appended after.layout body statement)
    (plain : statement.synthesized = false) (scopes : before.KeepsScopes after)
    (symbols : ∀ ref symbol declaration, after.symbols.get? ref = some symbol →
      symbol.definition = .statement declaration →
      (∃ old, before.symbols.get? ref = some old ∧ old.scope = symbol.scope ∧
        old.definition = symbol.definition) ∨
      declaration = before.layout.statements.next ∧ statement.declared? = some ref ∧
        ∃ content, before.layout.bodies.get? body = some content ∧
          symbol.scope = content.scope)
    (kept : ∀ ref symbol, before.symbols.get? ref = some symbol →
      after.symbols.get? ref = some symbol)
    (declares : ∀ var, statement.declared? = some var → ∃ symbol,
      after.symbols.get? var = some symbol ∧
        symbol.definition = .statement before.layout.statements.next) : after.Composed := by
  rcases appended.inserts with ⟨content, inserts⟩
  refine ⟨composed.insert inserts (appended.tails composed.tails) scopes ?_, ?_, ?_, ?_⟩
  · intro ref symbol declaration stored defined
    refine (symbols ref symbol declaration stored defined).imp_right ?_
    rintro ⟨isNew, declares, again, againStored, isScope⟩
    cases Option.mem_unique inserts.stored againStored
    exact ⟨isNew, declares, isScope⟩
  · intro ref placed var stored isDeclared
    rw [inserts.statements] at stored
    rcases Arena.eq_next_or_get?_of_push stored with ⟨rfl, rfl⟩ | old
    · exact declares var isDeclared
    · rcases composed.declared ref placed var old isDeclared with ⟨symbol, found, defined⟩
      exact ⟨symbol, kept var symbol found, defined⟩
  · rintro ref ⟨placed, stored, generated⟩
    rw [inserts.statements] at stored
    rcases Arena.eq_next_or_get?_of_push stored with ⟨-, rfl⟩ | old
    · rw [plain] at generated
      contradiction
    · exact composed.written ref ⟨placed, old, generated⟩
  · intro other found stored
    by_cases isBody : other = body
    · subst isBody
      cases Option.mem_unique inserts.laterStored stored
      exact composed.untouched other content inserts.stored
    · exact composed.untouched other found ((inserts.others other isBody).symm.trans stored)

theorem addBody (composed : before.Composed) (isOpen : before.OpenScope sharedScope)
    (content : Scope) {outer : ScopeRef} (opened : content.intrinsic = false)
    (nested : content.parent = some outer) (encloses : before.Encloses sharedScope outer)
    (modules : List BodyRef) :
    Composed
      { before with
        scopes := before.scopes.push content
        layout := (before.layout.addBody before.scopes.next).2
        modules } where
  toLexical := composed.toLexical.addBody isOpen content opened nested encloses modules
  declared := composed.declared
  written := composed.written
  untouched body found stored := by
    rcases Arena.eq_next_or_get?_of_push stored with ⟨-, rfl⟩ | old
    · rfl
    · exact composed.untouched body found old

end Composed

theorem body_initial {body : BodyRef} {content : Body}
    (stored : initial.layout.bodies.get? body = some content) :
    body = sharedBody ∧ content = { scope := sharedScope } := by
  rcases body with ⟨_ | index⟩
  · exact ⟨rfl, (Option.some.inj stored).symm⟩
  · simp [initial, Arena.get?] at stored

theorem composed_initial : Composed .initial where
  placedOnce :=
    { placed := fun ref placed stored => by simp [initial, Arena.get?] at stored
      held := fun body content ref stored member => by
        rcases body_initial stored with ⟨-, rfl⟩
        cases member
      nodup := fun body content stored => by
        rcases body_initial stored with ⟨-, rfl⟩
        exact List.nodup_nil }
  tails := laidOut_initial.tails
  shared := ⟨_, rfl, rfl⟩
  sole body content stored _ := (body_initial stored).1
  opened body content stored := (laidOut_initial.bodies body content stored).2
  enclosed body content stored := by
    rcases body_initial stored with ⟨-, rfl⟩
    exact .self
  declarations ref symbol declaration stored defined := by
    rcases exists_primitive_of_symbol stored with ⟨primitive, -, rfl⟩
    cases defined
  declared ref placed var stored := by simp [initial, Arena.get?] at stored
  written ref generated := by
    rcases generated with ⟨placed, stored, -⟩
    simp [initial, Arena.get?] at stored
  untouched body content stored := by
    rcases body_initial stored with ⟨-, rfl⟩
    rfl

theorem composed_declare (composed : before.Composed) {body : BodyRef} {text : String}
    {type : TypeRef} {kind : SymbolKind} {ref : SymbolRef}
    (ran : Edit.declare body text type kind before = .ok ref after) : after.Composed := by
  rcases declare_eq_ok ran with
    ⟨-, content, statement, scopes, layout, stored, ⟨declares, -⟩, plain, placed, modified, rfl⟩
  refine composed.append (Layout.appended_of_append placed) plain (keepsScopes_of_bind modified) ?_
    (fun _ _ found => Arena.get?_push_of_get? _ found) ?_
  · intro ref symbol declaration found defined
    rcases Arena.eq_next_or_get?_of_push found with ⟨rfl, rfl⟩ | old
    · cases Definition.statement.inj defined
      exact .inr ⟨rfl, declares, content, stored, rfl⟩
    · exact .inl ⟨symbol, old, rfl, rfl⟩
  · intro var isDeclared
    cases Option.some.inj (declares.symm.trans isDeclared)
    exact ⟨_, Arena.get?_push_next .., rfl⟩

theorem composed_addModule (laid : LaidOut before) (composed : before.Composed) {body : BodyRef}
    (ran : Edit.addModule before = .ok body after) : after.Composed := by
  rcases addModule_eq_ok ran with rfl
  exact composed.addBody laid.shared _ rfl rfl .self _

theorem composed_addBlock (laid : LaidOut before) (composed : before.Composed)
    {body inner : BodyRef} (ran : Edit.addBlock body before = .ok inner after) :
    after.Composed := by
  rcases addBlock_eq_ok ran with ⟨outer, layout, outerStored, placed, rfl⟩
  have within := composed.enclosed body outer outerStored
  have nested := composed.addBody laid.shared
    { parent := some outer.scope, intrinsic := false, shared := false } rfl rfl within
    before.modules
  exact nested.append (Layout.appended_of_append placed) rfl (keepsScopes_of_eq rfl)
    (fun _ symbol _ stored _ => .inl ⟨symbol, stored, rfl, rfl⟩) (fun _ _ stored => stored)
    fun _ never => by cases never

theorem composed_edit (laid : LaidOut before) (composed : before.Composed) {call : Call}
    (ran : call.edit before = .ok () after) : after.Composed := by
  cases Call.makes_of_edit ran with
  | addModule added => exact composed_addModule laid composed added
  | addBlock added => exact composed_addBlock laid composed added
  | declareVar declared => exact composed_declare composed declared
  | declareType declared =>
      exact (composed_declare composed declared).of_layout_eq rfl (keepsScopes_of_eq rfl)
        (fun _ symbol _ stored _ => ⟨symbol, stored, rfl, rfl⟩) fun _ _ stored => stored
  | declareDetachedVar bound =>
      refine composed.of_layout_eq rfl (keepsScopes_of_bind bound) ?_
        fun _ _ stored => Arena.get?_push_of_get? _ stored
      intro ref symbol declaration stored defined
      rcases Arena.eq_next_or_get?_of_push stored with ⟨-, rfl⟩ | old
      · cases defined
      · exact ⟨symbol, old, rfl, rfl⟩
  | addType | addExpression =>
      exact composed.of_layout_eq rfl (keepsScopes_of_eq rfl)
        (fun _ symbol _ stored _ => ⟨symbol, stored, rfl, rfl⟩) fun _ _ stored => stored
  | addStatement placed =>
      exact composed.append (Layout.appended_of_append placed) rfl (keepsScopes_of_eq rfl)
        (fun _ symbol _ stored _ => .inl ⟨symbol, stored, rfl, rfl⟩) (fun _ _ stored => stored)
        fun _ never => by cases never

/-- In every program that calls build, declarations stand in the bodies of their scopes. -/
theorem composed_of_layOut {calls : List Call} (built : layOut calls = .ok program) :
    program.Composed := by
  suffices ∀ start, LaidOut start → start.Composed → calls.foldlM Call.run start = .ok program →
      program.Composed from this .initial laidOut_initial composed_initial built
  intro start laid composed ran
  clear built
  induction calls generalizing start with
  | nil =>
      simp only [List.foldlM_nil, Except.pure_eq_ok_iff] at ran
      exact ran ▸ composed
  | cons call rest induction =>
      simp only [List.foldlM_cons, Except.bind_eq_ok_iff, Call.run_eq_ok_iff] at ran
      rcases ran with ⟨next, ⟨valid, edited⟩, ran⟩
      exact induction next (laidOut_edit laid valid edited) (composed_edit laid composed edited) ran

end Program

end StructuralTypes
