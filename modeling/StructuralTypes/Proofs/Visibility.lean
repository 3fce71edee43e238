import StructuralTypes.Proofs.Siting
import StructuralTypes.Proofs.Tuples

/-! Declarations within the reach of their uses. What a variable ends with may have been
declared for another one, in another body. It is declared all the same before the variable and in
a scope around it: in the shared body, which is read before all others, or behind a type that the
declared type of the variable was built from. -/

namespace StructuralTypes

namespace Layout

variable {layout : Layout}

theorem sublist_preorder_of_first {first : BodyRef} {others : List BodyRef}
    {read : List StatementRef} (listed : layout.preorder (first :: others) = .ok read)
    {content : Body} (stored : layout.bodies.get? first = some content)
    (leaves : ∀ ref ∈ content.order, layout.Leaf ref) {ref last : StatementRef}
    (member : ref ∈ content.order) (isRead : last ∈ read) (outside : last ∉ content.order) :
    [ref, last].Sublist read := by
  simp only [preorder, List.mapM_cons, Except.bind_eq_ok_iff, Except.pure_eq_ok_iff] at listed
  obtain ⟨segments, ⟨segment, firstListed, rest, -, rfl⟩, rfl⟩ := listed
  obtain ⟨less, again, -, againStored, same, each⟩ := eq_flatMap_segment firstListed
  cases Option.mem_unique stored againStored
  rw [flatMap_segment_of_leaves leaves each] at same
  rw [List.flatten_cons, same] at isRead ⊢
  have later := (List.mem_append.mp isRead).resolve_left outside
  exact (List.singleton_sublist.mpr member).append (List.singleton_sublist.mpr later)

/-- `declaration` is `anchor` or was put in behind it. -/
def Behind (layout : Layout) (anchor declaration : StatementRef) : Prop :=
  declaration = anchor ∨
    layout.Generated declaration ∧ ∃ body, layout.Trails body anchor declaration

theorem Behind.trans (placedOnce : layout.PlacedOnce) {body : BodyRef}
    {anchor middle declaration : StatementRef} (behind : layout.Behind anchor middle)
    (generated : layout.Generated declaration) (trails : layout.Trails body middle declaration) :
    layout.Behind anchor declaration := by
  rcases behind with rfl | ⟨generatedMiddle, other, trailsOther⟩
  · exact .inr ⟨generated, body, trails⟩
  · have sameBody : other = body := by
      obtain ⟨content, front, between, back, stored, ordered, -⟩ := trailsOther
      obtain ⟨_, here⟩ := placedOnce.held other content middle stored (by simp [ordered])
      obtain ⟨content, front, between, back, stored, ordered, -⟩ := trails
      obtain ⟨_, there⟩ := placedOnce.held body content middle stored (by simp [ordered])
      cases Option.mem_unique here there
      rfl
    subst sameBody
    exact .inr ⟨generated, other, trailsOther.trans placedOnce generatedMiddle trails⟩

theorem Behind.sublist_preorder (placedOnce : layout.PlacedOnce)
    (leaves : ∀ ref, layout.Generated ref → layout.Leaf ref)
    {anchor declaration last : StatementRef} (behind : layout.Behind anchor declaration)
    (leaf : layout.Leaf anchor) {roots : List BodyRef} {read : List StatementRef}
    (listed : layout.preorder roots = .ok read) (inOrder : [anchor, last].Sublist read)
    (written : ¬layout.Generated last) : [declaration, last].Sublist read := by
  rcases behind with rfl | ⟨generated, body, trails⟩
  · exact inOrder
  · exact trails.sublist_preorder placedOnce leaves leaf generated listed inOrder written

end Layout

namespace Program

variable {source current : Program}

/-! ## Visible declarations -/

/-- `symbol` is built in, or is declared before `statement` in a scope around `scope`. -/
def Visible (program : Program) (order : List StatementRef) (statement : StatementRef)
    (scope : ScopeRef) (symbol : Symbol) : Prop :=
  (symbol.definition = .absent ∧ program.IntrinsicScope symbol.scope) ∨
    ∃ declaration, symbol.definition = .statement declaration ∧
      [declaration, statement].Sublist order ∧ program.Encloses symbol.scope scope

def ChainVisible (program : Program) (order : List StatementRef) (statement : StatementRef)
    (scope : ScopeRef) (type : TypeRef) : Prop :=
  ∀ part ∈ program.chain type, ∀ form ref symbol,
    program.types.get? part = some { form, symbol := some ref } →
    program.symbols.get? ref = some symbol → program.Visible order statement scope symbol

theorem Visible.of_continues (continues : Continues source current)
    {before after : List StatementRef} (grows : before.Sublist after) {statement : StatementRef}
    {scope : ScopeRef} {symbol : Symbol}
    (visible : source.Visible before statement scope symbol) (type : TypeRef) :
    current.Visible after statement scope { symbol with type } := by
  rcases visible with
    ⟨builtIn, content, stored, intrinsic⟩ | ⟨declaration, defined, sublist, encloses⟩
  · obtain ⟨later, found, -, same⟩ := continues.scopes symbol.scope content stored
    exact .inl ⟨builtIn, later, found, same.trans intrinsic⟩
  · exact .inr ⟨declaration, defined, sublist.trans grows, encloses.of_keepsScopes continues.scopes⟩

/-! ## Declarations of a run -/

theorem Situated.behind_element (sound : Sound source current) {ref : SymbolRef} {symbol : Symbol}
    (isNew : source.symbols.get? ref = none) (stored : current.symbols.get? ref = some symbol)
    (situated : current.Situated ref symbol) (notShared : symbol.scope ≠ sharedScope) :
    ∃ form element inner other record anchor declaration body,
      current.types.get? symbol.type = some { form, symbol := some ref } ∧
      form.element? = some element ∧
      current.types.get? element = some { form := inner, symbol := some other } ∧
      current.symbols.get? other = some record ∧ record.scope = symbol.scope ∧
      record.definition = .statement anchor ∧ symbol.definition = .statement declaration ∧
      current.layout.Generated declaration ∧ current.layout.Trails body anchor declaration := by
  obtain ⟨form, home, declaration, declares, belongs, isScope, defined, stands⟩ := situated.sited
  rw [isScope] at notShared
  cases belongs with
  | leaf => exact absurd rfl notShared
  | element found innerStored beside =>
      cases stands with
      | shared => exact absurd rfl notShared
      | beside recordStored anchored holder bodyScope trails =>
          obtain ⟨rfl, -, again, againStored, sameScope, -⟩ := homeBeside_beside beside
          cases Option.mem_unique recordStored againStored
          have generated : current.layout.Generated declaration := by
            obtain ⟨other, body, again, placed⟩ := (sound.declared ref symbol isNew stored).placed
            cases Definition.statement.inj (defined.symm.trans again)
            exact ⟨_, placed, rfl⟩
          exact ⟨form, _, _, _, _, _, declaration, _, declares, found, innerStored, recordStored,
            sameScope.trans isScope.symm, anchored, defined, generated, trails⟩

theorem Situated.linked_of_shared {ref : SymbolRef} {symbol : Symbol}
    (situated : current.Situated ref symbol) (isShared : symbol.scope = sharedScope) :
    ∃ declaration, symbol.definition = .statement declaration ∧
      current.layout.LinkedIn declaration sharedBody := by
  obtain ⟨form, home, declaration, -, belongs, isScope, defined, stands⟩ := situated.sited
  cases stands with
  | shared linked => exact ⟨declaration, defined, linked⟩
  | beside =>
      cases belongs with
      | element _ _ beside =>
          exact absurd (isScope.symm.trans isShared) (homeBeside_beside beside).2.1

theorem Sound.new_of_reserved (laid : LaidOut source) (unreserved : source.Unreserved)
    (sound : Sound source current) {ref : SymbolRef} {symbol : Symbol} {text : String}
    (stored : current.symbols.get? ref = some symbol)
    (named : current.names.get? symbol.name = some text) (reserved : Reserved text) :
    source.symbols.get? ref = none := by
  cases old : source.symbols.get? ref with
  | none => rfl
  | some before =>
      obtain ⟨type, kept⟩ := sound.extension.symbols ref before old
      cases Option.mem_unique stored kept
      obtain ⟨other, _, oldNamed, binds⟩ := laid.bound ref before old
      cases Option.mem_unique named (sound.extension.names _ _ oldNamed)
      exact absurd reserved (unreserved text (mem_boundNames binds oldNamed))

theorem Tracks.eq_of_named (laid : LaidOut source) (unreserved : source.Unreserved)
    (distinct : source.TypeNamesDistinct) (tracks : Tracks source current)
    (sound : Sound source current) {ref declared : SymbolRef} {symbol record : Symbol}
    {type : TypeRef} {form : TypeForm} {text : String}
    (declares : current.types.get? type = some { form, symbol := some ref })
    (stored : current.symbols.get? ref = some symbol)
    (named : current.names.get? symbol.name = some text)
    (declaredStored : source.symbols.get? declared = some record) (kind : record.kind = .type)
    (name : source.symbolText? declared = some text) (sameScope : symbol.scope = record.scope) :
    ref = declared := by
  obtain ⟨again, againStored, recordNamed⟩ := symbolText?_eq_some_iff.mp name
  cases Option.mem_unique declaredStored againStored
  cases old : source.symbols.get? ref with
  | none =>
      obtain ⟨_, key, -, isKey, -⟩ := (sound.declared ref symbol old stored).keyed
      cases Option.mem_unique named isKey
      obtain ⟨_, _, otherNamed, binds⟩ := laid.bound declared record declaredStored
      cases Option.mem_unique recordNamed otherNamed
      exact absurd key.reserved_name (unreserved _ (mem_boundNames binds recordNamed))
  | some before =>
      obtain ⟨other, kept⟩ := sound.extension.symbols ref before old
      cases Option.mem_unique stored kept
      refine distinct ref before old declared record declaredStored ?_ kind sameScope
        (tracks.distinct _ _ _ named (sound.extension.names _ _ recordNamed))
      obtain ⟨original, holder, originalStored, -, same⟩ := tracks.form_source declares
      cases holder with
      | some other =>
          cases Option.some.inj (same (by simp))
          obtain ⟨found, foundStored, -, isType⟩ := laid.declared _ _ _ originalStored
          cases Option.mem_unique old foundStored
          exact isType
      | none =>
          obtain ⟨missing, -⟩ := tracks.declared _ _ _ _ originalStored declares
          rw [old] at missing
          contradiction

theorem Sound.element_named (sound : Sound source current) {ref : SymbolRef} {symbol : Symbol}
    {key : CanonicalKey} {text : String} (isNew : source.symbols.get? ref = none)
    (stored : current.symbols.get? ref = some symbol)
    (named : current.names.get? symbol.name = some key.name) (based : key.element? = some text)
    {form : TypeForm} {part : TypeRef}
    (declares : current.types.get? symbol.type = some { form, symbol := some ref })
    (found : form.element? = some part) : current.typeName? part = .ok (some text) := by
  obtain ⟨_, _, again, isKey, fits⟩ := (sound.declared ref symbol isNew stored).keyed
  obtain ⟨rfl, -⟩ := node_unique again declares
  obtain ⟨_, isPart, name⟩ := fits.exists_element (Option.mem_unique isKey named) based
  exact Option.mem_unique found isPart ▸ name

/-- `symbol` is declared behind a type of `scope` that is on the chain of `type`. -/
def Founded (source current : Program) (type : TypeRef) (scope : ScopeRef) (symbol : Symbol) :
    Prop :=
  ∃ part ∈ source.chain type, ∃ form ref record anchor declaration,
    source.types.get? part = some { form, symbol := some ref } ∧
    source.symbols.get? ref = some record ∧ record.scope = scope ∧
    record.definition = .statement anchor ∧ symbol.definition = .statement declaration ∧
    current.layout.Behind anchor declaration

theorem Sited.founded_of_element (laid : LaidOut source) (sound : Sound source current)
    (sited : Sited source current) {ref : SymbolRef} {symbol : Symbol} {text : String}
    {type element : TypeRef} {form : TypeForm} (isNew : source.symbols.get? ref = none)
    (stored : current.symbols.get? ref = some symbol) (notShared : symbol.scope ≠ sharedScope)
    (typeStored : source.types.get? type = some { form, symbol := none })
    (elementFound : form.element? = some element)
    (called : ∀ form part, current.types.get? symbol.type = some { form, symbol := some ref } →
      form.element? = some part → current.typeName? part = .ok (some text))
    (inner : ∀ {canonical : TypeRef} {form : TypeForm} {ref : SymbolRef} {record : Symbol},
      current.types.get? canonical = some { form, symbol := some ref } →
      current.symbols.get? ref = some record → current.names.get? record.name = some text →
      record.scope = symbol.scope → source.Founded current element symbol.scope record) :
    source.Founded current type symbol.scope symbol := by
  obtain ⟨later, part, innerForm, other, record, middle, declaration, body, declares, found,
    partStored, recordStored, sameScope, defined, isDeclared, generated, trails⟩ :=
    (sited.situated ref symbol isNew stored).behind_element sound isNew stored notShared
  obtain ⟨_, again, record', partAgain, againStored, named⟩ :=
    typeName?_eq_some_iff.mp (called later part declares found)
  obtain ⟨rfl, same⟩ := node_unique partStored partAgain
  cases same
  cases Option.mem_unique recordStored againStored
  obtain ⟨bottom, member, bottomForm, bottomRef, bottomRecord, anchor, between, bottomStored,
    bottomRecordStored, bottomScope, anchored, isBetween, behind⟩ :=
    inner partStored recordStored named sameScope
  cases Definition.statement.inj (defined.symm.trans isBetween)
  exact ⟨bottom, mem_chain_of_element laid typeStored elementFound member, bottomForm, bottomRef,
    bottomRecord, anchor, declaration, bottomStored, bottomRecordStored, bottomScope, anchored,
    isDeclared, behind.trans sited.lexical.placedOnce generated trails⟩

/-- What is called by a text in a scope other than the shared one ends in a type of that scope,
and whatever has the text for its name there stands behind the declaration of this type. -/
theorem Called.founded (laid : LaidOut source) (unreserved : source.Unreserved)
    (distinct : source.TypeNamesDistinct) (tracks : Tracks source current)
    (sound : Sound source current) (sited : Sited source current) {type : TypeRef} {text : String}
    {scope : ScopeRef} (called : source.Called type text scope) (notShared : scope ≠ sharedScope)
    {canonical : TypeRef} {form : TypeForm} {ref : SymbolRef} {symbol : Symbol}
    (declares : current.types.get? canonical = some { form, symbol := some ref })
    (stored : current.symbols.get? ref = some symbol)
    (named : current.names.get? symbol.name = some text) (isScope : symbol.scope = scope) :
    source.Founded current type scope symbol := by
  induction called generalizing canonical form ref symbol with
  | @named type inner declared text home typeStored name beside =>
      cases home with
      | shared => exact absurd rfl notShared
      | beside element scope =>
          obtain ⟨rfl, -, record, recordStored, rfl, defined, -⟩ := homeBeside_beside beside
          obtain ⟨again, againStored, -, kind⟩ := laid.declared type inner _ typeStored
          cases Option.mem_unique recordStored againStored
          cases tracks.eq_of_named laid unreserved distinct sound declares stored named recordStored
            kind name isScope
          rcases laid.standing ref record recordStored kind with
            ⟨isAbsent, -⟩ | ⟨anchor, anchored, -⟩
          · exact absurd isAbsent defined
          · obtain ⟨later, kept⟩ := sound.extension.symbols ref record recordStored
            cases Option.mem_unique stored kept
            exact ⟨type, mem_chain_self type, inner, ref, record, anchor, anchor, typeStored,
              recordStored, rfl, anchored, anchored, .inl rfl⟩
  | array typeStored ranked inner induction =>
      -- Such a name is given by the run only, to what stands behind an element of that name.
      subst isScope
      have isNew := sound.new_of_reserved laid unreserved stored named
        (CanonicalKey.reserved_name _)
      exact sited.founded_of_element laid sound isNew stored notShared typeStored rfl
        (fun _ _ => sound.element_named isNew stored named rfl) (induction notShared)
  | sequence typeStored inner induction =>
      subst isScope
      have isNew := sound.new_of_reserved laid unreserved stored named
        (CanonicalKey.reserved_name _)
      exact sited.founded_of_element laid sound isNew stored notShared typeStored rfl
        (fun _ _ => sound.element_named isNew stored named rfl) (induction notShared)
  | domain | tuple | ofLiteral | ofVariable => exact absurd rfl notShared

/-! ## Reading a program after a run -/

theorem Composed.encloses_variable (composed : source.Composed)
    (continues : Continues source current) {statement : StatementRef} {placed : Placed}
    {var : SymbolRef} {user : Symbol}
    (stored : source.layout.statements.get? statement = some placed)
    (declares : placed.statement.kind = .varDeclaration var)
    (userStored : source.symbols.get? var = some user) :
    current.Encloses sharedScope user.scope := by
  have declared : placed.statement.declared? = some var := by
    rw [Statement.declared?, declares]
  obtain ⟨again, againStored, defined⟩ := composed.declared statement placed var stored declared
  cases Option.mem_unique userStored againStored
  obtain ⟨_, body, content, -, -, contentStored, isScope⟩ :=
    composed.declarations var user statement userStored defined
  exact isScope ▸ (composed.enclosed body content contentStored).of_keepsScopes continues.scopes

section

variable (composed : source.Composed) (sound : Sound source current)
include composed sound

theorem Sound.not_generated {ref : StatementRef} {placed : Placed}
    (stored : source.layout.statements.get? ref = some placed) :
    ¬current.layout.Generated ref := by
  rintro ⟨later, found, generated⟩
  cases Option.mem_unique found (sound.extension.layout.statements ref placed stored)
  exact composed.written ref ⟨placed, stored, generated⟩

theorem Sound.leaf_of_generated {ref : StatementRef} (generated : current.layout.Generated ref) :
    current.layout.Leaf ref := by
  obtain ⟨placed, stored, synthesized⟩ := generated
  refine ⟨placed, stored, ?_⟩
  rcases sound.extension.layout.synthesized ref placed stored with old | ⟨symbol, body, rfl⟩
  · exact absurd ⟨placed, old, synthesized⟩ (composed.written ref)
  · intro body block
    cases block

theorem Sound.leaf_of_definition {ref : SymbolRef} {symbol : Symbol} {declaration : StatementRef}
    (stored : source.symbols.get? ref = some symbol)
    (defined : symbol.definition = .statement declaration) : current.layout.Leaf declaration := by
  obtain ⟨statement, body, -, placed, declares, -⟩ :=
    composed.declarations ref symbol declaration stored defined
  refine ⟨_, sound.extension.layout.statements declaration _ placed, ?_⟩
  intro inner block
  rw [Statement.declared?, block] at declares
  cases declares

theorem Sound.sublist_of_shared
    (empty : ∀ content, source.layout.bodies.get? sharedBody = some content → content.order = [])
    {declaration statement : StatementRef} {placed : Placed} {read : List StatementRef}
    (linked : current.layout.LinkedIn declaration sharedBody)
    (stored : source.layout.statements.get? statement = some placed)
    (listed : current.preorder = .ok read) (isRead : statement ∈ read) :
    [declaration, statement].Sublist read := by
  obtain ⟨_, content, -, -, contentStored, member⟩ := linked
  obtain ⟨before, beforeStored, -⟩ := composed.shared
  obtain ⟨later, laterStored, -, supplements⟩ :=
    sound.extension.layout.orders sharedBody before beforeStored
  cases Option.mem_unique contentStored laterStored
  rw [empty before beforeStored] at supplements
  have generated : ∀ ref ∈ content.order, current.layout.Generated ref := by
    intro ref inOrder
    rcases supplements.mem_or_added inOrder with old | added
    · cases old
    · exact sound.extension.layout.generated_of_added added
  exact Layout.sublist_preorder_of_first listed contentStored
    (fun ref inOrder => sound.leaf_of_generated composed (generated ref inOrder)) member isRead
    fun inside => sound.not_generated composed stored (generated statement inside)

/-- What a run declares for a variable is visible to it, if the types that the name of this is
made of are. -/
theorem Sound.visible_of_new (laid : LaidOut source) (unreserved : source.Unreserved)
    (distinct : source.TypeNamesDistinct) (tracks : Tracks source current)
    (sited : Sited source current)
    (empty : ∀ content, source.layout.bodies.get? sharedBody = some content → content.order = [])
    {before after : List StatementRef} (grows : before.Sublist after)
    (listed : current.preorder = .ok after) {statement : StatementRef} {placed : Placed}
    {var : SymbolRef} {user : Symbol}
    (stored : source.layout.statements.get? statement = some placed)
    (declares : placed.statement.kind = .varDeclaration var)
    (userStored : source.symbols.get? var = some user) (isRead : statement ∈ after) {type : TypeRef}
    (visible : source.ChainVisible before statement user.scope type) {ref : SymbolRef}
    {symbol : Symbol} {form : TypeForm} {text : String} (isNew : source.symbols.get? ref = none)
    (symbolStored : current.symbols.get? ref = some symbol)
    (typeStored : current.types.get? symbol.type = some { form, symbol := some ref })
    (named : current.names.get? symbol.name = some text)
    (called : source.Called type text symbol.scope) :
    current.Visible after statement user.scope symbol := by
  right
  by_cases isShared : symbol.scope = sharedScope
  · obtain ⟨declaration, defined, linked⟩ :=
      (sited.situated ref symbol isNew symbolStored).linked_of_shared isShared
    exact ⟨declaration, defined, sound.sublist_of_shared composed empty linked stored listed isRead,
      isShared ▸ composed.encloses_variable sited.continues stored declares userStored⟩
  · obtain ⟨part, member, partForm, partRef, partRecord, anchor, declaration, partStored,
      partRecordStored, partScope, anchored, defined, behind⟩ :=
      called.founded laid unreserved distinct tracks sound sited isShared typeStored symbolStored
        named rfl
    rcases visible part member partForm partRef partRecord partStored partRecordStored with
      ⟨isAbsent, -⟩ | ⟨other, otherDefined, sublist, encloses⟩
    · rw [isAbsent] at anchored
      contradiction
    · cases Definition.statement.inj (anchored.symm.trans otherDefined)
      refine ⟨declaration, defined, ?_,
        partScope ▸ encloses.of_keepsScopes sited.continues.scopes⟩
      exact behind.sublist_preorder sited.lexical.placedOnce
        (fun _ => sound.leaf_of_generated composed)
        (sound.leaf_of_definition composed partRecordStored anchored) listed (sublist.trans grows)
        (sound.not_generated composed stored)

end

theorem Tracks.declared_of_fixed (tracks : Tracks source current)
    {type : TypeRef} (fixed : source.Fixed type) {form : TypeForm} {ref : SymbolRef}
    (stored : current.types.get? type = some { form, symbol := some ref }) :
    ∃ original, source.types.get? type = some { form := original, symbol := some ref } := by
  obtain ⟨original, holder, originalStored, -⟩ := id fixed
  cases holder with
  | none =>
      obtain ⟨isNew, record, recordStored, isType⟩ := tracks.declared _ _ _ _ originalStored stored
      obtain ⟨_, -, called⟩ := (tracks.synthesized ref record isNew recordStored).called
      rw [isType] at called
      exact absurd (fixed.scalar originalStored) (called.not_scalar originalStored)
  | some declaring =>
      obtain ⟨_, found⟩ := tracks.declaration_kept originalStored
      cases (node_unique stored found).2
      exact ⟨original, originalStored⟩

end Program

/-- If a variable sees all named types that its declared type is built from, it sees the
declaration of the type that it ends with. -/
theorem variableTypes_stay_visible {calls : List Call} {source : Program} {own : Progress Unit}
    {final : Walker (Progress Unit)} (built : layOut calls = .ok source)
    (empty : ∀ content, source.layout.bodies.get? Program.sharedBody = some content →
      content.order = [])
    (unreserved : source.Unreserved) (distinct : source.TypeNamesDistinct)
    (ran : (variableTypes .silent).walkProgram ⟨source, own⟩ = .ok () final) :
    ∃ before after, source.preorder = .ok before ∧ final.program.preorder = .ok after ∧
      ∀ statement placed var user, source.layout.statements.get? statement = some placed →
        placed.statement.kind = .varDeclaration var →
        source.symbols.get? var = some user →
        source.ChainVisible before statement user.scope user.type →
        ∀ type form ref symbol, final.program.typeOf? var = some type →
          final.program.types.get? type = some { form, symbol := some ref } →
          final.program.symbols.get? ref = some symbol →
          final.program.Visible after statement user.scope symbol := by
  have laid := laidOut_of_layOut built
  have intact := Program.intact_of_laidOut laid
  have composed := Program.composed_of_layOut built
  obtain ⟨before, listed, resolves⟩ := resolvesAll_of_walkProgram ran
  have sound := (resolves.advance intact (Program.sound_refl source)).sound
  have sited := (Program.sited_refl composed.toLexical).steps intact resolves.steps
  obtain ⟨tracks, resolved⟩ := Program.resolved_of_walkProgram laid unreserved ran
  obtain ⟨after, read, supplements⟩ := sound.extension.supplements_preorder listed
  have grows := supplements.sublist
  refine ⟨before, after, listed, read, ?_⟩
  intro statement placed var user stored declares userStored visible type form ref symbol
    typed typeStored symbolStored
  have isRead : statement ∈ after :=
    grows.subset ((laid.statements statement placed stored).1.mem_preorder listed)
  obtain ⟨_, canonical, again, current, represents, -⟩ :=
    resolved var (Program.mem_declaredVariables_iff.mpr ⟨statement, placed, stored, declares⟩)
  cases Option.mem_unique userStored again
  rw [Program.typeOf?_eq_some current] at typed
  cases typed
  -- The type is canonical from the start, or has a declaration that the run has added.
  rcases represents with ⟨fixed, rfl⟩ | ⟨-, other, record, text, isNew, recordStored, rfl, named,
    called⟩
  · obtain ⟨original, originalStored⟩ := tracks.declared_of_fixed fixed typeStored
    obtain ⟨record, recordStored, -⟩ := laid.declared _ _ _ originalStored
    obtain ⟨type, kept⟩ := sound.extension.symbols _ record recordStored
    cases Option.mem_unique symbolStored kept
    exact (visible _ (Program.mem_chain_self _) _ _ record originalStored
      recordStored).of_continues sited.continues grows type
  · obtain ⟨_, later, -, found, -⟩ := (tracks.synthesized other record isNew recordStored).node
    cases (Program.node_unique typeStored found).2
    cases Option.mem_unique symbolStored recordStored
    exact sound.visible_of_new composed laid unreserved distinct tracks sited empty grows read
      stored declares userStored isRead visible isNew symbolStored typeStored named called

def blockCalls : List Call :=
  [.addModule, .addType .nominal, .declareType ⟨1⟩ "R" ⟨7⟩, .addType (.sequence ⟨7⟩),
    .declareVar ⟨1⟩ "rows" ⟨8⟩, .addBlock ⟨1⟩, .addType (.sequence ⟨7⟩),
    .declareVar ⟨2⟩ "more" ⟨9⟩]

/-- The variable in the block sees the sequence that is declared for the one outside. -/
theorem variableTypes_stay_visible_in_block :
    ∃ source final after symbol, layOut blockCalls = .ok source ∧
      (variableTypes .silent).walkProgram ⟨source, { journal := () }⟩ = .ok () final ∧
      final.program.preorder = .ok after ∧ final.program.typeOf? ⟨9⟩ = some ⟨8⟩ ∧
      final.program.types.get? ⟨8⟩ = some { form := .sequence ⟨7⟩, symbol := some ⟨10⟩ } ∧
      final.program.symbols.get? ⟨10⟩ = some symbol ∧
      final.program.Visible after ⟨3⟩ ⟨3⟩ symbol := by
  obtain ⟨source, isBuilt, empty, unreserved, distinct, ⟨more, moreStored, moreType, moreScope⟩,
      outer, inner, ⟨record, recordStored, recordScope, defined⟩, ⟨content, scopeStored, nested⟩,
      ⟨placed, placedStored, declares⟩, ⟨order, isOrder, sublist⟩, final, isFinal, typed,
      stored, found⟩ :
    ∃ source ∈ (layOut blockCalls).toOption,
      (∀ content, source.layout.bodies.get? Program.sharedBody = some content →
        content.order = []) ∧ source.Unreserved ∧ source.TypeNamesDistinct ∧
      (∃ more ∈ source.symbols.get? ⟨9⟩, more.type = ⟨9⟩ ∧ more.scope = ⟨3⟩) ∧
      source.types.get? ⟨9⟩ = some { form := .sequence ⟨7⟩ } ∧
      source.types.get? ⟨7⟩ = some { form := .nominal, symbol := some ⟨7⟩ } ∧
      (∃ record ∈ source.symbols.get? ⟨7⟩, record.scope = ⟨2⟩ ∧
        record.definition = .statement ⟨0⟩) ∧
      (∃ content ∈ source.scopes.get? ⟨3⟩, content.parent = some ⟨2⟩) ∧
      (∃ placed ∈ source.layout.statements.get? ⟨3⟩,
        placed.statement.kind = .varDeclaration ⟨9⟩) ∧
      (∃ order ∈ source.preorder.toOption, [⟨0⟩, ⟨3⟩].Sublist order) ∧
      ∃ final ∈ finished? ((variableTypes .silent).walkProgram ⟨source, { journal := () }⟩),
        final.program.typeOf? ⟨9⟩ = some ⟨8⟩ ∧
        final.program.types.get? ⟨8⟩ = some { form := .sequence ⟨7⟩, symbol := some ⟨10⟩ } ∧
        (final.program.symbols.get? ⟨10⟩).isSome := by
    decide +kernel
  have built := Except.toOption_eq_some_iff.mp isBuilt
  have ran := finished?_eq_some_iff.mp isFinal
  obtain ⟨symbol, symbolStored⟩ := Option.isSome_iff_exists.mp found
  obtain ⟨before, after, listed, read, stays⟩ :=
    variableTypes_stay_visible built empty unreserved distinct ran
  cases Except.ok.inj ((Except.toOption_eq_some_iff.mp isOrder).symm.trans listed)
  refine ⟨source, final, after, symbol, built, ran, read, typed, stored, symbolStored, ?_⟩
  rw [← moreScope]
  refine stays ⟨3⟩ placed ⟨9⟩ more placedStored declares moreStored ?_ ⟨8⟩ _ ⟨10⟩ symbol typed
    stored symbolStored
  intro part member form ref named partStored namedStored
  rw [moreType] at member
  rcases Program.mem_chain_cases member with rfl | ⟨_, _, outerStored, isElement, member⟩
  · cases (Program.node_unique outer partStored).2
  · cases (Program.node_unique outer outerStored).1
    cases isElement
    rcases Program.mem_chain_cases member with rfl | ⟨_, _, innerStored, -⟩
    · cases (Program.node_unique inner partStored).2
      cases Option.mem_unique recordStored namedStored
      exact .inr ⟨⟨0⟩, defined, sublist, moreScope ▸ recordScope ▸ .parent scopeStored nested .self⟩
    · cases (Program.node_unique inner innerStored).2

end StructuralTypes
