import StructuralTypes.Proofs.Extension

/-! Whatever canonicalization adds is in order: the declaration of a type under the name of its
key, linked and bound in its scope. That holds of every program, whatever its scopes bind; only
what a type settles on depends on the names that were bound before the run. -/

namespace StructuralTypes

namespace Program

/-! ## Elements below elements -/

/-- `part` is `type`, its element, the element of that, and so on, as far as the types on the
way have no declaration. -/
inductive Nests (program : Program) : TypeRef → TypeRef → Prop
  | self {type : TypeRef} : Nests program type type
  | element {type element part : TypeRef} {form : TypeForm}
      (stored : program.types.get? type = some { form, symbol := none })
      (found : form.element? = some element) (rest : Nests program element part) :
      Nests program type part

variable {program before middle after : Program}

theorem ne_of_shape_ne {left right : TypeRef} {first second : TypeForm}
    {leftSymbol rightSymbol : Option SymbolRef}
    (leftStored : program.types.get? left = some { form := first, symbol := leftSymbol })
    (rightStored : program.types.get? right = some { form := second, symbol := rightSymbol })
    (shapes : first.shape ≠ second.shape) : left ≠ right := by
  intro same
  subst same
  rcases node_unique leftStored rightStored with ⟨rfl, -⟩
  exact shapes rfl

theorem ne_of_new {var ref : SymbolRef} {old : Symbol}
    (stored : program.symbols.get? var = some old) (isNew : program.symbols.get? ref = none) :
    var ≠ ref := by
  intro same
  subst same
  rw [stored] at isNew
  contradiction

theorem Nests.snoc {type outer part : TypeRef} {form : TypeForm}
    (nests : program.Nests type outer)
    (stored : program.types.get? outer = some { form, symbol := none })
    (found : form.element? = some part) : program.Nests type part := by
  induction nests with
  | self => exact .element stored found .self
  | element typeStored typeFound _ induction =>
      exact .element typeStored typeFound (induction stored)

theorem Nests.eq_self {type part : TypeRef} {form : TypeForm} {symbol : Option SymbolRef}
    (nests : program.Nests type part) (stored : program.types.get? type = some { form, symbol })
    (bottom : symbol = none → form.element? = none) : part = type := by
  cases nests with
  | self => rfl
  | element again found _ =>
      rcases node_unique stored again with ⟨rfl, rfl⟩
      rw [bottom rfl] at found
      contradiction

theorem not_nests_of_bottom {type outer : TypeRef} {inner form : TypeForm}
    {symbol : Option SymbolRef} (here : program.types.get? type = some { form := inner, symbol })
    (bottom : symbol = none → inner.element? = none)
    (stored : program.types.get? outer = some { form, symbol := none })
    (found : form.element? = some type) : ¬program.Nests type outer := by
  intro nests
  cases nests.eq_self here bottom
  rcases node_unique here stored with ⟨rfl, rfl⟩
  rw [bottom rfl] at found
  contradiction

theorem not_nests_of_element {type element outer : TypeRef} {inner form : TypeForm}
    (here : program.types.get? type = some { form := inner, symbol := none })
    (below : inner.element? = some element) (acyclic : ¬program.Nests element type)
    (stored : program.types.get? outer = some { form, symbol := none })
    (found : form.element? = some type) : ¬program.Nests type outer := by
  intro nests
  cases nests with
  | self =>
      rcases node_unique here stored with ⟨rfl, -⟩
      cases Option.mem_unique below found
      exact acyclic .self
  | element again againFound rest =>
      rcases node_unique here again with ⟨rfl, -⟩
      cases Option.mem_unique below againFound
      exact acyclic (rest.snoc stored found)

/-- What can be canonicalized nests no type around itself: the computation would not end. -/
theorem Canonicalizes.not_nests {scope : ScopeRef} {type canonical outer : TypeRef}
    {form : TypeForm} (canonicalizes : before.Canonicalizes scope type canonical after)
    (stored : before.types.get? outer = some { form, symbol := none })
    (found : form.element? = some type) : ¬before.Nests type outer := by
  induction canonicalizes generalizing outer form with
  | kept here => exact not_nests_of_bottom here (by simp) stored found
  | scalar here scalar =>
      exact not_nests_of_bottom here (fun _ => TypeForm.element?_of_scalar scalar) stored found
  | index here | domain here | tuple here =>
      exact not_nests_of_bottom here (fun _ => rfl) stored found
  | sequence here _ _ _ _ _ _ induction | array here _ _ _ _ _ _ _ _ induction =>
      exact not_nests_of_element here rfl (induction here rfl) stored found

theorem Canonicalizes.nests_of_changed {scope : ScopeRef} {type canonical other : TypeRef}
    (canonicalizes : before.Canonicalizes scope type canonical after)
    (changed : after.types.get? other ≠ before.types.get? other) : before.Nests type other := by
  -- What changes at a type with an element is the type itself or changed with the element.
  have nested : ∀ {before middle after : Program} {home : ScopeRef} {type element inner canonical
        other : TypeRef} {text : String} {form : TypeForm} {finish : TypeForm → TypeForm}
        {placement : Placement} {types : Arena .type TypeNode},
      before.types.get? type = some { form, symbol := none } → form.element? = some element →
      middle.types.modify type
        (fun node => { node with form := node.form.withElement inner }) = .ok types →
      { middle with types }.Settles home text type finish placement canonical after →
      (middle.types.get? other ≠ before.types.get? other → before.Nests element other) →
      after.types.get? other ≠ before.types.get? other → before.Nests type other := by
    intro before middle after home type element inner canonical other text form finish placement
      types here found rewritten settles inside changed
    by_cases isType : other = type
    · exact isType ▸ .self
    · refine .element here found (inside fun same => changed ?_)
      rw [settles.type_other isType, ← same]
      exact Arena.get?_of_modify_of_ne rewritten (Ne.symm isType)
  induction canonicalizes with
  | kept | scalar => exact absurd rfl changed
  | @index after type canonical subject key stored keyed settles =>
      by_cases isType : other = type
      · exact isType ▸ .self
      · exact absurd (settles.type_other isType) changed
  | @domain after type canonical rank companion types stored ranked settles =>
      by_cases isType : other = type
      · exact isType ▸ .self
      · refine absurd ?_ changed
        rw [settles.type_other isType]
        exact Arena.get?_of_modify_of_ne ranked (Ne.symm isType)
  | @tuple after type canonical components text stored named settles =>
      by_cases isType : other = type
      · exact isType ▸ .self
      · exact absurd (settles.type_other isType) changed
  | sequence stored _ rewritten _ _ _ settles induction =>
      exact nested stored rfl rewritten settles induction changed
  | array stored _ rewritten _ _ _ _ _ settles induction =>
      exact nested stored rfl rewritten settles induction changed

theorem Canonicalizes.outer_kept {scope : ScopeRef} {element inner outer : TypeRef}
    {form : TypeForm} (canonicalizes : before.Canonicalizes scope element inner middle)
    (stored : before.types.get? outer = some { form, symbol := none })
    (found : form.element? = some element) :
    middle.types.get? outer = some { form, symbol := none } := by
  refine (Classical.byContradiction fun changed => ?_ : _ = before.types.get? outer).trans stored
  exact canonicalizes.not_nests stored found (canonicalizes.nests_of_changed changed)

/-! ## Keys of forms -/

/-- `key` is the key of `form`, as the names of its parts stand. -/
inductive Fits (program : Program) : TypeForm → CanonicalKey → Prop
  | array {element domain : TypeRef} {range : ExpressionRef} {rank recorded : Nat}
      {text : String} (name : program.typeName? element = .ok (some text))
      (ranked : program.rank? domain = some recorded)
      (ranks : effectiveRank recorded = effectiveRank rank) :
      Fits program (.array element range (some domain)) (.array text rank)
  | sequence {element : TypeRef} {text : String}
      (name : program.typeName? element = .ok (some text)) :
      Fits program (.sequence element) (.sequence text)
  | tuple {components : List TypeRef} {text : TypeRef → String}
      (named : ∀ component ∈ components,
        program.typeName? component = .ok (some (text component))) :
      Fits program (.tuple components) (.tuple (components.map text))
  | domain {rank explicit : Nat} {companion : Option TypeRef}
      (ranks : effectiveRank explicit = effectiveRank rank) :
      Fits program (.domain explicit none companion) (.domain rank)
  /-- A companion is named after its domain and not after what it is over. -/
  | index {subject : ExpressionRef} {key : CanonicalKey} (isIndex : key.shape = .index) :
      Fits program (.index subject) key

namespace Fits

variable {form later : TypeForm} {key : CanonicalKey}

theorem shape_eq (fits : program.Fits form key) : form.shape = key.shape := by
  cases fits with
  | index isIndex => exact isIndex.symm
  | _ => rfl

theorem not_scalar (fits : program.Fits form key) : ¬form.Scalar := by
  intro scalar
  rw [TypeForm.Scalar, fits.shape_eq] at scalar
  rcases scalar with isPrimitive | isNominal
  · exact key.shape_structural.1 isPrimitive
  · exact key.shape_structural.2 isNominal

theorem of_extends (extension : Extends before after) (recompanions : form.Recompanions later)
    (fits : before.Fits form key) : after.Fits later key := by
  cases fits with
  | array name ranked ranks =>
      cases recompanions
      rcases extension.rank? ranked with ⟨explicit, rankedStill, same⟩
      exact .array (extension.typeName? name) rankedStill (same.trans ranks)
  | sequence name =>
      cases recompanions
      exact .sequence (extension.typeName? name)
  | tuple named =>
      cases recompanions
      exact .tuple fun component member => extension.typeName? (named component member)
  | domain ranks => cases recompanions <;> exact .domain ranks
  | index isIndex =>
      cases recompanions
      exact .index isIndex

theorem exists_element (fits : program.Fits form key) {other : CanonicalKey}
    (same : key.name = other.name) {text : String} (based : other.element? = some text) :
    ∃ element, form.element? = some element ∧
      program.typeName? element = .ok (some text) := by
  rw [← CanonicalKey.element?_eq_of_name_eq same] at based
  cases fits with
  | array name | sequence name =>
      cases based
      exact ⟨_, rfl, name⟩
  | index isIndex =>
      cases key <;> simp [CanonicalKey.shape, CanonicalKey.element?] at isIndex based
  | _ => cases based

theorem typeNames?_eq {components : List TypeRef} {text : TypeRef → String}
    (named : ∀ component ∈ components,
      program.typeName? component = .ok (some (text component))) :
    program.typeNames? components = .ok (some (components.map text)) := by
  induction components with
  | nil => rfl
  | cons head tail induction =>
      simp only [typeNames?, named head List.mem_cons_self,
        induction fun component member => named component (List.mem_cons_of_mem _ member), bind,
        Except.bind, pure, Except.pure, Option.map_some, List.map_cons]

theorem domainRank?_eq {type : TypeRef} {rank : Nat} (ranked : program.rank? type = some rank) :
    program.domainRank? type = .ok (some rank) := by
  rcases rank?_eq_some_iff.mp ranked with ⟨parent, companion, symbol, stored⟩
  simp only [domainRank?, form_eq_ok_iff.mpr ⟨symbol, stored⟩, bind, Except.bind, pure, Except.pure]

theorem canonicalName?_eq {type : TypeRef} {symbol : Option SymbolRef}
    (stored : program.types.get? type = some { form, symbol }) (fits : program.Fits form key)
    (notIndex : form.shape ≠ .index) : program.canonicalName? type = .ok (some key.name) := by
  have isForm := form_eq_ok_iff.mpr ⟨symbol, stored⟩
  cases fits with
  | array name ranked ranks =>
      simp only [canonicalName?, canonicalKey?, isForm, domainRank?_eq ranked, name, bind,
        Except.bind, pure, Except.pure, Option.map_some, CanonicalKey.name_array_congr ranks]
  | sequence name =>
      simp only [canonicalName?, canonicalKey?, isForm, name, bind, Except.bind, pure, Except.pure,
        Option.map_some]
  | tuple named =>
      simp only [canonicalName?, canonicalKey?, isForm, typeNames?_eq named, bind, Except.bind,
        pure, Except.pure, Option.map_some]
  | domain ranks =>
      simp only [canonicalName?, canonicalKey?, isForm, bind, Except.bind, pure, Except.pure,
        Option.map_some, CanonicalKey.name_domain_congr ranks]
  | index => exact absurd rfl notIndex

end Fits

/-! ## Declarations that are in order -/

/-- `symbol` declares its type by a synthesized statement with a place, is bound in its scope,
and has the name of a key that fits its type. -/
structure ProperlyDeclared (program : Program) (ref : SymbolRef) (symbol : Symbol) : Prop where
  kind : symbol.kind = .type
  placed : ∃ declaration body, symbol.definition = .statement declaration ∧
    program.layout.statements.get? declaration =
      some { statement := .synthesizedType ref, body := some body }
  bound : program.Binds symbol.scope symbol.name ref
  keyed : ∃ form key, program.types.get? symbol.type = some { form, symbol := some ref } ∧
    program.names.get? symbol.name = some key.name ∧ program.Fits form key

theorem ProperlyDeclared.of_extends (extension : Extends before after) {ref : SymbolRef}
    {symbol : Symbol} (proper : before.ProperlyDeclared ref symbol) :
    after.ProperlyDeclared ref symbol where
  kind := proper.kind
  placed := by
    rcases proper.placed with ⟨declaration, body, defined, stored⟩
    exact ⟨declaration, body, defined, extension.layout.statements _ _ stored⟩
  bound := extension.binds _ _ _ proper.bound
  keyed := by
    rcases proper.keyed with ⟨form, key, stored, named, fits⟩
    rcases extension.types _ form _ stored with ⟨later, holder, found, -, kept⟩
    rcases kept ref rfl with ⟨rfl, recompanions⟩
    exact ⟨later, key, found, extension.names _ _ named, fits.of_extends extension recompanions⟩

/-- `current` is what a run that started from `source` has arrived at. -/
structure Sound (source current : Program) : Prop where
  extension : Extends source current
  bound : ∀ scope name ref, current.Binds scope name ref →
    source.Binds scope name ref ∨
      source.symbols.get? ref = none ∧
        ∃ symbol, current.symbols.get? ref = some symbol ∧ symbol.name = name ∧
          symbol.scope = scope
  declared : ∀ ref symbol, source.symbols.get? ref = none →
    current.symbols.get? ref = some symbol → current.ProperlyDeclared ref symbol
  original : ∀ ref symbol, source.symbols.get? ref = none →
    current.symbols.get? ref = some symbol → ∃ form,
      source.types.get? symbol.type = some { form, symbol := none }

/-- A run takes a program to one that has all it had, and adds nothing that is not in order. -/
structure Advance (source before after : Program) : Prop where
  sound : Sound source after
  extension : Extends before after

variable {source : Program}

theorem sound_refl (source : Program) : Sound source source where
  extension := .refl source
  bound _ _ _ binds := .inl binds
  declared ref symbol missing stored := by
    rw [missing] at stored
    contradiction
  original ref symbol missing stored := by
    rw [missing] at stored
    contradiction

theorem Sound.advance_refl (sound : Sound source before) : Advance source before before :=
  ⟨sound, .refl before⟩

theorem Advance.trans (first : Advance source before middle)
    (second : Advance source middle after) : Advance source before after :=
  ⟨second.sound, first.extension.trans second.extension⟩

namespace Sound

theorem next_symbol (sound : Sound source before) :
    source.symbols.get? before.symbols.next = none :=
  Arena.get?_next_of_kept fun symbol found => by
    rcases sound.extension.symbols _ symbol found with ⟨_, kept⟩
    exact ⟨_, kept⟩

theorem anonymous_source (sound : Sound source before) {type : TypeRef} {form : TypeForm}
    (stored : before.types.get? type = some { form, symbol := none }) :
    ∃ old, source.types.get? type = some { form := old, symbol := none } ∧ old.Rewrites form := by
  rcases sound.extension.stored_before stored with ⟨⟨old, holder⟩, found⟩
  rcases sound.extension.types type old holder found with ⟨later, _, again, rewrites, kept⟩
  rcases node_unique stored again with ⟨rfl, rfl⟩
  cases holder with
  | none => exact ⟨old, found, rewrites⟩
  | some ref => simpa using (kept ref rfl).1

theorem advance (sound : Sound source before) (extension : Extends before after)
    (scopes : after.scopes = before.scopes)
    (older : ∀ ref symbol, source.symbols.get? ref = none →
      after.symbols.get? ref = some symbol → before.symbols.get? ref = some symbol) :
    Advance source before after := by
  refine ⟨⟨sound.extension.trans extension, ?_, ?_, ?_⟩, extension⟩
  · intro scope name ref binds
    rw [Binds, scopes] at binds
    rcases sound.bound scope name ref binds with old | ⟨isNew, symbol, stored, sameName, sameScope⟩
    · exact .inl old
    · rcases extension.symbols ref symbol stored with ⟨type, found⟩
      exact .inr ⟨isNew, _, found, sameName, sameScope⟩
  · intro ref symbol isNew stored
    exact (sound.declared ref symbol isNew (older ref symbol isNew stored)).of_extends extension
  · intro ref symbol isNew stored
    exact sound.original ref symbol isNew (older ref symbol isNew stored)

theorem changeForm (sound : Sound source before) {type : TypeRef} {form : TypeForm}
    {symbol : Option SymbolRef} {change : TypeForm → TypeForm} {types : Arena .type TypeNode}
    (stored : before.types.get? type = some { form, symbol })
    (rewrites : form.Rewrites (change form))
    (recompanions : symbol ≠ none → form.Recompanions (change form))
    (elements : ∀ element, (change form).element? = some element →
      before.Named element ∨ form.element? = some element)
    (modified : before.types.modify type (fun node => { node with form := change node.form }) =
      .ok types) : Advance source before { before with types } :=
  sound.advance (.changeForm stored rewrites recompanions elements modified) rfl
    fun _ _ _ stored => stored

theorem withRank (sound : Sound source before) {type : TypeRef} {rank : Nat}
    {parent companion : Option TypeRef} {types : Arena .type TypeNode}
    (stored : before.types.get? type =
      some { form := .domain rank parent companion, symbol := none })
    (ranked : before.types.modify type
      (fun node => { node with form := node.form.withRank (effectiveRank rank) }) = .ok types) :
    Advance source before { before with types } :=
  sound.changeForm stored (.domain (.inr rfl) rfl) (by simp)
    (fun _ found => .inr found) ranked

theorem setSymbolType (sound : Sound source before) {var : SymbolRef} {old : Symbol}
    {type : TypeRef} {symbols : Arena .symbol Symbol}
    (stored : source.symbols.get? var = some old)
    (modified : before.symbols.modify var (fun symbol => { symbol with type }) = .ok symbols) :
    Advance source before { before with symbols } := by
  refine sound.advance (.setSymbolType modified) rfl ?_
  intro ref symbol isNew found
  exact (Arena.get?_of_modify_of_ne modified (ne_of_new stored isNew)).symm.trans found

end Sound

/-! ## Settling -/

theorem Introduces.advance (sound : Sound source before) {scope : ScopeRef} {content : Scope}
    {key : CanonicalKey} {fresh : TypeRef} {form : TypeForm} {finish : TypeForm → TypeForm}
    {position : Position} (anonymous : before.types.get? fresh = some { form, symbol := none })
    (rewrites : form.Rewrites (finish form)) (fits : before.Fits (finish form) key)
    (stored : before.scopes.get? scope = some content)
    (free : content.lookup (before.names.intern key.name).1 = none)
    (introduces : before.Introduces scope key.name fresh finish position after) :
    Advance source before after := by
  have extension := introduces.extends anonymous rewrites stored free
  refine ⟨⟨sound.extension.trans extension, ?_, ?_, ?_⟩, extension⟩
  · exact fun other name ref binds =>
      introduces.bound_cases sound.next_symbol sound.bound binds
  · intro ref symbol isNew found
    rw [introduces.symbols] at found
    rcases Arena.eq_next_or_get?_of_push found with ⟨rfl, rfl⟩ | old
    · rcases introduces.new_statement with ⟨body, statements⟩
      refine ⟨rfl, ⟨_, body, rfl, ?_⟩, introduces.binds_iff.mpr (by simp),
        finish form, key, introduces.type_same anonymous, introduces.new_name,
        fits.of_extends extension (.same _)⟩
      rw [statements]
      exact Arena.get?_push_next ..
    · exact (sound.declared ref symbol isNew old).of_extends extension
  · intro ref symbol isNew found
    rw [introduces.symbols] at found
    rcases Arena.eq_next_or_get?_of_push found with ⟨-, rfl⟩ | old
    · rcases sound.anonymous_source anonymous with ⟨original, originalStored, -⟩
      exact ⟨original, originalStored⟩
    · exact sound.original ref symbol isNew old

theorem Settles.advance (sound : Sound source before) {scope : ScopeRef} {key : CanonicalKey}
    {fresh canonical : TypeRef} {form : TypeForm} {finish : TypeForm → TypeForm}
    {placement : Placement} (anonymous : before.types.get? fresh = some { form, symbol := none })
    (rewrites : form.Rewrites (finish form)) (fits : before.Fits (finish form) key)
    (settles : before.Settles scope key.name fresh finish placement canonical after) :
    Advance source before after := by
  cases settles with
  | reused => exact sound.advance (.intern before key.name) rfl fun _ _ _ stored => stored
  | created stored free _ introduces =>
      exact introduces.advance sound anonymous rewrites fits stored free

theorem Canonicalizes.replace {scope : ScopeRef} {type element inner : TypeRef}
    {form : TypeForm} {types : Arena .type TypeNode} {ref : SymbolRef} {text : String}
    (canonicalizes : before.Canonicalizes scope element inner middle)
    (inside : Advance source before middle)
    (stored : before.types.get? type = some { form, symbol := none })
    (found : form.element? = some element)
    (rewritten : middle.types.modify type
      (fun node => { node with form := node.form.withElement inner }) = .ok types)
    (named : { middle with types }.typeSymbol? inner = .ok (some ref))
    (name : middle.symbolName ref = .ok text) :
    Advance source before { middle with types } ∧
      types.get? type = some { form := form.withElement inner, symbol := none } ∧
      { middle with types }.typeName? inner = .ok (some text) := by
  have still := canonicalizes.outer_kept stored found
  rcases typeSymbol?_eq_ok_iff.mp named with ⟨innerForm, innerStored⟩
  have innerNamed : middle.Named inner := by
    rcases Arena.get?_eq_some_of_modify rewritten innerStored with ⟨⟨old, holder⟩, oldStored, same⟩
    refine ⟨old, ref, ?_⟩
    split at same <;> cases same <;> exact oldStored
  refine ⟨inside.trans (inside.sound.changeForm still (.withElement inner form) (by simp) ?_
    rewritten), ?_, ?_⟩
  · intro other isElement
    cases form with
    | array | sequence => exact .inl (Option.some.inj isElement ▸ innerNamed)
    | _ => cases found
  · rw [Arena.get?_of_modify_same rewritten, still]
    rfl
  · rcases symbolName_eq_ok_iff.mp name with ⟨symbol, symbolStored, isText⟩
    exact typeName?_eq_some_iff.mpr ⟨innerForm, ref, symbol, innerStored, symbolStored, isText⟩

theorem Canonicalizes.advance (sound : Sound source before) {scope : ScopeRef}
    {type canonical : TypeRef} (canonicalizes : before.Canonicalizes scope type canonical after) :
    Advance source before after := by
  induction canonicalizes with
  | kept | scalar => exact sound.advance_refl
  | index stored keyed settles =>
      refine settles.advance sound stored (.same _) (.index ?_)
      cases keyed <;> rfl
  | @domain after type canonical rank companion types stored ranked settles =>
      have ranking := sound.withRank stored ranked
      have here : types.get? type = some
          { form := .domain (effectiveRank rank) none companion, symbol := none } := by
        rw [Arena.get?_of_modify_same ranked, stored]
        rfl
      exact ranking.trans (settles.advance ranking.sound here (.same _)
        (.domain (effectiveRank_effectiveRank rank)))
  | tuple stored named settles => exact settles.advance sound stored (.same _) (.tuple named)
  | sequence stored nested rewritten named _ name settles induction =>
      rcases nested.replace induction stored rfl rewritten named name with
        ⟨replacing, here, elementName⟩
      exact replacing.trans (settles.advance replacing.sound here (.same _) (.sequence elementName))
  | array stored nested rewritten named _ name _ ranked settles induction =>
      rcases nested.replace induction stored rfl rewritten named name with
        ⟨replacing, here, elementName⟩
      exact replacing.trans
        (settles.advance replacing.sound here (by exact .array) (.array elementName ranked rfl))

theorem Adopts.advance (sound : Sound source before) {scope : ScopeRef}
    {type canonical : TypeRef} (adopts : before.Adopts scope type canonical after) :
    Advance source before after := by
  cases adopts with
  | scalar => exact sound.advance_refl
  | settled _ canonicalizes => exact canonicalizes.advance sound
  | twice _ canonicalizes _ again =>
      have first := canonicalizes.advance sound
      exact first.trans (again.advance first.sound)

/-! ## Whole runs -/

/-- References that a run may come across lead somewhere. One that leads nowhere could come to
lead to what the run adds. -/
structure Intact (program : Program) : Prop where
  names : ∀ scope name ref, program.Binds scope name ref →
    ∃ text, program.names.get? name = some text
  declarations : ∀ ref placed var, program.layout.statements.get? ref = some placed →
    placed.statement.kind = .varDeclaration var → ∃ symbol, program.symbols.get? var = some symbol
  definitions : ∀ ref symbol declaration, program.symbols.get? ref = some symbol →
    symbol.kind = .type → symbol.definition = .statement declaration →
    ∃ placed, program.layout.statements.get? declaration = some placed

theorem intact_of_laidOut (laid : LaidOut source) : source.Intact where
  names scope name ref binds := (laid.bindings scope name ref binds).1
  declarations ref placed var stored declares := by
    have declared : placed.statement.declared? = some var := by
      simp only [Statement.declared?, declares]
    rcases (laid.statements ref placed stored).2 var declared with ⟨symbol, found, -⟩
    exact ⟨symbol, found⟩
  definitions ref symbol declaration stored kind defined := by
    rcases laid.standing ref symbol stored kind with
      ⟨isAbsent, -⟩ | ⟨other, otherDefined, ⟨_, ⟨placed, _, found, -⟩, -⟩, -⟩
    · rw [isAbsent] at defined
      contradiction
    · rw [otherDefined] at defined
      cases Definition.statement.inj defined
      exact ⟨placed, found⟩

theorem Sound.variable_source (intact : source.Intact) (sound : Sound source before)
    {ref : StatementRef} {statement : Statement} {var : SymbolRef}
    (found : before.statement ref = .ok statement)
    (declares : statement.kind = .varDeclaration var) :
    source.DeclaredBy ref var ∧ ∃ symbol, source.symbols.get? var = some symbol := by
  rcases Layout.statement_eq_ok_iff.mp found with ⟨body, stored⟩
  rcases sound.extension.layout.synthesized ref _ stored with old | ⟨symbol, holder, same⟩
  · exact ⟨⟨_, old, declares⟩, intact.declarations ref _ var old declares⟩
  · cases same
    simp [Statement.synthesizedType] at declares

theorem Sound.kind_of_declaredBy (sound : Sound source before) {ref : StatementRef}
    {statement : Statement} {var : SymbolRef} (found : before.statement ref = .ok statement)
    (declared : source.DeclaredBy ref var) : statement.kind = .varDeclaration var := by
  rcases declared with ⟨placed, stored, declares⟩
  rcases Layout.statement_eq_ok_iff.mp found with ⟨_, again⟩
  cases Option.mem_unique (sound.extension.layout.statements ref placed stored) again
  exact declares

theorem Resolves.advance (intact : source.Intact) (sound : Sound source before)
    {ref : StatementRef} (resolves : before.Resolves ref after) :
    Advance source before after := by
  cases resolves with
  | declaration found declares stored adopts changed =>
      rcases sound.variable_source intact found declares with ⟨-, symbol, symbolOld⟩
      have adopting := adopts.advance sound
      exact adopting.trans (adopting.sound.setSymbolType symbolOld changed)
  | other => exact sound.advance_refl

theorem ResolvesAll.advance (intact : source.Intact) (sound : Sound source before)
    {order : List StatementRef} (resolves : before.ResolvesAll order after) :
    Advance source before after := by
  induction resolves with
  | nil => exact sound.advance_refl
  | cons first _ induction =>
      have entering := first.advance intact sound
      exact entering.trans (induction entering.sound)

theorem Visits.advance (sound : Sound source before) {statement : StatementRef}
    {type : TypeRef} (visits : before.Visits statement type after) :
    Advance source before after := by
  cases visits with
  | passed => exact sound.advance_refl
  | @settled rank parent companion canonical symbol subject text middle types stored anonymous
      name settles recorded =>
      have settling := settles.advance sound anonymous (.same _) (.index rfl)
      have different := ne_of_shape_ne stored anonymous (by simp [TypeForm.shape])
      exact settling.trans (settling.sound.changeForm
        ((settles.type_other different).trans stored) (by exact .domain (.inl rfl) rfl)
        (fun _ => by exact .domain) (fun _ found => .inr found) recorded)

theorem Completes.advance (sound : Sound source before) {statement : StatementRef}
    {types : List TypeRef} (completes : Completes statement before types after) :
    Advance source before after := by
  induction completes with
  | nil => exact sound.advance_refl
  | cons visits _ _ _ inner later =>
      have visiting := visits.advance sound
      have parting := inner visiting.sound
      exact (visiting.trans parting).trans (later parting.sound)

theorem CompletesAll.advance (sound : Sound source before) {order : List StatementRef}
    (completes : CompletesAll before order after) : Advance source before after := by
  induction completes with
  | nil => exact sound.advance_refl
  | declaration _ _ _ completes _ induction =>
      have completing := completes.advance sound
      exact completing.trans (induction completing.sound)
  | other _ _ _ induction => exact induction sound

/-! ## What a type settles on -/

/-- The run has declared `type` in `scope` under the name of `key`. -/
def DeclaredUnder (source current : Program) (key : CanonicalKey) (scope : ScopeRef)
    (type : TypeRef) : Prop :=
  ∃ ref symbol, source.symbols.get? ref = none ∧ current.symbols.get? ref = some symbol ∧
    symbol.type = type ∧ symbol.scope = scope ∧ current.names.get? symbol.name = some key.name

/-- A type that the run has declared has a form that the key fits, but for parts whose names
read like the names of others. -/
theorem Sound.node_of_declaredUnder (sound : Sound source before) {key : CanonicalKey}
    {scope : ScopeRef} {type : TypeRef} (declared : source.DeclaredUnder before key scope type) :
    ∃ form ref other, before.types.get? type = some { form, symbol := some ref } ∧
      before.Fits form other ∧ other.name = key.name ∧ form.shape = key.shape := by
  rcases declared with ⟨ref, symbol, isNew, stored, rfl, -, named⟩
  rcases (sound.declared ref symbol isNew stored).keyed with ⟨form, other, found, isName, fits⟩
  have same := Option.some.inj (isName.symm.trans named)
  exact ⟨form, ref, other, found, fits, same,
    fits.shape_eq.trans (CanonicalKey.shape_eq_of_name_eq same)⟩

theorem Sound.typeName?_of_declaredUnder (sound : Sound source before) {key : CanonicalKey}
    {scope : ScopeRef} {type : TypeRef} (declared : source.DeclaredUnder before key scope type) :
    before.typeName? type = .ok (some key.name) := by
  rcases declared with ⟨ref, symbol, isNew, stored, rfl, -, named⟩
  rcases (sound.declared ref symbol isNew stored).keyed with ⟨form, -, found, -, -⟩
  exact typeName?_eq_some_iff.mpr ⟨form, ref, symbol, found, stored, named⟩

theorem Settles.declaredUnder (intact : source.Intact) (sound : Sound source before)
    {scope : ScopeRef} {key : CanonicalKey} {fresh canonical : TypeRef}
    {finish : TypeForm → TypeForm} {placement : Placement}
    (free : key.name ∉ source.boundNames)
    (settles : before.Settles scope key.name fresh finish placement canonical after) :
    source.DeclaredUnder after key scope canonical := by
  cases settles with
  | @reused existing symbol bound stored =>
      rcases sound.bound _ _ _ bound with old | ⟨isNew, again, againStored, sameName, sameScope⟩
      · rcases intact.names _ _ _ old with ⟨text, named⟩
        have later := NameTable.get?_intern_of_get? key.name (sound.extension.names _ _ named)
        rw [NameTable.get?_intern] at later
        exact absurd (mem_boundNames old (named.trans later.symm)) free
      · cases Option.mem_unique stored againStored
        refine ⟨existing, symbol, isNew, stored, rfl, sameScope, ?_⟩
        rw [sameName]
        exact NameTable.get?_intern ..
  | created _ _ _ introduces =>
      exact ⟨_, _, sound.next_symbol, introduces.new_symbol, rfl, rfl, introduces.new_name⟩

theorem Unreserved.free (unreserved : source.Unreserved) (key : CanonicalKey) :
    key.name ∉ source.boundNames :=
  fun member => unreserved _ member key.reserved_name

/-- What has no declaration yet settles on a type that the run has declared, unless it is
complete in itself. -/
theorem Canonicalizes.kept_or_declaredUnder (intact : source.Intact)
    (unreserved : source.Unreserved) (sound : Sound source before) {scope : ScopeRef}
    {type canonical : TypeRef} (canonicalizes : before.Canonicalizes scope type canonical after) :
    (canonical = type ∧ after = before ∧ ∃ form holder,
      before.types.get? type = some { form, symbol := holder } ∧
      (holder = none → form.Scalar)) ∨
    ∃ key home, source.DeclaredUnder after key home canonical := by
  have settled : ∀ {middle : Program} {home : ScopeRef} {key : CanonicalKey}
      {finish : TypeForm → TypeForm} {placement : Placement}, Sound source middle →
      middle.Settles home key.name type finish placement canonical after →
      ∃ key home, source.DeclaredUnder after key home canonical :=
    fun soundMiddle settles =>
      ⟨_, _, settles.declaredUnder intact soundMiddle (unreserved.free _)⟩
  cases canonicalizes with
  | kept stored => exact .inl ⟨rfl, rfl, _, _, stored, by simp⟩
  | scalar stored scalar => exact .inl ⟨rfl, rfl, _, _, stored, fun _ => scalar⟩
  | index _ _ settles | tuple _ _ settles => exact .inr (settled sound settles)
  | domain stored ranked settles =>
      have ranking := sound.withRank stored ranked
      exact .inr (settled ranking.sound settles)
  | sequence stored nested rewritten named _ name settles
  | array stored nested rewritten named _ name _ _ settles =>
      rcases nested.replace (nested.advance sound) stored rfl rewritten named name with
        ⟨replacing, -⟩
      exact .inr (settled replacing.sound settles)

theorem Canonicalizes.named (intact : source.Intact) (unreserved : source.Unreserved)
    (sound : Sound source before) {scope : ScopeRef} {type canonical : TypeRef}
    (canonicalizes : before.Canonicalizes scope type canonical after) :
    after.Named canonical ∨ canonical = type ∧ after = before ∧
      ∃ form, before.types.get? type = some { form, symbol := none } ∧ form.Scalar := by
  rcases canonicalizes.kept_or_declaredUnder intact unreserved sound with
    ⟨rfl, rfl, form, holder, stored, scalar⟩ | ⟨key, home, declared⟩
  · cases holder with
    | none => exact .inr ⟨rfl, rfl, form, stored, scalar rfl⟩
    | some ref => exact .inl ⟨form, ref, stored⟩
  · rcases (canonicalizes.advance sound).sound.node_of_declaredUnder declared with
      ⟨form, ref, -, stored, -⟩
    exact .inl ⟨form, ref, stored⟩

end Program

end StructuralTypes
