import StructuralTypes.Proofs.Tracking

/-! Canonicalization keeps track. Each rule takes a program that a run has arrived at to
another one, and the type at its end represents the type that it started with; so the
walk over the variables leaves each of them with a type that represents its own. -/

namespace StructuralTypes

namespace Program

variable {source before after : Program}

theorem Keeps.synthesized (keeps : Keeps source before after) {ref : SymbolRef}
    {symbol : Symbol} (synthesized : source.Synthesized before ref symbol)
    (node : ∀ node, node.symbol = some ref → before.types.get? symbol.type = some node →
      after.types.get? symbol.type = some node)
    (bound : ∀ scope name, before.Binds scope name ref → after.Binds scope name ref) :
    source.Synthesized after ref symbol where
  definition := synthesized.definition
  called := by
    rcases synthesized.called with ⟨text, named, called⟩
    exact ⟨text, keeps.names _ _ named, called⟩
  node := by
    rcases synthesized.node with ⟨original, form, anonymous, stored, complete⟩
    exact ⟨original, form, anonymous, node _ rfl stored, keeps.complete complete⟩
  bound := bound _ _ synthesized.bound
  used := synthesized.used
  covered := keeps.covered synthesized.covered

/-! ## Single changes -/

theorem Tracks.intern (tracks : Tracks source before) (text : String) :
    Tracks source { before with names := (before.names.intern text).2 } ∧
      Keeps source before { before with names := (before.names.intern text).2 } := by
  have keeps : Keeps source before { before with names := (before.names.intern text).2 } :=
    ⟨fun _ _ named => NameTable.get?_intern_of_get? text named, fun _ _ _ stored => stored⟩
  refine ⟨?_, keeps⟩
  exact
    { expressions := tracks.expressions
      names := fun name other named => keeps.names _ _ (tracks.names name other named)
      distinct := NameTable.distinct_intern tracks.distinct text
      types := fun type form symbol stored => by
        rcases tracks.types type form symbol stored with ⟨later, holder, found, varies, same⟩
        exact ⟨later, holder, found, keeps.varies varies, same⟩
      older := tracks.older
      declared := tracks.declared
      symbols := fun ref symbol stored => by
        rcases tracks.symbols ref symbol stored with ⟨type, kept, stands⟩
        exact ⟨type, kept, stands.imp_right keeps.represents⟩
      synthesized := fun ref symbol fresh stored =>
        keeps.synthesized (tracks.synthesized ref symbol fresh stored)
          (fun _ _ found => found) (fun _ _ binds => binds)
      scopes := tracks.scopes
      kept := tracks.kept
      bound := tracks.bound
      modules := tracks.modules
      layout := tracks.layout }

section

variable {type : TypeRef} {form : TypeForm}
  (stored : before.types.get? type = some { form, symbol := none })
  (elsewhere : ∀ other, other ≠ type → after.types.get? other = before.types.get? other)

include stored elsewhere

theorem Keeps.synthesized_of_elsewhere (keeps : Keeps source before after) {ref : SymbolRef}
    {symbol : Symbol} (synthesized : source.Synthesized before ref symbol)
    (bound : ∀ scope name, before.Binds scope name ref → after.Binds scope name ref) :
    source.Synthesized after ref symbol := by
  refine keeps.synthesized synthesized (fun node declares found => ?_) bound
  refine (elsewhere _ fun isType => ?_).trans found
  rw [isType, stored] at found
  cases Option.some.inj found
  cases declares

variable (tracks : Tracks source before)
include tracks

theorem Tracks.types_of_elsewhere (keeps : Keeps source before after) {later : TypeForm}
    {holder : Option SymbolRef}
    (here : after.types.get? type = some { form := later, symbol := holder })
    (varies : ∀ original symbol, source.types.get? type = some { form := original, symbol } →
      source.Varies before original later) :
    ∀ other original symbol, source.types.get? other = some { form := original, symbol } →
      ∃ later holder, after.types.get? other = some { form := later, symbol := holder } ∧
        source.Varies after original later ∧ (symbol ≠ none → holder = symbol) := by
  intro other original symbol old
  rcases tracks.types other original symbol old with ⟨between, owner, found, same, sameOwner⟩
  by_cases isType : other = type
  · subst isType
    rcases node_unique stored found with ⟨rfl, rfl⟩
    exact ⟨_, _, here, keeps.varies (varies original symbol old),
      fun named => absurd (sameOwner named).symm named⟩
  · exact ⟨between, owner, (elsewhere other isType).trans found, keeps.varies same, sameOwner⟩

theorem Tracks.older_of_elsewhere (other : TypeRef) (node : TypeNode)
    (found : after.types.get? other = some node) :
    ∃ old, source.types.get? other = some old := by
  by_cases isType : other = type
  · exact isType ▸ tracks.older type _ stored
  · exact tracks.older other node ((elsewhere other isType).symm.trans found)

end

theorem Tracks.changeForm (tracks : Tracks source before) {type : TypeRef}
    {form : TypeForm} (stored : before.types.get? type = some { form, symbol := none })
    {change : TypeForm → TypeForm}
    (varies : ∀ original symbol, source.types.get? type = some { form := original, symbol } →
      source.Varies before original (change form))
    {types : Arena .type TypeNode}
    (modified : before.types.modify type (fun node => { node with form := change node.form }) =
      .ok types) :
    Tracks source { before with types } ∧ Keeps source before { before with types } := by
  have keeps : Keeps source before { before with types } :=
    ⟨fun _ _ named => named, fun _ _ _ found => found⟩
  have here : types.get? type = some { form := change form, symbol := none } := by
    rw [Arena.get?_of_modify_same modified, stored]
    rfl
  have elsewhere : ∀ other, other ≠ type → types.get? other = before.types.get? other :=
    fun other different => Arena.get?_of_modify_of_ne modified (Ne.symm different)
  refine ⟨?_, keeps⟩
  refine
    { expressions := tracks.expressions
      names := tracks.names
      distinct := tracks.distinct
      types := tracks.types_of_elsewhere stored elsewhere keeps here varies
      older := tracks.older_of_elsewhere stored elsewhere
      declared := ?_
      symbols := tracks.symbols
      synthesized := fun ref symbol isNew found =>
        keeps.synthesized_of_elsewhere stored elsewhere (tracks.synthesized ref symbol isNew found)
          fun _ _ binds => binds
      scopes := tracks.scopes
      kept := tracks.kept
      bound := tracks.bound
      modules := tracks.modules
      layout := tracks.layout }
  intro other original later ref old found
  by_cases isType : other = type
  · subst isType
    cases (node_unique here found).2
  · exact tracks.declared other original later ref old ((elsewhere other isType).symm.trans found)

theorem Tracks.next_symbol (tracks : Tracks source before) :
    source.symbols.get? before.symbols.next = none :=
  Arena.get?_next_of_kept fun symbol found => by
    rcases tracks.symbols _ symbol found with ⟨_, kept, -⟩
    exact ⟨_, kept⟩

theorem Introduces.keeps {scope : ScopeRef} {text : String} {fresh : TypeRef}
    {finish : TypeForm → TypeForm} {position : Position}
    (introduces : before.Introduces scope text fresh finish position after) :
    Keeps source before after :=
  ⟨fun _ _ named => introduces.old_name named, fun _ _ _ found => introduces.old_symbol found⟩

theorem Introduces.binds_kept {scope : ScopeRef} {text : String} {fresh : TypeRef}
    {finish : TypeForm → TypeForm} {position : Position} {content : Scope}
    (introduces : before.Introduces scope text fresh finish position after)
    (scopeStored : before.scopes.get? scope = some content)
    (free : content.lookup (before.names.intern text).1 = none) {other : ScopeRef}
    {name : NameRef} {ref : SymbolRef} (binds : before.Binds other name ref) :
    after.Binds other name ref := by
  rw [introduces.binds_iff, if_neg]
  · exact binds
  · intro holds
    rcases holds with ⟨rfl, rfl⟩
    rcases binds with ⟨again, againStored, lookedUp⟩
    cases Option.mem_unique scopeStored againStored
    rw [free] at lookedUp
    contradiction

section

variable {fresh : TypeRef} {original form : TypeForm} {text : String} {scope : ScopeRef}
  {finish : TypeForm → TypeForm} {position : Position} (tracks : Tracks source before)
  (anonymous : source.types.get? fresh = some { form := original, symbol := none })
  (called : source.Called fresh text scope)
  (introduces : before.Introduces scope text fresh finish position after)

include tracks anonymous called introduces

theorem Introduces.interns : source.Interns after fresh fresh :=
  ⟨⟨original, anonymous⟩, _, _, text, tracks.next_symbol, introduces.new_symbol, rfl,
    introduces.new_name, called⟩

theorem Introduces.covered
    (covered : ∀ part ∈ source.chain fresh, part ≠ fresh →
      ∃ canonical, source.Represents before part canonical) : source.Covered after fresh := by
  have interns := introduces.interns tracks anonymous called
  intro part member
  by_cases same : part = fresh
  · exact ⟨fresh, .inr (same ▸ interns)⟩
  · exact (covered part member same).imp fun _ => introduces.keeps.represents

variable (stored : before.types.get? fresh = some { form, symbol := none })
include stored

theorem Introduces.synthesized (complete : source.Complete before original (finish form))
    (used : ∃ scope, source.UsedIn scope fresh)
    (covered : ∀ part ∈ source.chain fresh, part ≠ fresh →
      ∃ canonical, source.Represents before part canonical)
    (kept : ∀ other name found, before.Binds other name found → after.Binds other name found)
    {ref : SymbolRef} {symbol : Symbol} (isNew : source.symbols.get? ref = none)
    (found : after.symbols.get? ref = some symbol) : source.Synthesized after ref symbol := by
  rw [introduces.symbols] at found
  rcases Arena.eq_next_or_get?_of_push found with ⟨rfl, rfl⟩ | old
  · exact
      { definition := ⟨_, rfl⟩
        called := ⟨text, introduces.new_name, called⟩
        node := ⟨original, finish form, anonymous, introduces.type_same stored,
          introduces.keeps.complete complete⟩
        bound := introduces.new_bound
        used := used
        covered := introduces.covered tracks anonymous called covered }
  · exact introduces.keeps.synthesized_of_elsewhere stored (fun _ => introduces.type_other)
      (tracks.synthesized ref symbol isNew old) (kept · · ref)

theorem Introduces.declared (type : TypeRef) (first later : TypeForm) (ref : SymbolRef)
    (old : source.types.get? type = some { form := first, symbol := none })
    (found : after.types.get? type = some { form := later, symbol := some ref }) :
    source.symbols.get? ref = none ∧
      ∃ symbol, after.symbols.get? ref = some symbol ∧ symbol.type = type := by
  rcases introduces.type_cases stored found with ⟨rfl, -, isNext⟩ | older
  · cases isNext
    exact ⟨tracks.next_symbol, _, introduces.new_symbol, rfl⟩
  · rcases tracks.declared type first later ref old older with
      ⟨isNew, symbol, symbolStored, same⟩
    exact ⟨isNew, symbol, introduces.old_symbol symbolStored, same⟩

theorem Tracks.introduce {content : Scope}
    (complete : source.Complete before original (finish form))
    (varies : source.Varies before original (finish form))
    (used : ∃ scope, source.UsedIn scope fresh)
    (covered : ∀ part ∈ source.chain fresh, part ≠ fresh →
      ∃ canonical, source.Represents before part canonical)
    (scopeStored : before.scopes.get? scope = some content)
    (free : content.lookup (before.names.intern text).1 = none) :
    Tracks source after ∧ Keeps source before after ∧
      source.Interns after fresh fresh := by
  have keeps : Keeps source before after := introduces.keeps
  have bindsKept : ∀ other name found, before.Binds other name found →
      after.Binds other name found :=
    fun _ _ _ binds => introduces.binds_kept scopeStored free binds
  refine ⟨?_, keeps, introduces.interns tracks anonymous called⟩
  refine
    { expressions := introduces.expressions.trans tracks.expressions
      names := fun name other named => keeps.names _ _ (tracks.names name other named)
      distinct := ?_
      types := ?_
      older := tracks.older_of_elsewhere stored fun _ => introduces.type_other
      declared := introduces.declared tracks anonymous called stored
      symbols := ?_
      synthesized := fun ref symbol => introduces.synthesized tracks anonymous called stored
        complete used covered bindsKept
      scopes := ?_
      kept := fun other name ref binds => bindsKept _ _ _ (tracks.kept other name ref binds)
      bound := fun _ _ _ => introduces.bound_cases tracks.next_symbol tracks.bound
      modules := introduces.modules.trans tracks.modules
      layout := tracks.layout.trans introduces.grows }
  · rw [introduces.names]
    exact NameTable.distinct_intern tracks.distinct text
  · refine tracks.types_of_elsewhere stored (fun _ => introduces.type_other) keeps
      (introduces.type_same stored) fun first symbol old => ?_
    cases (node_unique anonymous old).1
    exact varies
  · intro ref symbol old
    rcases tracks.symbols ref symbol old with ⟨type, kept, stands⟩
    exact ⟨type, introduces.old_symbol kept, stands.imp_right keeps.represents⟩
  · intro other inner found
    rcases tracks.scopes other inner found with ⟨between, betweenStored, same⟩
    rcases introduces.scope_kept betweenStored with ⟨later, laterStored, sameLater⟩
    exact ⟨later, laterStored, sameLater.trans same⟩

end

/-! ## Rules -/

/-- The step from `before` to `after` keeps track, and `canonical` represents `type`
after it. Nothing above `type` gets a declaration. -/
structure Carries (source before : Program) (type canonical : TypeRef) (after : Program) :
    Prop where
  tracks : Tracks source after
  keeps : Keeps source before after
  represents : source.Represents after type canonical
  covered : source.Covered after type
  above : ∀ other form, type.index < other.index →
    before.types.get? other = some { form, symbol := none } →
    ∃ later, after.types.get? other = some { form := later, symbol := none }

theorem Settles.carries (laid : LaidOut source) (unreserved : source.Unreserved)
    (tracks : Tracks source before) {fresh canonical : TypeRef}
    {original form : TypeForm} {text : String} {scope : ScopeRef}
    {finish : TypeForm → TypeForm} {placement : Placement}
    (anonymous : source.types.get? fresh = some { form := original, symbol := none })
    (stored : before.types.get? fresh = some { form, symbol := none })
    (called : source.Called fresh text scope)
    (complete : source.Complete before original (finish form))
    (varies : source.Varies before original (finish form))
    (used : ∃ scope, source.UsedIn scope fresh)
    (covered : ∀ part ∈ source.chain fresh, part ≠ fresh →
      ∃ canonical, source.Represents before part canonical)
    (settles : before.Settles scope text fresh finish placement canonical after) :
    source.Carries before fresh canonical after := by
  suffices steps : Tracks source after ∧ Keeps source before after ∧
      source.Interns after fresh canonical by
    rcases steps with ⟨tracksAfter, keeps, interns⟩
    refine ⟨tracksAfter, keeps, .inr interns, ?_, ?_⟩
    · intro part member
      by_cases same : part = fresh
      · exact ⟨canonical, .inr (same ▸ interns)⟩
      · rcases covered part member same with ⟨settled, represents⟩
        exact ⟨settled, keeps.represents represents⟩
    · intro other later above found
      have different : other ≠ fresh := by
        intro equal
        subst equal
        exact absurd above (Nat.lt_irrefl _)
      exact ⟨later, (settles.type_other different).trans found⟩
  cases settles with
  | @reused existing symbol bound symbolStored =>
      rcases tracks.intern text with ⟨tracksAfter, keeps⟩
      refine ⟨tracksAfter, keeps, ?_⟩
      -- No scope bound such a name at the start, so what is bound was added.
      rcases tracks.bound _ _ _ bound with old | ⟨isNew, again, againStored, sameName, sameScope⟩
      · rcases laid.bindings _ _ _ old with ⟨⟨oldText, oldNamed⟩, -⟩
        have sameText := tracksAfter.names _ _ oldNamed
        rw [show (before.names.intern text).2.get? (before.names.intern text).1 = some text
          from NameTable.get?_intern ..] at sameText
        cases Option.some.inj sameText
        exact absurd (called.reserved anonymous)
          (unreserved _ (mem_boundNames old oldNamed))
      · cases Option.mem_unique symbolStored againStored
        refine ⟨⟨original, anonymous⟩, existing, symbol, text, isNew, symbolStored, rfl, ?_,
          sameScope ▸ called⟩
        rw [sameName]
        exact NameTable.get?_intern ..
  | created scopeStored free located introduces =>
      exact tracks.introduce anonymous called introduces stored complete varies used covered
        scopeStored free

theorem Fixed.covered {current : Program} {type : TypeRef} (fixed : source.Fixed type) :
    source.Covered current type := by
  intro part member
  rcases mem_chain_cases member with rfl | ⟨form, element, stored, found, -⟩
  · exact ⟨part, .inl ⟨fixed, rfl⟩⟩
  · rw [TypeForm.element?_of_scalar (fixed.scalar stored)] at found
    contradiction

theorem Tracks.carries_kept (tracks : Tracks source before) {type : TypeRef}
    {form : TypeForm} {symbol : Option SymbolRef}
    (stored : before.types.get? type = some { form, symbol })
    (settled : symbol ≠ none ∨ form.Scalar) : source.Carries before type type before := by
  rcases tracks.form_source stored with ⟨original, holder, old, varies, sameHolder⟩
  have standing : source.Represents before type type ∧ source.Covered before type := by
    by_cases fixed : source.Fixed type
    · exact ⟨.inl ⟨fixed, rfl⟩, fixed.covered⟩
    · obtain rfl : holder = none := by
        cases holder with
        | none => rfl
        | some declaring => exact absurd ⟨original, _, old, .inl (by simp)⟩ fixed
      cases symbol with
      | none =>
          refine absurd ⟨original, _, old, .inr ?_⟩ fixed
          rcases settled with declared | scalar
          · exact absurd rfl declared
          · unfold TypeForm.Scalar at scalar ⊢
            rw [← varies.shape_eq]
            exact scalar
      | some ref =>
          rcases tracks.declared _ _ _ _ old stored with ⟨isNew, content, contentStored, rfl⟩
          have synthesized := tracks.synthesized ref content isNew contentStored
          rcases synthesized.called with ⟨text, named, called⟩
          exact ⟨.inr ⟨⟨original, old⟩, ref, content, text, isNew, contentStored, rfl, named,
            called⟩, synthesized.covered⟩
  exact ⟨tracks, .refl source before, standing.1, standing.2,
    fun _ later _ found => ⟨later, found⟩⟩

theorem Carries.follow {middle : Program} {type canonical : TypeRef}
    (carries : source.Carries middle type canonical after)
    (keeps : Keeps source before middle)
    (above : ∀ other form, type.index < other.index →
      before.types.get? other = some { form, symbol := none } →
      ∃ later, middle.types.get? other = some { form := later, symbol := none }) :
    source.Carries before type canonical after where
  tracks := carries.tracks
  keeps := keeps.trans carries.keeps
  represents := carries.represents
  covered := carries.covered
  above other form isAbove stored := by
    rcases above other form isAbove stored with ⟨later, found⟩
    exact carries.above other later isAbove found

theorem Tracks.anonymous_source (tracks : Tracks source before) {type : TypeRef}
    {later : TypeForm} (stored : before.types.get? type = some { form := later, symbol := none }) :
    ∃ form, source.types.get? type = some { form, symbol := none } ∧
      source.Varies before form later := by
  rcases tracks.form_source stored with ⟨form, symbol, old, varies, same⟩
  cases symbol with
  | none => exact ⟨form, old, varies⟩
  | some ref =>
      have contradictory := same (by simp)
      simp at contradictory

theorem Canonicalizes.eq_of_named {scope : ScopeRef} {type canonical : TypeRef}
    (canonicalizes : before.Canonicalizes scope type canonical after)
    {form : TypeForm} {ref : SymbolRef}
    (named : before.types.get? type = some { form, symbol := some ref }) :
    canonical = type ∧ after = before := by
  cases canonicalizes with
  | kept | scalar => exact ⟨rfl, rfl⟩
  | index stored | domain stored | tuple stored | sequence stored | array stored =>
      rw [named] at stored
      simp at stored

theorem Varies.element? {current : Program} {original later : TypeForm} {element : TypeRef}
    (varies : source.Varies current original later) (found : later.element? = some element) :
    ∃ first, original.element? = some first ∧ source.Replaces current first element := by
  cases varies with
  | same => exact ⟨element, found, .inl rfl⟩
  | array replaced _ | sequence replaced =>
      cases Option.some.inj found
      exact ⟨_, rfl, replaced⟩
  | domain => simp [TypeForm.element?] at found

theorem Varies.withElement {current : Program} {original later : TypeForm}
    {first inner : TypeRef} (varies : source.Varies current original later)
    (found : original.element? = some first)
    (replaces : source.Replaces current first inner) :
    source.Varies current original (later.withElement inner) := by
  cases varies with
  | same =>
      cases original <;> simp only [TypeForm.element?, Option.some.injEq, reduceCtorEq] at found
      · subst found
        exact .array replaces (.inl rfl)
      · subst found
        exact .sequence replaces
  | array _ records =>
      cases Option.some.inj found
      exact .array replaces records
  | sequence =>
      cases Option.some.inj found
      exact .sequence replaces
  | domain => simp [TypeForm.element?] at found

/-- From `before` to `middle`, the element `first` of `type` became canonical as `inner`.
With `types` it takes its place in the type. -/
structure ElementSettled (source before middle : Program) (types : Arena .type TypeNode)
    (type first inner : TypeRef) (original form later : TypeForm) : Prop where
  anonymous : source.types.get? type = some { form := original, symbol := none }
  element : original.element? = some first
  varies : source.Varies before original form
  carries : source.Carries before first inner middle
  laterVaries : source.Varies middle original later
  stored : types.get? type = some { form := later.withElement inner, symbol := none }
  tracks : Tracks source { middle with types }
  above : ∀ other form, type.index < other.index →
    before.types.get? other = some { form, symbol := none } →
    ∃ later, types.get? other = some { form := later, symbol := none }

theorem Tracks.settleElement (laid : LaidOut source) (tracks : Tracks source before)
    {scope : ScopeRef} {type element inner : TypeRef} {form : TypeForm} {middle : Program}
    {types : Arena .type TypeNode} (used : source.UsedIn scope type)
    (stored : before.types.get? type = some { form, symbol := none })
    (found : form.element? = some element)
    (nested : before.Canonicalizes scope element inner middle)
    (carries : source.UsedIn scope element → source.Carries before element inner middle)
    (rewritten : middle.types.modify type
      (fun node => { node with form := node.form.withElement inner }) = .ok types) :
    ∃ original first later,
      source.ElementSettled before middle types type first inner original form later := by
  rcases tracks.anonymous_source stored with ⟨original, anonymous, varies⟩
  rcases varies.element? found with ⟨first, firstFound, replaces⟩
  have below := element_below laid anonymous firstFound
  have firstCarries : source.Carries before first inner middle := by
    rcases replaces with rfl | ⟨represents, covered⟩
    · exact carries (used.element laid anonymous firstFound)
    · rcases represents with ⟨-, rfl⟩ | interns
      · exact carries (used.element laid anonymous firstFound)
      · -- The element was replaced on an earlier visit, so it has a declaration.
        rcases tracks.named_of_interns interns with ⟨_, _, named⟩
        rcases nested.eq_of_named named with ⟨rfl, rfl⟩
        exact ⟨tracks, .refl source _, .inr interns, covered,
          fun _ later _ same => ⟨later, same⟩⟩
  rcases firstCarries.above type form below stored with ⟨later, laterStored⟩
  rcases firstCarries.tracks.anonymous_source laterStored with ⟨again, anonymousAgain, laterVaries⟩
  rcases node_unique anonymous anonymousAgain with ⟨rfl, _⟩
  refine ⟨original, first, later, anonymous, firstFound, varies, firstCarries, laterVaries,
    ?_, ?_, ?_⟩
  · rw [Arena.get?_of_modify_same rewritten, laterStored]
    rfl
  · refine (firstCarries.tracks.changeForm laterStored ?_ rewritten).1
    intro other symbol otherStored
    rcases node_unique anonymous otherStored with ⟨rfl, -⟩
    exact laterVaries.withElement firstFound
      (.inr ⟨firstCarries.represents, firstCarries.covered⟩)
  · intro other otherForm above otherStored
    rcases firstCarries.above other otherForm (Nat.lt_trans below above) otherStored with
      ⟨kept, keptStored⟩
    have different : type ≠ other := by
      intro equal
      subst equal
      exact absurd above (Nat.lt_irrefl _)
    exact ⟨kept, (Arena.get?_of_modify_of_ne rewritten different).trans keptStored⟩

theorem Covered.above_element {current : Program} {type first : TypeRef} {form : TypeForm}
    (covered : source.Covered current first)
    (stored : source.types.get? type = some { form, symbol := none })
    (found : form.element? = some first) :
    ∀ part ∈ source.chain type, part ≠ type →
      ∃ canonical, source.Represents current part canonical := by
  intro part member different
  rcases mem_chain_cases member with same | ⟨other, element, again, foundAgain, inner⟩
  · exact absurd same different
  · rcases node_unique stored again with ⟨rfl, _⟩
    cases Option.mem_unique found foundAgain
    exact covered part inner

theorem eq_of_mem_chain {type part : TypeRef} {form : TypeForm} {symbol : Option SymbolRef}
    (stored : source.types.get? type = some { form, symbol })
    (leaf : form.element? = none) (member : part ∈ source.chain type) : part = type := by
  rcases mem_chain_cases member with same | ⟨other, element, again, found, -⟩
  · exact same
  · rcases node_unique stored again with ⟨rfl, -⟩
    rw [leaf] at found
    contradiction

theorem Settles.carries_leaf (laid : LaidOut source) (unreserved : source.Unreserved)
    (tracks : Tracks source before) {type canonical : TypeRef} {original form : TypeForm}
    {text : String} {scope home : ScopeRef} {placement : Placement}
    (anonymous : source.types.get? type = some { form := original, symbol := none })
    (leaf : original.element? = none)
    (stored : before.types.get? type = some { form, symbol := none })
    (varies : source.Varies before original form)
    (called : source.Called type text home) (used : source.UsedIn scope type)
    (settles : before.Settles home text type id placement canonical after) :
    source.Carries before type canonical after := by
  refine settles.carries laid unreserved tracks anonymous stored called (.leaf leaf) varies
    ⟨scope, used⟩ ?_
  intro part member different
  exact absurd (eq_of_mem_chain anonymous leaf member) different

theorem IndexKeyed.called (laid : LaidOut source) (unreserved : source.Unreserved)
    (tracks : Tracks source before) {scope : ScopeRef} {type : TypeRef}
    {subject : ExpressionRef} {key : CanonicalKey} (used : source.UsedIn scope type)
    (anonymous : source.types.get? type = some { form := .index subject, symbol := none })
    (keyed : before.IndexKeyed scope subject key) :
    source.Called type key.name sharedScope := by
  cases keyed with
  | ofLiteral denotes =>
      rw [tracks.expressions] at denotes
      exact .ofLiteral anonymous denotes
  | ofVariable denotes found ranked name =>
      rw [tracks.expressions] at denotes
      rcases laid.references _ _ denotes with ⟨old, oldStored⟩
      rcases tracks.denotedIn?_source laid unreserved oldStored found ranked name with
        ⟨original, denoted, named⟩
      exact .ofVariable anonymous denotes used denoted named

theorem Settles.carries_domain (laid : LaidOut source) (unreserved : source.Unreserved)
    (tracks : Tracks source before) {scope : ScopeRef} {type canonical : TypeRef} {rank : Nat}
    {companion : Option TypeRef} {types : Arena .type TypeNode}
    (used : source.UsedIn scope type)
    (stored : before.types.get? type =
      some { form := .domain rank none companion, symbol := none })
    (ranked : before.types.modify type
      (fun node => { node with form := node.form.withRank (effectiveRank rank) }) = .ok types)
    (settles : { before with types }.Settles sharedScope (CanonicalKey.domain rank).name
      type id .shared canonical after) :
    source.Carries before type canonical after := by
  rcases tracks.anonymous_source stored with ⟨original, anonymous, varies⟩
  obtain ⟨declaredRank, rfl, ranks⟩ : ∃ declaredRank,
      original = .domain declaredRank none companion ∧
        effectiveRank rank = effectiveRank declaredRank := by
    cases varies with
    | same => exact ⟨rank, rfl, rfl⟩
    | domain ranks => exact ⟨_, rfl, ranks⟩
  have explicit : source.Varies before (.domain declaredRank none companion)
      (.domain (effectiveRank rank) none companion) :=
    .domain ((effectiveRank_effectiveRank rank).trans ranks)
  have steps : Tracks source { before with types } ∧ Keeps source before { before with types } := by
    refine tracks.changeForm stored ?_ ranked
    intro other symbol found
    rcases node_unique anonymous found with ⟨rfl, -⟩
    exact explicit
  rcases steps with ⟨tracksRanked, keeps⟩
  have storedRanked : types.get? type =
      some { form := .domain (effectiveRank rank) none companion, symbol := none } := by
    rw [Arena.get?_of_modify_same ranked, stored]
    rfl
  have called : source.Called type (CanonicalKey.domain rank).name sharedScope := by
    rw [CanonicalKey.name_domain_congr ranks]
    exact .domain anonymous
  refine (settles.carries_leaf laid unreserved tracksRanked anonymous rfl storedRanked
    (keeps.varies explicit) called used).follow keeps ?_
  intro other form isAbove found
  refine ⟨form, ?_⟩
  have different : type ≠ other := by
    intro equal
    subst equal
    exact absurd isAbove (Nat.lt_irrefl _)
  exact (Arena.get?_of_modify_of_ne ranked different).trans found

theorem Settles.carries_tuple (laid : LaidOut source) (unreserved : source.Unreserved)
    (tracks : Tracks source before) {scope : ScopeRef} {type canonical : TypeRef}
    {components : List TypeRef} {text : TypeRef → String} (used : source.UsedIn scope type)
    (stored : before.types.get? type = some { form := .tuple components, symbol := none })
    (named : ∀ component ∈ components,
      before.typeName? component = .ok (some (text component)))
    (settles : before.Settles sharedScope (CanonicalKey.tuple (components.map text)).name
      type id .shared canonical after) :
    source.Carries before type canonical after := by
  rcases tracks.anonymous_source stored with ⟨original, anonymous, varies⟩
  cases varies with
  | same =>
      have each : ∀ component, ∃ scope, component ∈ components →
          source.Called component (text component) scope := by
        intro component
        by_cases member : component ∈ components
        · rcases tracks.called_of_typeName? laid (.inl rfl) (named component member) with
            ⟨scope, called⟩
          exact ⟨scope, fun _ => called⟩
        · exact ⟨sharedScope, fun isMember => absurd isMember member⟩
      rcases Classical.skolem.mp each with ⟨scopes, each⟩
      exact settles.carries_leaf laid unreserved tracks anonymous rfl stored (.same _)
        (.tuple anonymous each) used

namespace ElementSettled

variable {middle : Program} {types : Arena .type TypeNode} {type first inner : TypeRef}
  {original form later : TypeForm}

theorem keeps
    (settled : source.ElementSettled before middle types type first inner original form later) :
    Keeps source before { middle with types } :=
  ⟨settled.carries.keeps.names, settled.carries.keeps.symbols⟩

theorem represents
    (settled : source.ElementSettled before middle types type first inner original form later) :
    source.Represents { middle with types } first inner :=
  settled.carries.represents

theorem replaces
    (settled : source.ElementSettled before middle types type first inner original form later) :
    source.Replaces { middle with types } first inner :=
  .inr ⟨settled.represents, settled.carries.covered⟩

theorem called (laid : LaidOut source) {ref : SymbolRef} {home : Home} {text : String}
    (settled : source.ElementSettled before middle types type first inner original form later)
    (named : { middle with types }.typeSymbol? inner = .ok (some ref))
    (beside : middle.homeBeside ref = .ok home) (name : middle.symbolName ref = .ok text) :
    source.Called first text home.scope := by
  rcases typeSymbol?_eq_ok_iff.mp named with ⟨_, innerStored⟩
  exact settled.tracks.called_of_named laid (.inr settled.represents) innerStored name beside

theorem settles (laid : LaidOut source) (unreserved : source.Unreserved)
    {scope home : ScopeRef} {canonical : TypeRef} {text : String}
    {finish : TypeForm → TypeForm} {placement : Placement} (used : source.UsedIn scope type)
    (settled : source.ElementSettled before middle types type first inner original form later)
    (called : source.Called type text home)
    (complete : source.Complete { middle with types } original
      (finish (later.withElement inner)))
    (varies : source.Varies { middle with types } original (finish (later.withElement inner)))
    (settles : { middle with types }.Settles home text type finish placement canonical after) :
    source.Carries before type canonical after := by
  have carries := settles.carries laid unreserved settled.tracks settled.anonymous
    settled.stored called complete varies ⟨scope, used⟩
    (Covered.above_element settled.carries.covered settled.anonymous settled.element)
  exact carries.follow settled.keeps settled.above

end ElementSettled

/-- Every rule keeps track, and ends in a type that represents the one it started with. -/
theorem Canonicalizes.carries (laid : LaidOut source) (unreserved : source.Unreserved)
    {scope : ScopeRef} {type canonical : TypeRef}
    (canonicalizes : before.Canonicalizes scope type canonical after)
    (tracks : Tracks source before) (used : source.UsedIn scope type) :
    source.Carries before type canonical after := by
  induction canonicalizes with
  | kept stored => exact tracks.carries_kept stored (.inl (by simp))
  | scalar stored scalar => exact tracks.carries_kept stored (.inr scalar)
  | index stored keyed settles =>
      rcases tracks.anonymous_source stored with ⟨original, anonymous, varies⟩
      cases varies with
      | same =>
          exact settles.carries_leaf laid unreserved tracks anonymous rfl stored (.same _)
            (keyed.called laid unreserved tracks used anonymous) used
  | domain stored ranked settles =>
      exact settles.carries_domain laid unreserved tracks used stored ranked
  | tuple stored named settles =>
      exact settles.carries_tuple laid unreserved tracks used stored named
  | @sequence middle after type element inner canonical types ref home text stored nested
      rewritten named beside name settles induction =>
      rcases tracks.settleElement laid used stored rfl nested induction rewritten with
        ⟨original, first, later, settled⟩
      have firstFound := settled.element
      obtain rfl : original = .sequence first := by
        cases settled.varies <;> (cases Option.some.inj firstFound; rfl)
      obtain ⟨slot, rfl⟩ : ∃ slot, later = .sequence slot := by
        cases settled.laterVaries <;> exact ⟨_, rfl⟩
      exact settled.settles laid unreserved used
        (.sequence settled.anonymous (settled.called laid named beside name))
        (.sequence settled.represents) (.sequence settled.replaces) settles
  | @array middle after type element inner canonical domain range recorded rank types ref home
      text stored nested rewritten named beside name ranges ranked settles induction =>
      rcases tracks.settleElement laid used stored rfl nested induction rewritten with
        ⟨original, first, later, settled⟩
      have firstFound := settled.element
      obtain ⟨earlier, rfl⟩ : ∃ earlier, original = .array first range earlier := by
        cases settled.varies <;> (cases Option.some.inj firstFound; exact ⟨_, rfl⟩)
      obtain ⟨slot, record, rfl⟩ : ∃ slot record, later = .array slot range record := by
        cases settled.laterVaries <;> exact ⟨_, _, rfl⟩
      rcases settled.tracks.rangeRank?_source laid ranges ranked with
        ⟨⟨declaredRank, declaredRanked, ranks⟩, recordedRank, recordedRanked, recordedRanks⟩
      -- The key has the rank as it reads now, which stands for the one that was written.
      have records : source.RecordedFor range domain :=
        ⟨declaredRank, recordedRank, declaredRanked, recordedRanked,
          recordedRanks.trans ranks.symm⟩
      have called : source.Called type (CanonicalKey.array text rank).name home.scope := by
        rw [← CanonicalKey.name_array_congr ranks]
        exact .array settled.anonymous declaredRanked (settled.called laid named beside name)
      exact settled.settles laid unreserved used called (.array settled.represents records)
        (.array settled.replaces (.inr ⟨domain, rfl, records⟩)) settles

/-! ## Variables -/

theorem Canonicalizes.symbols {scope : ScopeRef} {type canonical : TypeRef}
    (canonicalizes : before.Canonicalizes scope type canonical after) {ref : SymbolRef}
    {symbol : Symbol} (stored : before.symbols.get? ref = some symbol) :
    after.symbols.get? ref = some symbol := by
  induction canonicalizes with
  | kept | scalar => exact stored
  | index _ _ settles | domain _ _ settles | tuple _ _ settles => exact settles.symbols stored
  | sequence _ _ _ _ _ _ settles induction | array _ _ _ _ _ _ _ _ settles induction =>
      exact settles.symbols induction

theorem Adopts.symbols {scope : ScopeRef} {type canonical : TypeRef}
    (adopts : before.Adopts scope type canonical after) {ref : SymbolRef}
    {symbol : Symbol} (stored : before.symbols.get? ref = some symbol) :
    after.symbols.get? ref = some symbol := by
  cases adopts with
  | scalar => exact stored
  | settled _ canonicalizes => exact canonicalizes.symbols stored
  | twice _ canonicalizes _ again => exact again.symbols (canonicalizes.symbols stored)

/-- A variable whose type represents the type that it was declared with. -/
def Resolved (source current : Program) (var : SymbolRef) : Prop :=
  ∃ symbol type, source.symbols.get? var = some symbol ∧
    current.symbols.get? var = some { symbol with type } ∧
    source.Represents current symbol.type type ∧ source.Covered current symbol.type

theorem Resolved.exists_typeOf? {var : SymbolRef} {type : TypeRef}
    (resolved : source.Resolved before var) (typed : source.typeOf? var = some type) :
    ∃ canonical, before.typeOf? var = some canonical ∧
      source.Represents before type canonical := by
  rcases resolved with ⟨symbol, canonical, stored, current, represents, -⟩
  rw [typeOf?_eq_some stored] at typed
  exact ⟨canonical, typeOf?_eq_some current, Option.some.inj typed ▸ represents⟩

theorem Adopts.not_of_interns (tracks : Tracks source before) {scope : ScopeRef}
    {declared type canonical : TypeRef} (interns : source.Interns before declared type) :
    ¬before.Adopts scope type canonical after := by
  intro adopts
  rcases tracks.named_of_interns interns with ⟨form, ref, named⟩
  cases adopts with
  | scalar stored scalar =>
      rcases node_unique named stored with ⟨rfl, -⟩
      rcases tracks.synthesized_of_interns interns with
        ⟨_, _, _, -, -, rfl, -, -, called, synthesized⟩
      rcases synthesized.node with ⟨original, _, anonymous, -, -⟩
      rcases tracks.form_source named with ⟨_, _, old, varies, -⟩
      rcases node_unique anonymous old with ⟨rfl, -⟩
      apply called.not_scalar anonymous
      unfold TypeForm.Scalar at scalar ⊢
      rwa [← varies.shape_eq]
  | settled anonymous | twice anonymous =>
      rw [named] at anonymous
      simp at anonymous

theorem Adopts.eq_declared (tracks : Tracks source before) {scope : ScopeRef}
    {declared type canonical : TypeRef} (adopts : before.Adopts scope type canonical after)
    (stands : type = declared ∨ source.Represents before declared type) : type = declared := by
  rcases stands with same | ⟨-, same⟩ | interns
  · exact same
  · exact same
  · exact absurd adopts (Adopts.not_of_interns tracks interns)

theorem Adopts.carries (laid : LaidOut source) (unreserved : source.Unreserved)
    (tracks : Tracks source before) {scope : ScopeRef} {declared type canonical : TypeRef}
    (stands : type = declared ∨ source.Represents before declared type)
    (used : source.UsedIn scope declared)
    (adopts : before.Adopts scope type canonical after) :
    Tracks source after ∧ Keeps source before after ∧
      source.Represents after declared canonical ∧ source.Covered after declared := by
  cases adopts.eq_declared tracks stands
  cases adopts with
  | scalar stored scalar =>
      have carries := tracks.carries_kept stored (.inr scalar)
      exact ⟨tracks, carries.keeps, carries.represents, carries.covered⟩
  | settled _ canonicalizes =>
      have carries := canonicalizes.carries laid unreserved tracks used
      exact ⟨carries.tracks, carries.keeps, carries.represents, carries.covered⟩
  | twice _ canonicalizes anonymous again =>
      have carries := canonicalizes.carries laid unreserved tracks used
      rcases carries.represents with ⟨-, rfl⟩ | interns
      · have carriesAgain := again.carries laid unreserved carries.tracks used
        exact ⟨carriesAgain.tracks, carries.keeps.trans carriesAgain.keeps,
          carriesAgain.represents, carriesAgain.covered⟩
      · rcases carries.tracks.named_of_interns interns with ⟨_, _, named⟩
        rw [anonymous] at named
        simp at named

theorem Tracks.setType (tracks : Tracks source before) {var : SymbolRef} {old : Symbol}
    {canonical : TypeRef} {symbols : Arena .symbol Symbol}
    (declared : source.symbols.get? var = some old)
    (represents : source.Represents before old.type canonical)
    (modified : before.symbols.modify var (fun symbol => { symbol with type := canonical }) =
      .ok symbols) :
    Tracks source { before with symbols } ∧ Keeps source before { before with symbols } := by
  have elsewhere : ∀ ref, var ≠ ref → symbols.get? ref = before.symbols.get? ref :=
    fun ref different => Arena.get?_of_modify_of_ne modified different
  have added : ∀ ref, source.symbols.get? ref = none →
      symbols.get? ref = before.symbols.get? ref := by
    intro ref isNew
    apply elsewhere ref
    intro equal
    subst equal
    rw [declared] at isNew
    contradiction
  have keeps : Keeps source before { before with symbols } :=
    ⟨fun _ _ named => named, fun ref symbol isNew stored => (added ref isNew).trans stored⟩
  refine ⟨?_, keeps⟩
  refine
    { expressions := tracks.expressions
      names := tracks.names
      distinct := tracks.distinct
      types := ?_
      older := tracks.older
      declared := ?_
      symbols := ?_
      synthesized := ?_
      scopes := tracks.scopes
      kept := tracks.kept
      bound := ?_
      modules := tracks.modules
      layout := tracks.layout }
  · intro type form symbol stored
    rcases tracks.types type form symbol stored with ⟨later, holder, found, varies, same⟩
    exact ⟨later, holder, found, keeps.varies varies, same⟩
  · intro type form later ref anonymous named
    rcases tracks.declared type form later ref anonymous named with ⟨isNew, symbol, stored, same⟩
    exact ⟨isNew, symbol, (added ref isNew).trans stored, same⟩
  · intro ref symbol stored
    rcases tracks.symbols ref symbol stored with ⟨type, kept, stands⟩
    by_cases isVar : var = ref
    · subst isVar
      cases Option.mem_unique declared stored
      refine ⟨canonical, ?_, .inr (keeps.represents represents)⟩
      rw [Arena.get?_of_modify_same modified, kept]
      rfl
    · exact ⟨type, (elsewhere ref isVar).trans kept, stands.imp_right keeps.represents⟩
  · intro ref symbol isNew stored
    exact keeps.synthesized
      (tracks.synthesized ref symbol isNew ((added ref isNew).symm.trans stored))
      (fun _ _ found => found) (fun _ _ binds => binds)
  · intro scope name ref binds
    rcases tracks.bound scope name ref binds with old | ⟨isNew, symbol, stored, facts⟩
    · exact .inl old
    · exact .inr ⟨isNew, symbol, (added ref isNew).trans stored, facts⟩

theorem Tracks.variable_source (laid : LaidOut source) (tracks : Tracks source before)
    {ref : StatementRef} {placed : Placed}
    (stored : source.layout.statements.get? ref = some placed) {var : SymbolRef}
    (declares : placed.statement.kind = .varDeclaration var) {symbol : Symbol}
    (symbolStored : before.symbols.get? var = some symbol) :
    ∃ old type, source.symbols.get? var = some old ∧ symbol = { old with type } ∧
      (type = old.type ∨ source.Represents before old.type type) ∧
      source.UsedIn old.scope old.type := by
  have declared : placed.statement.declared? = some var := by
    simp only [Statement.declared?, declares]
  rcases (laid.statements ref placed stored).2 var declared with ⟨old, oldStored, -⟩
  rcases tracks.symbols var old oldStored with ⟨type, kept, stands⟩
  have member : var ∈ source.declaredVariables :=
    mem_declaredVariables_iff.mpr ⟨ref, placed, stored, declares⟩
  exact ⟨old, type, oldStored, Option.mem_unique symbolStored kept, stands,
    ⟨var, member, old, oldStored, rfl, mem_chain_self _⟩⟩

theorem Resolves.tracks (laid : LaidOut source) (unreserved : source.Unreserved)
    (tracks : Tracks source before) {ref : StatementRef} {placed : Placed}
    (stored : source.layout.statements.get? ref = some placed)
    (resolves : before.Resolves ref after) :
    Tracks source after ∧
      (∀ var, source.Resolved before var → source.Resolved after var) ∧
      ∀ var, placed.statement.kind = .varDeclaration var → source.Resolved after var := by
  cases resolves with
  | @declaration statement var symbol canonical middle symbols found declares symbolStored adopts
      changed =>
      cases tracks.statement_source stored found
      rcases tracks.variable_source laid stored declares symbolStored with
        ⟨old, type, oldStored, rfl, stands, used⟩
      rcases adopts.carries laid unreserved tracks stands used with
        ⟨tracksMiddle, keeps, represents, covered⟩
      rcases tracksMiddle.setType oldStored represents changed with ⟨tracksAfter, keepsAfter⟩
      have resolvedVar : source.Resolved { middle with symbols } var := by
        rcases tracksMiddle.symbols var old oldStored with ⟨_, keptMiddle, -⟩
        refine ⟨old, canonical, oldStored, ?_, keepsAfter.represents represents,
          keepsAfter.covered covered⟩
        dsimp only
        rw [Arena.get?_of_modify_same changed, keptMiddle]
        rfl
      refine ⟨tracksAfter, ?_, ?_⟩
      · intro other resolved
        by_cases same : var = other
        · exact same ▸ resolvedVar
        · rcases resolved with
            ⟨content, type, contentStored, current, representsOther, coveredOther⟩
          have keepsBoth := keeps.trans keepsAfter
          refine ⟨content, type, contentStored, ?_, keepsBoth.represents representsOther,
            keepsBoth.covered coveredOther⟩
          exact (Arena.get?_of_modify_of_ne changed same).trans (adopts.symbols current)
      · intro other isDeclared
        rw [declares] at isDeclared
        cases StatementKind.varDeclaration.inj isDeclared
        exact resolvedVar
  | other found silent =>
      cases tracks.statement_source stored found
      exact ⟨tracks, fun _ resolved => resolved, fun var declares => absurd declares (silent var)⟩

theorem ResolvesAll.tracks (laid : LaidOut source) (unreserved : source.Unreserved)
    {order : List StatementRef} (resolves : before.ResolvesAll order after)
    (stored : ∀ ref ∈ order, ∃ placed, source.layout.statements.get? ref = some placed)
    (tracks : Tracks source before) :
    Tracks source after ∧
      (∀ var, source.Resolved before var → source.Resolved after var) ∧
      ∀ ref ∈ order, ∀ placed var, source.layout.statements.get? ref = some placed →
        placed.statement.kind = .varDeclaration var → source.Resolved after var := by
  induction resolves with
  | nil => exact ⟨tracks, fun _ resolved => resolved, by simp⟩
  | cons first later induction =>
      rcases stored _ List.mem_cons_self with ⟨placed, headStored⟩
      rcases first.tracks laid unreserved tracks headStored with
        ⟨tracksMiddle, keptMiddle, resolvedMiddle⟩
      obtain ⟨tracksAfter, keptAfter, resolvedAfter⟩ :=
        induction (fun ref member => stored ref (List.mem_cons_of_mem _ member)) tracksMiddle
      refine ⟨tracksAfter, fun var resolved => keptAfter var (keptMiddle var resolved), ?_⟩
      intro ref member other var otherStored declares
      rcases List.mem_cons.mp member with rfl | inRest
      · cases Option.mem_unique headStored otherStored
        exact keptAfter var (resolvedMiddle var declares)
      · exact resolvedAfter ref inRest other var otherStored declares

/-- The walk over the variables of a program ends with all of them resolved. -/
theorem resolved_of_walkProgram (laid : LaidOut source) (unreserved : source.Unreserved)
    {own : Progress Unit} {final : Walker (Progress Unit)}
    (ran : (variableTypes .silent).walkProgram ⟨source, own⟩ = .ok () final) :
    Tracks source final.program ∧
      ∀ var ∈ source.declaredVariables, source.Resolved final.program var := by
  rcases resolvesAll_of_walkProgram ran with ⟨order, listed, resolves⟩
  rcases resolves.tracks laid unreserved
      (fun ref member => (Layout.reachable_of_mem_preorder listed member).1) (tracks_refl laid) with
      ⟨tracks, -, resolved⟩
  refine ⟨tracks, fun var member => ?_⟩
  rcases mem_declaredVariables_iff.mp member with ⟨ref, placed, stored, declares⟩
  have inOrder := (laid.statements ref placed stored).1.mem_preorder listed
  exact resolved ref inOrder placed var stored declares

end Program

end StructuralTypes
