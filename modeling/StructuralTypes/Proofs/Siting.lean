import StructuralTypes.Proofs.Steps

/-! Where canonical declarations stand. What a step declares belongs to a home: either it
stands in the shared body, or it trails the declaration of its element in the body that holds
this, and its symbol belongs to the scope of that body. Later changes leave it so. -/

namespace StructuralTypes.Program

variable {program source before after : Program}

/-- `declaration` stands where what belongs to a home does. -/
inductive Stands (program : Program) (declaration : StatementRef) : Home → Prop
  | shared (linked : program.layout.LinkedIn declaration sharedBody) :
      Stands program declaration .shared
  | beside {element : SymbolRef} {scope : ScopeRef} {record : Symbol} {anchor : StatementRef}
      {body : BodyRef} {content : Body}
      (stored : program.symbols.get? element = some record)
      (defined : record.definition = .statement anchor)
      (holder : program.layout.bodies.get? body = some content)
      (isScope : content.scope = scope)
      (trails : program.layout.Trails body anchor declaration) :
      Stands program declaration (.beside element scope)

/-- `symbol` declares its type, and is bound and declared where the form of that belongs. -/
structure Situated (program : Program) (ref : SymbolRef) (symbol : Symbol) : Prop where
  bound : program.Binds symbol.scope symbol.name ref
  sited : ∃ form home declaration,
    program.types.get? symbol.type = some { form, symbol := some ref } ∧
    program.Belongs form home ∧ symbol.scope = home.scope ∧
    symbol.definition = .statement declaration ∧ program.Stands declaration home

section

variable (continues : Continues before after)
include continues

theorem Stands.of_continues {declaration : StatementRef} {home : Home}
    (stands : before.Stands declaration home) : after.Stands declaration home := by
  cases stands with
  | shared linked => exact .shared (continues.layout.grows.linkedIn linked)
  | beside stored defined holder isScope trails =>
      rcases continues.symbols _ _ stored with ⟨type, found⟩
      rcases continues.layout.orders _ _ holder with ⟨later, laterStored, same, -⟩
      exact .beside found defined laterStored (same.trans isScope)
        (trails.of_extends continues.layout)

theorem Situated.of_continues {ref : SymbolRef} {symbol : Symbol}
    (situated : before.Situated ref symbol) : after.Situated ref symbol where
  bound := continues.binds _ _ _ situated.bound
  sited := by
    rcases situated.sited with ⟨form, home, declaration, stored, belongs, isScope, defined, stands⟩
    rcases continues.types _ _ _ stored with ⟨later, found, recompanions⟩
    exact ⟨later, home, declaration, found, continues.belongs recompanions belongs, isScope,
      defined, stands.of_continues continues⟩

end

/-! ## New declarations -/

theorem linkedDeclaration?_eq_some {ref : SymbolRef} {declaration : StatementRef}
    (linked : program.linkedDeclaration? ref = .ok (some declaration)) :
    ∃ symbol, program.symbols.get? ref = some symbol ∧
      symbol.definition = .statement declaration := by
  simp only [linkedDeclaration?, Except.bind_eq_ok_iff, symbol_eq_ok_iff] at linked
  rcases linked with ⟨symbol, stored, linked⟩
  cases defined : symbol.definition with
  | absent | detached => simp [defined, Definition.statement?, Except.pure_eq_ok_iff] at linked
  | statement other =>
      simp only [defined, Definition.statement?, Except.bind_eq_ok_iff, Except.pure_eq_ok_iff,
        Option.map_eq_some_iff] at linked
      rcases linked with ⟨_, -, _, -, rfl⟩
      exact ⟨symbol, stored, defined⟩

theorem tailsLinked_of_position {position : Position} {new : StatementRef}
    {layout linked : Layout} (tails : layout.TailsLinked)
    (placed : position.link new layout = .ok linked) : linked.TailsLinked := by
  cases position with
  | shared => exact (Layout.linkedIn_placeSynthesized tails placed).2
  | after anchor => exact Layout.tailsLinked_insertAfter tails placed
  | before anchor => exact Layout.tailsLinked_insertBefore tails placed

theorem Introduces.site (lexical : before.Lexical) {fresh : TypeRef} {form : TypeForm}
    {finish : TypeForm → TypeForm} {text : String} {home : Home} {position : Position}
    (belongs : before.Belongs form home) (located : before.Located home.placement position)
    (introduces : before.Introduces home.scope text fresh finish position after) :
    after.Stands before.layout.statements.next home ∧
      ∃ body content later front back,
        before.layout.Inserts after.layout (.synthesizedType before.symbols.next) body content
          later front back ∧
        position.Picks before.layout.statements.next body content later front back ∧
        content.scope = home.scope := by
  rcases Layout.inserts_of_position lexical.placedOnce lexical.tails introduces.layout with
    ⟨body, content, later, front, back, inserts, picks⟩
  suffices content.scope = home.scope ∧ after.Stands before.layout.statements.next home from
    ⟨this.2, body, content, later, front, back, inserts, picks, this.1⟩
  cases home with
  | shared =>
      cases located
      rcases picks with ⟨rfl, -, -⟩
      rcases lexical.shared with ⟨shared, sharedStored, isShared⟩
      cases Option.mem_unique inserts.stored sharedStored
      exact ⟨isShared, .shared
        ⟨_, later, inserts.new_stored, rfl, inserts.laterStored, inserts.new_member⟩⟩
  | beside element scope =>
      rcases located with _ | _ | ⟨linked⟩
      rename_i anchor
      rcases linkedDeclaration?_eq_some linked with ⟨record, stored, defined⟩
      rcases lexical.declarations element record anchor stored defined with
        ⟨statement, holder, held, placed, -, heldStored, isScope⟩
      rcases List.getLast?_eq_some_iff.mp picks.1 with ⟨before', rfl⟩
      have member : anchor ∈ content.order := by
        rw [inserts.split]
        simp
      rcases lexical.placedOnce.held body content anchor inserts.stored member with ⟨_, again⟩
      cases Option.mem_unique placed again
      cases Option.mem_unique heldStored inserts.stored
      have sameScope : record.scope = scope := by
        cases belongs with
        | element _ _ beside =>
            rcases homeBeside_beside beside with ⟨rfl, -, again, againStored, same, -⟩
            cases Option.mem_unique stored againStored
            exact same
      refine ⟨isScope.trans sameScope, .beside (introduces.old_symbol stored) defined
        inserts.laterStored (inserts.scope.trans (isScope.trans sameScope)) ?_⟩
      exact ⟨later, before', [], back, inserts.laterStored, by simp [inserts.order], by simp⟩

theorem Continues.variable_source (continues : Continues source before) (intact : source.Intact)
    {ref : StatementRef} {placed : Placed} {var : SymbolRef}
    (stored : before.layout.statements.get? ref = some placed)
    (declares : placed.statement.kind = .varDeclaration var) :
    ∃ symbol, source.symbols.get? var = some symbol := by
  rcases continues.layout.synthesized ref placed stored with old | ⟨declared, body, rfl⟩
  · exact intact.declarations ref placed var old declares
  · cases declares

theorem Continues.next_symbol (continues : Continues source before) :
    source.symbols.get? before.symbols.next = none :=
  Arena.get?_next_of_kept fun symbol found => by
    obtain ⟨_, kept⟩ := continues.symbols _ symbol found
    exact ⟨_, kept⟩

theorem Continues.next_statement (continues : Continues source before) :
    source.layout.statements.get? before.layout.statements.next = none :=
  Arena.get?_next_of_kept fun placed found =>
    ⟨placed, continues.layout.statements _ placed found⟩

/-! ## Invariant -/

/-- `current` is `source` with declarations that stand where they belong. -/
structure Sited (source current : Program) : Prop where
  lexical : current.Lexical
  continues : Continues source current
  statements : ∀ ref placed, source.layout.statements.get? ref = none →
    current.layout.statements.get? ref = some placed → ∃ declared symbol,
      placed.statement = .synthesizedType declared ∧ source.symbols.get? declared = none ∧
      current.symbols.get? declared = some symbol ∧ symbol.definition = .statement ref
  situated : ∀ ref symbol, source.symbols.get? ref = none →
    current.symbols.get? ref = some symbol → current.Situated ref symbol

theorem sited_refl (lexical : source.Lexical) : Sited source source where
  lexical := lexical
  continues := .refl source
  statements ref placed missing stored := by
    rw [missing] at stored
    contradiction
  situated ref symbol missing stored := by
    rw [missing] at stored
    contradiction

namespace Sited

theorem of_layout_eq (sited : Sited source before) (continues : Continues before after)
    (same : after.layout = before.layout)
    (symbols : ∀ ref symbol, after.symbols.get? ref = some symbol →
      ∃ old, before.symbols.get? ref = some old ∧ old.scope = symbol.scope ∧
        old.definition = symbol.definition ∧
        (source.symbols.get? ref = none → old = symbol)) : Sited source after where
  lexical := sited.lexical.of_layout_eq same continues.scopes fun ref symbol _ stored _ => by
    rcases symbols ref symbol stored with ⟨old, found, isScope, defined, -⟩
    exact ⟨old, found, isScope, defined⟩
  continues := sited.continues.trans continues
  statements ref placed missing stored := by
    rw [same] at stored
    rcases sited.statements ref placed missing stored with
      ⟨declared, symbol, isNew, missingSymbol, found, defined⟩
    rcases continues.symbols declared symbol found with ⟨type, later⟩
    exact ⟨declared, _, isNew, missingSymbol, later, defined⟩
  situated ref symbol missing stored := by
    rcases symbols ref symbol stored with ⟨old, found, -, -, isOld⟩
    cases isOld missing
    exact (sited.situated ref symbol missing found).of_continues continues

theorem introduce (sited : Sited source before) {fresh : TypeRef} {form : TypeForm}
    {finish : TypeForm → TypeForm} {text : String} {home : Home} {position : Position}
    (stored : before.types.get? fresh = some { form, symbol := none })
    (belongs : before.Belongs (finish form) home)
    (located : before.Located home.placement position) (continues : Continues before after)
    (introduces : before.Introduces home.scope text fresh finish position after) :
    Sited source after := by
  rcases introduces.site sited.lexical belongs located with
    ⟨stands, body, content, later, front, back, inserts, -, isScope⟩
  have tails : after.layout.TailsLinked := tailsLinked_of_position
    (Layout.tailsLinked_addStatement sited.lexical.tails _) introduces.layout
  refine ⟨sited.lexical.insert inserts tails continues.scopes ?_,
    sited.continues.trans continues, ?_, ?_⟩
  · intro ref symbol declaration found defined
    rw [introduces.symbols] at found
    rcases Arena.eq_next_or_get?_of_push found with ⟨rfl, rfl⟩ | old
    · cases Definition.statement.inj defined
      exact .inr ⟨rfl, rfl, isScope.symm⟩
    · exact .inl ⟨symbol, old, rfl, rfl⟩
  · intro ref placed missing found
    rw [inserts.statements] at found
    rcases Arena.eq_next_or_get?_of_push found with ⟨rfl, rfl⟩ | old
    · exact ⟨_, _, rfl, sited.continues.next_symbol, introduces.new_symbol, rfl⟩
    · rcases sited.statements ref placed missing old with
        ⟨declared, symbol, isNew, missingSymbol, symbolStored, defined⟩
      exact ⟨declared, symbol, isNew, missingSymbol, introduces.old_symbol symbolStored, defined⟩
  · intro ref symbol missing found
    rw [introduces.symbols] at found
    rcases Arena.eq_next_or_get?_of_push found with ⟨rfl, rfl⟩ | old
    · refine ⟨introduces.binds_iff.mpr (by simp), finish form, home, _,
        introduces.type_same stored, ?_, rfl, rfl, stands⟩
      exact continues.belongs (.same _) belongs
    · exact (sited.situated ref symbol missing old).of_continues continues

theorem step (intact : source.Intact) (sited : Sited source before) (step : Step before after) :
    Sited source after := by
  have continues := step.continues
  cases step with
  | intern | reform =>
      exact sited.of_layout_eq continues rfl
        fun _ symbol stored => ⟨symbol, stored, rfl, rfl, fun _ => rfl⟩
  | introduce stored _ _ belongs located _ _ introduces =>
      exact sited.introduce stored belongs located continues introduces
  | @retype ref placed var type symbols stored declares modified =>
      rcases sited.continues.variable_source intact stored declares with ⟨_, isOld⟩
      refine sited.of_layout_eq continues rfl ?_
      intro other symbol found
      rcases Arena.get?_eq_some_of_modify modified found with ⟨old, oldStored, rfl⟩
      refine ⟨old, oldStored, by split <;> rfl, by split <;> rfl, fun missing => ?_⟩
      rw [if_neg (ne_of_new isOld missing)]

theorem steps (intact : source.Intact) (sited : Sited source before) (steps : Steps before after) :
    Sited source after := by
  induction steps with
  | refl => exact sited
  | tail _ next induction => exact induction.step intact next

end Sited

end StructuralTypes.Program
