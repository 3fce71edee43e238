import StructuralTypes.Proofs.Soundness

/-! Which types the walk over the variables declares: only ones that the variables it has passed
are declared with, or that are elements of these. -/

namespace StructuralTypes

namespace Program

variable {source before middle after : Program}

theorem Extends.nests (extension : Extends before after) {type part : TypeRef} {form : TypeForm}
    (nests : after.Nests type part)
    (anonymous : after.types.get? part = some { form, symbol := none }) :
    before.Nests type part := by
  induction nests with
  | self => exact .self
  | element stored found rest induction =>
      rcases extension.elements _ _ _ stored found with ⟨_, _, named⟩ | ⟨old, oldStored, same⟩
      · cases rest.eq_self named (by simp)
        rw [named] at anonymous
        simp at anonymous
      · exact .element oldStored same (induction anonymous)

/-! ## One type -/

theorem Settles.added {scope : ScopeRef} {text : String} {fresh canonical : TypeRef}
    {finish : TypeForm → TypeForm} {placement : Placement}
    (settles : before.Settles scope text fresh finish placement canonical after) {ref : SymbolRef}
    {symbol : Symbol} (found : after.symbols.get? ref = some symbol) :
    before.symbols.get? ref = some symbol ∨ symbol.type = fresh := by
  cases settles with
  | reused => exact .inl found
  | created _ _ _ introduces =>
      rw [introduces.symbols] at found
      rcases Arena.eq_next_or_get?_of_push found with ⟨-, rfl⟩ | old
      · exact .inr rfl
      · exact .inl old

theorem Canonicalizes.added {scope : ScopeRef} {type canonical : TypeRef}
    (canonicalizes : before.Canonicalizes scope type canonical after) {ref : SymbolRef}
    {symbol : Symbol} (found : after.symbols.get? ref = some symbol) :
    before.symbols.get? ref = some symbol ∨
      before.Nests type symbol.type ∧
        ∃ form, before.types.get? symbol.type = some { form, symbol := none } := by
  induction canonicalizes with
  | kept | scalar => exact .inl found
  | index stored _ settles | domain stored _ settles | tuple stored _ settles =>
      rcases settles.added found with old | isType
      · exact .inl old
      · exact .inr ⟨isType ▸ .self, _, isType ▸ stored⟩
  | sequence stored _ _ _ _ _ settles induction | array stored _ _ _ _ _ _ _ settles induction =>
      rcases settles.added found with old | isType
      · rcases induction old with older | ⟨nests, anonymous⟩
        · exact .inl older
        · exact .inr ⟨.element stored rfl nests, anonymous⟩
      · exact .inr ⟨isType ▸ .self, _, isType ▸ stored⟩

/-- `type` has a declaration or is complete without one. -/
def Bottom (program : Program) (type : TypeRef) : Prop :=
  ∃ form symbol, program.types.get? type = some { form, symbol } ∧ (symbol = none → form.Scalar)

theorem Bottom.of_extends (extension : Extends before after) {type : TypeRef}
    (bottom : before.Bottom type) : after.Bottom type := by
  rcases bottom with ⟨form, symbol, stored, scalar⟩
  rcases extension.types type form symbol stored with ⟨later, holder, found, rewrites, kept⟩
  refine ⟨later, holder, found, fun isNone => ?_⟩
  cases symbol with
  | none =>
      rw [TypeForm.Scalar, rewrites.shape_eq]
      exact scalar rfl
  | some ref =>
      rw [(kept ref rfl).1] at isNone
      cases isNone

theorem Bottom.eq_of_nests {program : Program} {type part : TypeRef} (bottom : program.Bottom type)
    (nests : program.Nests type part) : part = type := by
  rcases bottom with ⟨form, symbol, stored, scalar⟩
  exact nests.eq_self stored fun isNone => TypeForm.element?_of_scalar (scalar isNone)

theorem Canonicalizes.bottom (intact : source.Intact) (unreserved : source.Unreserved)
    (sound : Sound source before) {scope : ScopeRef} {type canonical : TypeRef}
    (canonicalizes : before.Canonicalizes scope type canonical after) :
    after.Bottom canonical := by
  rcases canonicalizes.named intact unreserved sound with
    ⟨form, ref, stored⟩ | ⟨rfl, rfl, form, stored, scalar⟩
  · exact ⟨form, some ref, stored, by simp⟩
  · exact ⟨form, none, stored, fun _ => scalar⟩

theorem Adopts.bottom (intact : source.Intact) (unreserved : source.Unreserved)
    (sound : Sound source before) {scope : ScopeRef} {type canonical : TypeRef}
    (adopts : before.Adopts scope type canonical after) : after.Bottom canonical := by
  cases adopts with
  | scalar stored scalar => exact ⟨_, _, stored, fun _ => scalar⟩
  | settled _ canonicalizes => exact canonicalizes.bottom intact unreserved sound
  | twice _ canonicalizes _ again =>
      exact again.bottom intact unreserved (canonicalizes.advance sound).sound

theorem Adopts.added (intact : source.Intact) (unreserved : source.Unreserved)
    (sound : Sound source before) {scope : ScopeRef} {type canonical : TypeRef}
    (adopts : before.Adopts scope type canonical after) {ref : SymbolRef} {symbol : Symbol}
    (found : after.symbols.get? ref = some symbol) :
    before.symbols.get? ref = some symbol ∨
      before.Nests type symbol.type ∧
        ∃ form, before.types.get? symbol.type = some { form, symbol := none } := by
  cases adopts with
  | scalar => exact .inl found
  | settled _ canonicalizes => exact canonicalizes.added found
  | twice _ canonicalizes anonymous again =>
      rcases canonicalizes.named intact unreserved sound with ⟨_, _, named⟩ | ⟨rfl, rfl, -⟩
      · rw [anonymous] at named
        simp at named
      · exact again.added found

/-! ## The walk -/

/-- `type` is what one of the statements declares a variable with, its element, and so on. -/
def UsedBy (program : Program) (refs : List StatementRef) (type : TypeRef) : Prop :=
  ∃ ref ∈ refs, ∃ var symbol, program.DeclaredBy ref var ∧
    program.symbols.get? var = some symbol ∧ program.Nests symbol.type type

/-- What the run has declared is used by the statements, and what it has given to a variable
nests nothing more. -/
structure Sourced (source current : Program) (refs : List StatementRef) : Prop where
  held : ∀ ref old, source.symbols.get? ref = some old → ∃ symbol,
    current.symbols.get? ref = some symbol ∧
      (symbol.type = old.type ∨ current.Bottom symbol.type)
  added : ∀ ref symbol, source.symbols.get? ref = none →
    current.symbols.get? ref = some symbol → source.UsedBy refs symbol.type

theorem sourced_refl (source : Program) (refs : List StatementRef) :
    Sourced source source refs where
  held ref old stored := ⟨old, stored, .inl rfl⟩
  added ref symbol missing stored := by
    rw [missing] at stored
    contradiction

theorem Resolves.sourced (intact : source.Intact) (unreserved : source.Unreserved)
    (sound : Sound source before) {refs : List StatementRef}
    (sourced : Sourced source before refs) {ref : StatementRef} (member : ref ∈ refs)
    (resolves : before.Resolves ref after) : Sourced source after refs := by
  have advance := resolves.advance intact sound
  cases resolves with
  | @declaration statement var symbol canonical middle symbols found declares stored adopts
      changed =>
      rcases sound.variable_source intact found declares with
        ⟨declared, original, originalStored⟩
      have adopting := adopts.advance sound
      refine ⟨?_, ?_⟩
      · intro other old oldStored
        by_cases same : var = other
        · subst same
          refine ⟨{ symbol with type := canonical }, ?_,
            .inr (adopts.bottom intact unreserved sound)⟩
          rw [Arena.get?_of_modify_same changed, adopts.symbols stored]
          rfl
        · rcases sourced.held other old oldStored with ⟨content, contentStored, state⟩
          exact ⟨content,
            (Arena.get?_of_modify_of_ne changed same).trans (adopts.symbols contentStored),
            state.imp_right (Bottom.of_extends adopting.extension)⟩
      · intro new content isNew contentStored
        have proper := advance.sound.declared new content isNew contentStored
        rw [Arena.get?_of_modify_of_ne changed (ne_of_new originalStored isNew)] at contentStored
        rcases adopts.added intact unreserved sound contentStored with
          old | ⟨nests, form, anonymous⟩
        · exact sourced.added new content isNew old
        · rcases sourced.held var original originalStored with ⟨again, againStored, state⟩
          cases Option.mem_unique stored againStored
          rcases state with same | bottom
          · refine ⟨ref, member, var, original, declared, originalStored, ?_⟩
            rw [← same]
            exact sound.extension.nests nests anonymous
          · -- A scalar without a declaration gets none.
            rcases proper.keyed with ⟨later, key, keyedStored, -, fits⟩
            rw [bottom.eq_of_nests nests] at anonymous keyedStored
            rcases bottom with ⟨_, _, bottomStored, scalar⟩
            rcases node_unique anonymous bottomStored with ⟨rfl, rfl⟩
            rcases advance.extension.types _ _ _ anonymous with ⟨_, _, again, rewrites, -⟩
            rcases node_unique keyedStored again with ⟨rfl, -⟩
            have isScalar := scalar rfl
            rw [TypeForm.Scalar, ← rewrites.shape_eq] at isScalar
            exact absurd isScalar fits.not_scalar
  | other => exact sourced

theorem ResolvesAll.split {front back : List StatementRef}
    (resolves : before.ResolvesAll (front ++ back) after) :
    ∃ middle, before.ResolvesAll front middle ∧ ResolvesAll middle back after := by
  induction front generalizing before with
  | nil => exact ⟨before, .nil, resolves⟩
  | cons ref rest induction =>
      cases resolves with
      | cons first later =>
          rcases induction later with ⟨middle, resolvesFront, resolvesBack⟩
          exact ⟨middle, .cons first resolvesFront, resolvesBack⟩

theorem ResolvesAll.sourced (intact : source.Intact) (unreserved : source.Unreserved)
    (sound : Sound source before) {refs : List StatementRef}
    (sourced : Sourced source before refs) {order : List StatementRef}
    (members : ∀ ref ∈ order, ref ∈ refs) (resolves : before.ResolvesAll order after) :
    Sourced source after refs := by
  induction resolves with
  | nil => exact sourced
  | cons first _ induction =>
      rcases List.forall_mem_cons.mp members with ⟨member, others⟩
      exact induction (first.advance intact sound).sound
        (first.sourced intact unreserved sound sourced member) others

end Program

end StructuralTypes
