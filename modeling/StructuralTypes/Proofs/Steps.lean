import Mathlib.Logic.Relation
import StructuralTypes.Proofs.Lexical
import StructuralTypes.Proofs.Soundness

/-! The single changes that canonicalizing variables consists of. An invariant that each of
them preserves holds after every run, whether the run succeeds or fails on the way. -/

namespace StructuralTypes

def TypeForm.constituents : TypeForm → List TypeRef
  | .tuple components => components
  | form => form.element?.toList

theorem TypeForm.Recompanions.element?_eq {first second : TypeForm}
    (recompanions : first.Recompanions second) : second.element? = first.element? := by
  cases recompanions <;> rfl

theorem TypeForm.Recompanions.constituents_eq {first second : TypeForm}
    (recompanions : first.Recompanions second) : second.constituents = first.constituents := by
  cases recompanions <;> rfl

theorem TypeForm.Recompanions.shape_eq {first second : TypeForm}
    (recompanions : first.Recompanions second) : second.shape = first.shape := by
  cases recompanions <;> rfl

namespace TypeForm

theorem children_withRank (rank : Nat) (form : TypeForm) :
    (form.withRank rank).children = form.children := by
  cases form <;> rfl

theorem mem_children_of_element? {form : TypeForm} {element : TypeRef}
    (found : form.element? = some element) : element ∈ form.children := by
  cases form with
  | array | sequence =>
      cases found
      exact List.mem_cons_self
  | _ => cases found

theorem mem_children_withElement {form : TypeForm} {inner part : TypeRef}
    (member : part ∈ (form.withElement inner).children) : part = inner ∨ part ∈ form.children := by
  cases form with
  | array | sequence => exact (List.mem_cons.mp member).imp_right (List.mem_cons_of_mem _)
  | _ => exact .inr member

end TypeForm

namespace Program

variable {program before middle after : Program}

/-! ## Homes -/

/-- Where the declaration of a form belongs: beside that of its element, if it has one. -/
inductive Belongs (program : Program) (form : TypeForm) : Home → Prop
  | leaf (bare : form.element? = none) : Belongs program form .shared
  | element {element : TypeRef} {inner : TypeForm} {ref : SymbolRef} {home : Home}
      (found : form.element? = some element)
      (stored : program.types.get? element = some { form := inner, symbol := some ref })
      (beside : program.homeBeside ref = .ok home) : Belongs program form home

theorem homeBeside_beside {ref element : SymbolRef} {scope : ScopeRef}
    (beside : program.homeBeside ref = .ok (.beside element scope)) :
    element = ref ∧ scope ≠ sharedScope ∧ ∃ symbol, program.symbols.get? ref = some symbol ∧
      symbol.scope = scope ∧ symbol.definition ≠ .absent ∧ program.OpenScope scope := by
  rcases homeBeside_eq_ok_iff.mp beside with ⟨symbol, content, stored, scopeStored, isHome⟩
  split at isHome
  · cases isHome
  · rename_i neither
    simp only [not_or, Bool.not_eq_true] at neither
    cases isHome
    exact ⟨rfl, neither.2.2, symbol, stored, rfl, neither.2.1, content, scopeStored, neither.1⟩

/-! ## Bindings of keys -/

def BindsKey (program : Program) (key : CanonicalKey) (type : TypeRef) : Prop :=
  ∃ scope name ref symbol, program.Binds scope name ref ∧
    program.names.get? name = some key.name ∧ program.symbols.get? ref = some symbol ∧
    symbol.type = type

theorem Settles.self_or_bindsKey {scope : ScopeRef} {key : CanonicalKey}
    {fresh canonical : TypeRef} {finish : TypeForm → TypeForm} {placement : Placement}
    (settles : before.Settles scope key.name fresh finish placement canonical after) :
    canonical = fresh ∨ after.BindsKey key canonical := by
  cases settles with
  | created => exact .inl rfl
  | reused bound stored =>
      exact .inr ⟨scope, _, _, _, bound, NameTable.get?_intern before.names key.name, stored, rfl⟩

/-- What is canonical already stays what it is, and what is not becomes so itself or makes way for
what the name of its key is bound to. -/
theorem Canonicalizes.self_or_bindsKey {scope : ScopeRef} {type canonical : TypeRef}
    (canonicalizes : before.Canonicalizes scope type canonical after) :
    canonical = type ∨ ∃ key, after.BindsKey key canonical := by
  cases canonicalizes with
  | kept | scalar => exact .inl rfl
  | index _ _ settles | domain _ _ settles | tuple _ _ settles
  | sequence _ _ _ _ _ _ settles | array _ _ _ _ _ _ _ _ settles =>
      exact settles.self_or_bindsKey.imp_right fun bound => ⟨_, bound⟩

/-! ## Steps -/

/-- One change that canonicalizing a variable makes. -/
inductive Step (before : Program) : Program → Prop
  | intern (text : String) : Step before { before with names := (before.names.intern text).2 }
  /-- An anonymous type takes in its canonical element, or makes its rank explicit. -/
  | reform {type : TypeRef} {form : TypeForm} {change : TypeForm → TypeForm}
      {types : Arena .type TypeNode}
      (stored : before.types.get? type = some { form, symbol := none })
      (rewrites : form.Rewrites (change form))
      (modified : before.types.modify type
        (fun node => { node with form := change node.form }) = .ok types)
      (bare : form.element? = none → ∃ rank, change form = form.withRank rank)
      (parts : ∀ part ∈ (change form).children,
        part ∈ form.children ∨ ∃ key, before.BindsKey key part) :
      Step before { before with types }
  | introduce {fresh : TypeRef} {form : TypeForm} {finish : TypeForm → TypeForm} {text : String}
      {home : Home} {position : Position} {content : Scope} {after : Program}
      (stored : before.types.get? fresh = some { form, symbol := none })
      (rewrites : form.Rewrites (finish form))
      (named : ∀ part ∈ (finish form).constituents, before.Named part)
      (belongs : before.Belongs (finish form) home)
      (located : before.Located home.placement position)
      (scopeStored : before.scopes.get? home.scope = some content)
      (free : content.lookup (before.names.intern text).1 = none)
      (introduces : before.Introduces home.scope text fresh finish position after)
      (keyed : ∃ key : CanonicalKey, text = key.name ∧ form.shape = key.shape)
      (bare : form.element? = none → finish form = form)
      (parts : ∀ element, (finish form).element? = some element →
        ∀ part ∈ (finish form).children, part = element ∨ ∃ rank, before.rank? part = some rank) :
      Step before after
  | retype {ref : StatementRef} {placed : Placed} {var : SymbolRef} {type : TypeRef}
      {symbols : Arena .symbol Symbol}
      (stored : before.layout.statements.get? ref = some placed)
      (declares : placed.statement.kind = .varDeclaration var)
      (modified : before.symbols.modify var (fun symbol => { symbol with type }) =
        .ok symbols)
      (taken : (∃ symbol, before.symbols.get? var = some symbol ∧ symbol.type = type) ∨
        ∃ key, before.BindsKey key type) : Step before { before with symbols }

abbrev Steps : Program → Program → Prop := Relation.ReflTransGen Step

/-! ## Canonicalization takes steps -/

theorem Canonicalizes.takes_in {scope : ScopeRef} {type element inner : TypeRef}
    {form : TypeForm} {types : Arena .type TypeNode}
    (nested : before.Canonicalizes scope element inner middle)
    (stored : before.types.get? type = some { form, symbol := none })
    (found : form.element? = some element)
    (rewritten : middle.types.modify type
      (fun node => { node with form := node.form.withElement inner }) = .ok types) :
    Step middle { middle with types } ∧
      types.get? type = some { form := form.withElement inner, symbol := none } := by
  have still := nested.outer_kept stored found
  refine ⟨.reform still (.withElement inner form) rewritten (by simp [found]) ?_, ?_⟩
  · intro part member
    rcases TypeForm.mem_children_withElement member with rfl | old
    · rcases nested.self_or_bindsKey with rfl | bound
      · exact .inl (TypeForm.mem_children_of_element? found)
      · exact .inr bound
    · exact .inl old
  · rw [Arena.get?_of_modify_same rewritten, still]
    rfl

theorem Settles.steps {fresh canonical : TypeRef} {form : TypeForm} {key : CanonicalKey}
    {finish : TypeForm → TypeForm} (home : Home)
    (stored : before.types.get? fresh = some { form, symbol := none })
    (rewrites : form.Rewrites (finish form))
    (named : ∀ part ∈ (finish form).constituents, before.Named part)
    (belongs : before.Belongs (finish form) home) (shaped : form.shape = key.shape)
    (bare : form.element? = none → finish form = form)
    (parts : ∀ element, (finish form).element? = some element →
      ∀ part ∈ (finish form).children, part = element ∨ ∃ rank, before.rank? part = some rank)
    (settles : before.Settles home.scope key.name fresh finish home.placement canonical after) :
    Steps before after := by
  cases settles with
  | reused => exact .single (.intern key.name)
  | created scopeStored free located introduces =>
      exact .single (.introduce stored rewrites named belongs located scopeStored free introduces
        ⟨key, rfl, shaped⟩ bare parts)

theorem Settles.steps_over_element {fresh inner canonical : TypeRef} {form : TypeForm}
    {ref : SymbolRef} {key : CanonicalKey} {home : Home} {finish : TypeForm → TypeForm}
    (stored : before.types.get? fresh = some { form, symbol := none })
    (rewrites : form.Rewrites (finish form))
    (constituents : (finish form).constituents = [inner])
    (found : (finish form).element? = some inner)
    (named : before.typeSymbol? inner = .ok (some ref))
    (beside : before.homeBeside ref = .ok home) (shaped : form.shape = key.shape)
    (parts : ∀ part ∈ (finish form).children,
      part = inner ∨ ∃ rank, before.rank? part = some rank)
    (settles : before.Settles home.scope key.name fresh finish home.placement canonical after) :
    Steps before after := by
  rcases typeSymbol?_eq_ok_iff.mp named with ⟨innerForm, innerStored⟩
  refine settles.steps home stored rewrites ?_ (.element found innerStored beside) shaped ?_ ?_
  · intro part member
    rw [constituents, List.mem_singleton] at member
    subst member
    exact ⟨innerForm, ref, innerStored⟩
  · intro bare
    rw [rewrites.element?_eq_none bare] at found
    contradiction
  · intro element again
    cases Option.some.inj (found.symm.trans again)
    exact parts

theorem Canonicalizes.steps {scope : ScopeRef} {type canonical : TypeRef}
    (canonicalizes : before.Canonicalizes scope type canonical after) : Steps before after := by
  induction canonicalizes with
  | kept | scalar => exact .refl
  | index stored keyed settles =>
      exact settles.steps .shared stored (.same _)
        (by simp [TypeForm.constituents, TypeForm.element?]) (.leaf rfl)
        (by cases keyed <;> rfl) (fun _ => rfl) (by simp [TypeForm.element?])
  | @domain after type canonical rank companion types stored ranked settles =>
      have explicit : types.get? type =
          some { form := .domain (effectiveRank rank) none companion, symbol := none } := by
        rw [Arena.get?_of_modify_same ranked, stored]
        rfl
      have ranking := Step.reform stored (by exact .domain (.inr rfl) rfl) ranked
        (fun _ => ⟨_, rfl⟩) fun _ member => .inl member
      exact .head ranking (settles.steps .shared explicit (.same _)
        (by simp [TypeForm.constituents, TypeForm.element?]) (.leaf rfl) rfl
        (fun _ => rfl) (by simp [TypeForm.element?]))
  | tuple stored named settles =>
      refine settles.steps .shared stored (.same _) ?_ (.leaf rfl) rfl (fun _ => rfl)
        (by simp [TypeForm.element?])
      intro component member
      rcases typeName?_eq_some_iff.mp (named component member) with ⟨form, ref, -, found, -⟩
      exact ⟨form, ref, found⟩
  | sequence stored nested rewritten named beside _ settles induction =>
      rcases nested.takes_in stored rfl rewritten with ⟨replacing, here⟩
      exact (induction.tail replacing).trans
        (settles.steps_over_element here (.same _) rfl rfl named beside rfl
          (by exact fun _ member => .inl (List.mem_singleton.mp member)))
  | array stored nested rewritten named beside _ _ ranked settles induction =>
      rcases nested.takes_in stored rfl rewritten with ⟨replacing, here⟩
      refine (induction.tail replacing).trans
        (settles.steps_over_element here (by exact .array) rfl rfl named beside rfl ?_)
      exact fun part member => (List.mem_cons.mp member).imp_right
        fun isDomain => ⟨_, List.mem_singleton.mp isDomain ▸ ranked⟩

theorem Adopts.steps {scope : ScopeRef} {type canonical : TypeRef}
    (adopts : before.Adopts scope type canonical after) : Steps before after := by
  cases adopts with
  | scalar => exact .refl
  | settled _ canonicalizes => exact canonicalizes.steps
  | twice _ canonicalizes _ again => exact canonicalizes.steps.trans again.steps

theorem Step.statement_kept (step : Step before after) {ref : StatementRef} {placed : Placed}
    (stored : before.layout.statements.get? ref = some placed) :
    after.layout.statements.get? ref = some placed := by
  cases step with
  | introduce _ _ _ _ _ _ _ introduces =>
      exact introduces.layout_extends.statements ref placed stored
  | _ => exact stored

theorem Steps.statement_kept (steps : Steps before after) {ref : StatementRef} {placed : Placed}
    (stored : before.layout.statements.get? ref = some placed) :
    after.layout.statements.get? ref = some placed := by
  induction steps with
  | refl => exact stored
  | tail _ step induction => exact step.statement_kept induction

/-! ## What a change keeps -/

/-- `after` has the declarations, symbols, scopes and statements of `before`. -/
structure Continues (before after : Program) : Prop where
  types : ∀ type form ref, before.types.get? type = some { form, symbol := some ref } →
    ∃ later, after.types.get? type = some { form := later, symbol := some ref } ∧
      form.Recompanions later
  symbols : ∀ ref symbol, before.symbols.get? ref = some symbol →
    ∃ type, after.symbols.get? ref = some { symbol with type }
  scopes : before.KeepsScopes after
  binds : ∀ scope name ref, before.Binds scope name ref → after.Binds scope name ref
  layout : before.layout.Extends after.layout

theorem Extends.continues (extension : Extends before after) (scopes : before.KeepsScopes after) :
    Continues before after where
  types type form ref stored := by
    rcases extension.types type form _ stored with ⟨later, holder, found, -, kept⟩
    rcases kept ref rfl with ⟨rfl, recompanions⟩
    exact ⟨later, found, recompanions⟩
  symbols := extension.symbols
  scopes := scopes
  binds := extension.binds
  layout := extension.layout

namespace Continues

theorem refl (program : Program) : Continues program program :=
  (Extends.refl program).continues (keepsScopes_of_eq rfl)

theorem trans (first : Continues before middle) (second : Continues middle after) :
    Continues before after where
  types type form ref stored := by
    rcases first.types type form ref stored with ⟨between, found, recompanions⟩
    rcases second.types type between ref found with ⟨later, laterFound, again⟩
    exact ⟨later, laterFound, recompanions.trans again⟩
  symbols ref symbol stored := by
    rcases first.symbols ref symbol stored with ⟨_, found⟩
    rcases second.symbols ref _ found with ⟨type, again⟩
    exact ⟨type, again⟩
  scopes := first.scopes.trans second.scopes
  binds scope name ref binds := second.binds scope name ref (first.binds scope name ref binds)
  layout := first.layout.trans second.layout

section

variable (continues : Continues before after)
include continues

theorem homeBeside {ref : SymbolRef} {home : Home}
    (beside : before.homeBeside ref = .ok home) : after.homeBeside ref = .ok home := by
  rcases homeBeside_eq_ok_iff.mp beside with ⟨symbol, content, stored, scopeStored, rfl⟩
  rcases continues.symbols ref symbol stored with ⟨type, found⟩
  rcases continues.scopes symbol.scope content scopeStored with ⟨later, laterStored, -, intrinsic⟩
  exact homeBeside_eq_ok_iff.mpr ⟨_, later, found, laterStored, by simp only [intrinsic]⟩

theorem belongs {form later : TypeForm} (recompanions : form.Recompanions later) {home : Home}
    (belongs : before.Belongs form home) : after.Belongs later home := by
  cases belongs with
  | leaf bare => exact .leaf (recompanions.element?_eq.trans bare)
  | element found stored beside =>
      rcases continues.types _ _ _ stored with ⟨inner, innerStored, -⟩
      exact .element (recompanions.element?_eq.trans found) innerStored
        (continues.homeBeside beside)

end

end Continues

theorem Step.continues (step : Step before after) : Continues before after := by
  cases step with
  | intern text => exact (Extends.intern before text).continues (keepsScopes_of_eq rfl)
  | @reform type form change types stored rewrites modified =>
      refine { Continues.refl before with types := ?_ }
      intro other otherForm ref found
      have different : type ≠ other := by
        intro same
        subst same
        rw [stored] at found
        simp at found
      exact ⟨otherForm, (Arena.get?_of_modify_of_ne modified different).trans found, .same _⟩
  | introduce stored rewrites _ _ _ scopeStored free introduces =>
      exact (introduces.extends stored rewrites scopeStored free).continues
        (keepsScopes_of_bind introduces.scopes)
  | retype _ _ modified _ =>
      exact (Extends.setSymbolType modified).continues (keepsScopes_of_eq rfl)

theorem Steps.continues (steps : Steps before after) : Continues before after := by
  induction steps with
  | refl => exact .refl before
  | tail _ step induction => exact induction.trans step.continues

theorem Step.names_kept (step : Step before after) {name : NameRef} {text : String}
    (named : before.names.get? name = some text) : after.names.get? name = some text := by
  cases step with
  | intern other => exact NameTable.get?_intern_of_get? other named
  | introduce _ _ _ _ _ _ _ introduces => exact introduces.old_name named
  | reform | retype => exact named

theorem Steps.names_kept (steps : Steps before after) {name : NameRef} {text : String}
    (named : before.names.get? name = some text) : after.names.get? name = some text := by
  induction steps with
  | refl => exact named
  | tail _ step induction => exact step.names_kept induction

/-! ## Entering statements takes steps -/

theorem BindsKey.of_canonicalizes {key : CanonicalKey} {bound type canonical : TypeRef}
    {scope : ScopeRef} (binds : before.BindsKey key bound)
    (canonicalizes : before.Canonicalizes scope type canonical after) :
    after.BindsKey key bound := by
  obtain ⟨scope, name, ref, symbol, isBound, named, stored, isType⟩ := binds
  have steps := canonicalizes.steps
  exact ⟨scope, name, ref, symbol, steps.continues.binds _ _ _ isBound, steps.names_kept named,
    canonicalizes.symbols stored, isType⟩

theorem Adopts.self_or_bindsKey {scope : ScopeRef} {type canonical : TypeRef}
    (adopts : before.Adopts scope type canonical after) :
    canonical = type ∨ ∃ key, after.BindsKey key canonical := by
  cases adopts with
  | scalar => exact .inl rfl
  | settled _ canonicalizes => exact canonicalizes.self_or_bindsKey
  | twice _ canonicalizes _ again =>
      rcases again.self_or_bindsKey with rfl | bound
      · exact canonicalizes.self_or_bindsKey.imp_right
          fun ⟨key, bound⟩ => ⟨key, bound.of_canonicalizes again⟩
      · exact .inr bound

theorem Adopts.retypes {ref : StatementRef} {statement : Statement} {scope : ScopeRef}
    {var : SymbolRef} {symbol : Symbol} {canonical : TypeRef} {symbols : Arena .symbol Symbol}
    (adopts : before.Adopts scope symbol.type canonical middle)
    (found : before.statement ref = .ok statement)
    (declares : statement.kind = .varDeclaration var)
    (stored : before.symbols.get? var = some symbol)
    (changed : middle.symbols.modify var (fun symbol => { symbol with type := canonical }) =
      .ok symbols) : Step middle { middle with symbols } := by
  obtain ⟨_, placed⟩ := Layout.statement_eq_ok_iff.mp found
  refine .retype (adopts.steps.statement_kept placed) declares changed ?_
  exact adopts.self_or_bindsKey.imp_left
    fun isType => ⟨symbol, adopts.symbols stored, isType.symm⟩

theorem Resolves.steps {ref : StatementRef} (resolves : before.Resolves ref after) :
    Steps before after := by
  cases resolves with
  | declaration found declares stored adopts changed =>
      exact adopts.steps.tail (adopts.retypes found declares stored changed)
  | other => exact .refl

theorem ResolvesAll.steps {order : List StatementRef} (resolves : before.ResolvesAll order after) :
    Steps before after := by
  induction resolves with
  | nil => exact .refl
  | cons first _ induction => exact first.steps.trans induction

end Program

end StructuralTypes
