import StructuralTypes.Proofs.CompanionSteps

/-! Locality of canonical declarations. What is built over an element with a place of its own
stands behind the element's declaration, in the same body and scope; everything else that
canonicalizing variables declares stands in the shared body. This holds wherever a run ends. -/

namespace StructuralTypes

namespace Program

variable {program source before after : Program}

/-- A symbol that has a definition in a scope that is neither built in nor shared. -/
def Local (program : Program) (symbol : Symbol) : Prop :=
  program.OpenScope symbol.scope ∧ symbol.scope ≠ sharedScope ∧ symbol.definition ≠ .absent

def DeclaresElement (program : Program) (form : TypeForm) (ref : SymbolRef) (symbol : Symbol) :
    Prop :=
  ∃ element inner, form.element? = some element ∧
    program.types.get? element = some { form := inner, symbol := some ref } ∧
    program.symbols.get? ref = some symbol

theorem Local.homeBeside {ref : SymbolRef} {symbol : Symbol} (isLocal : program.Local symbol)
    (stored : program.symbols.get? ref = some symbol) :
    program.homeBeside ref = .ok (.beside ref symbol.scope) := by
  rcases isLocal with ⟨⟨content, scopeStored, opened⟩, notShared, defined⟩
  refine homeBeside_eq_ok_iff.mpr ⟨symbol, content, stored, scopeStored, ?_⟩
  rw [if_neg (by simp [opened, notShared, defined])]

theorem Belongs.eq_beside {form : TypeForm} {home : Home} (belongs : program.Belongs form home)
    {ref : SymbolRef} {symbol : Symbol} (declares : program.DeclaresElement form ref symbol)
    (isLocal : program.Local symbol) : home = .beside ref symbol.scope := by
  rcases declares with ⟨element, inner, found, stored, symbolStored⟩
  cases belongs with
  | leaf bare =>
      rw [bare] at found
      cases found
  | element again otherStored beside =>
      rw [found] at again
      cases again
      rcases node_unique stored otherStored with ⟨-, same⟩
      cases same
      rw [isLocal.homeBeside symbolStored] at beside
      exact (Except.ok.inj beside).symm

theorem Belongs.eq_shared {form : TypeForm} {home : Home} (belongs : program.Belongs form home)
    (elsewhere : ∀ ref symbol, program.DeclaresElement form ref symbol →
      ¬program.Local symbol) : home = .shared := by
  cases belongs with
  | leaf => rfl
  | @element element inner ref _ found stored beside =>
      cases home with
      | shared => rfl
      | beside other scope =>
          rcases homeBeside_beside beside with
            ⟨rfl, notShared, symbol, symbolStored, rfl, defined, opened⟩
          exact absurd ⟨opened, notShared, defined⟩
            (elsewhere _ symbol ⟨element, inner, found, stored, symbolStored⟩)

/-- `ref` is bound in the scope of `element`, and declared in the body of that scope behind
`element`, with nothing but synthesized declarations in between. -/
structure StandsBehind (program : Program) (ref : SymbolRef) (symbol element : Symbol) : Prop where
  scope : symbol.scope = element.scope
  bound : program.Binds element.scope symbol.name ref
  trails : ∃ anchor declaration body content, element.definition = .statement anchor ∧
    symbol.definition = .statement declaration ∧
    program.layout.bodies.get? body = some content ∧ content.scope = element.scope ∧
    program.layout.Trails body anchor declaration

structure StandsShared (program : Program) (ref : SymbolRef) (symbol : Symbol) : Prop where
  scope : symbol.scope = sharedScope
  bound : program.Binds sharedScope symbol.name ref
  linked : ∃ declaration, symbol.definition = .statement declaration ∧
    program.layout.LinkedIn declaration sharedBody

theorem Situated.standsBehind {ref elementRef : SymbolRef} {symbol element : Symbol}
    {form : TypeForm} (situated : program.Situated ref symbol)
    (stored : program.types.get? symbol.type = some { form, symbol := some ref })
    (declares : program.DeclaresElement form elementRef element)
    (isLocal : program.Local element) : program.StandsBehind ref symbol element := by
  rcases situated.sited with ⟨again, home, declaration, found, belongs, isScope, defined, stands⟩
  rcases node_unique stored found with ⟨rfl, -⟩
  cases belongs.eq_beside declares isLocal
  have bound := situated.bound
  rw [isScope] at bound
  rcases declares with ⟨_, _, -, -, elementStored⟩
  rcases stands with _ | ⟨recordStored, anchored, holder, bodyScope, trails⟩
  cases Option.mem_unique elementStored recordStored
  exact ⟨isScope, bound, _, declaration, _, _, anchored, defined, holder, bodyScope, trails⟩

theorem Situated.standsShared {ref : SymbolRef} {symbol : Symbol} {form : TypeForm}
    (situated : program.Situated ref symbol)
    (stored : program.types.get? symbol.type = some { form, symbol := some ref })
    (elsewhere : ∀ elementRef element, program.DeclaresElement form elementRef element →
      ¬program.Local element) : program.StandsShared ref symbol := by
  rcases situated.sited with ⟨again, home, declaration, found, belongs, isScope, defined, stands⟩
  rcases node_unique stored found with ⟨rfl, -⟩
  cases belongs.eq_shared elsewhere
  have bound := situated.bound
  rw [isScope] at bound
  rcases stands with ⟨linked⟩
  exact ⟨isScope, bound, declaration, defined, linked⟩

end Program

/-- Wherever a run ends without a fault, an array or a sequence that it has declared over a local
element stands behind the declaration of the element, and everything else that the walk over the
variables has declared is shared. -/
theorem canonicalizeTypes_places {calls : List Call} {source : Program} {own : Progress Unit}
    {options : Options} {final : Walker (Progress Unit)} (built : layOut calls = .ok source)
    (ends : Ends (canonicalizeTypes .silent options ⟨source, own⟩) final) :
    ∀ ref symbol, source.symbols.get? ref = none →
      final.program.symbols.get? ref = some symbol →
      ∃ form, final.program.types.get? symbol.type = some { form, symbol := some ref } ∧
        (∀ elementRef element, final.program.DeclaresElement form elementRef element →
          final.program.Local element → final.program.StandsBehind ref symbol element) ∧
        ((∀ elementRef element, final.program.DeclaresElement form elementRef element →
            ¬final.program.Local element) →
          (endState ((variableTypes .silent).walkProgram ⟨source, own⟩)).program.symbols.get? ref ≠
            none → final.program.StandsShared ref symbol) := by
  intro ref symbol isNew stored
  rcases canonicalizeTypes_ends ends with ⟨middle, rfl, steps, settling⟩
  have sited := (Program.sited_refl (Program.composed_of_layOut built).toLexical).steps
    (Program.intact_of_laidOut (laidOut_of_layOut built)) steps
  -- What the first walk has not declared declares the companion of a domain.
  cases old : (endState ((variableTypes .silent).walkProgram ⟨source, own⟩)).program.symbols.get?
      ref with
  | some older =>
      cases Option.mem_unique stored (settling.symbol_kept old)
      have situated := (sited.situated ref symbol isNew old).of_continues settling.continues
      rcases situated.sited with ⟨form, -, -, found, -⟩
      exact ⟨form, found, fun _ _ declares isLocal => situated.standsBehind found declares isLocal,
        fun elsewhere _ => situated.standsShared found elsewhere⟩
  | none =>
      rcases settling.symbol_cases stored with resolved | ⟨subject, isIndex⟩
      · rw [old] at resolved
        contradiction
      · refine ⟨.index subject, isIndex, ?_, fun _ never => absurd rfl never⟩
        rintro elementRef element ⟨_, _, found, -⟩
        cases found

def recordCalls : List Call :=
  [.addModule, .addType .nominal, .declareType ⟨1⟩ "R" ⟨7⟩, .addType (.sequence ⟨7⟩),
    .declareVar ⟨1⟩ "rows" ⟨8⟩, .addType (.sequence ⟨7⟩), .addType (.tuple [⟨9⟩]),
    .declareVar ⟨1⟩ "pair" ⟨10⟩]

/-- The run fails at the tuple, and leaves the sequence behind the record. -/
theorem canonicalizeTypes_places_before_failure :
    ∃ source failure final, layOut recordCalls = .ok source ∧
      canonicalizeTypes .silent {} ⟨source, { journal := () }⟩ = .error (.failed failure) final ∧
      ∃ symbol element, final.program.symbols.get? ⟨10⟩ = some symbol ∧
        final.program.symbols.get? ⟨7⟩ = some element ∧
        final.program.StandsBehind ⟨10⟩ symbol element := by
  obtain ⟨source, isBuilt, isNew, ⟨failure, final⟩, fails, stored, declared⟩ :
    ∃ source ∈ (layOut recordCalls).toOption, source.symbols.get? ⟨10⟩ = none ∧
      ∃ ran ∈ failed? (canonicalizeTypes .silent {} ⟨source, { journal := () }⟩),
        (∃ symbol ∈ ran.2.program.symbols.get? ⟨10⟩,
          ran.2.program.types.get? symbol.type =
            some { form := .sequence ⟨7⟩, symbol := some ⟨10⟩ }) ∧
        ∃ element ∈ ran.2.program.symbols.get? ⟨7⟩,
          ran.2.program.types.get? ⟨7⟩ = some { form := .nominal, symbol := some ⟨7⟩ } ∧
          element.scope = ⟨2⟩ ∧ element.definition ≠ .absent ∧
          ∃ content ∈ ran.2.program.scopes.get? ⟨2⟩, content.intrinsic = false := by
    decide +kernel
  have built := Except.toOption_eq_some_iff.mp isBuilt
  have ran := failed?_eq_some_iff.mp fails
  rcases stored with ⟨symbol, stored, sequence⟩
  rcases declared with ⟨element, elementStored, nominal, isScope, defined, content, opened⟩
  rcases canonicalizeTypes_places built (.inr ⟨failure, ran⟩) ⟨10⟩ symbol isNew stored with
    ⟨form, found, behind, -⟩
  rcases Program.node_unique found sequence with ⟨rfl, -⟩
  refine ⟨source, failure, final, built, ran, symbol, element, stored, elementStored, ?_⟩
  refine behind ⟨7⟩ element ⟨⟨7⟩, .nominal, rfl, nominal, elementStored⟩ ⟨?_, ?_, defined⟩
  · exact ⟨content, isScope ▸ opened⟩
  · simp [isScope, Program.sharedScope]

end StructuralTypes
