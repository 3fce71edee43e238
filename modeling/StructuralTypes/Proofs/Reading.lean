import StructuralTypes.Canonical.Home
import StructuralTypes.Proofs.Construction
import StructuralTypes.Proofs.KeyName

/-! How the types of a program read before it is canonicalized: which types the
variables use, and what each of these is called, in which scope. None of this looks
at the state of a run. -/

namespace StructuralTypes

namespace TypeForm

def element? : TypeForm → Option TypeRef
  | .array element _ _ | .sequence element => some element
  | _ => none

def Scalar (form : TypeForm) : Prop :=
  form.shape = .primitive ∨ form.shape = .nominal

instance (form : TypeForm) : Decidable form.Scalar :=
  inferInstanceAs (Decidable (_ ∨ _))

theorem element?_of_scalar {form : TypeForm} (scalar : form.Scalar) : form.element? = none := by
  cases form <;> first | rfl | simp [Scalar, shape] at scalar

end TypeForm

namespace Program

variable (program : Program)

/-! ## Questions with an optional answer -/

def rank? (type : TypeRef) : Option Nat :=
  match program.types.get? type with
  | some { form := .domain rank _ _, .. } => some rank
  | _ => none

def typeOf? (var : SymbolRef) : Option TypeRef :=
  (program.symbols.get? var).map Symbol.type

def symbolText? (ref : SymbolRef) : Option String := do
  let symbol ← program.symbols.get? ref
  program.names.get? symbol.name

def rangeDomain? (range : ExpressionRef) : Option TypeRef :=
  match program.expressions.get? range with
  | some (.iteration [single]) =>
      match program.expressions.get? single with
      | some (.reference symbol) => (program.symbols.get? symbol).map Symbol.type
      | _ => none
  | _ => none

def rangeRank? (range : ExpressionRef) : Option Nat := do
  program.rank? (← program.rangeDomain? range)

def denotedIn? (scope : ScopeRef) (subject : SymbolRef) : Option TypeRef := do
  let symbol ← program.symbols.get? subject
  let content ← program.scopes.get? scope
  let found ← content.lookup symbol.name
  (program.symbols.get? found).map Symbol.type

/-- Name of a domain, which is that of its key if it has no declaration. -/
def domainName? (type : TypeRef) : Option String :=
  match program.types.get? type with
  | some { form := .domain .., symbol := some ref } => program.symbolText? ref
  | some { form := .domain rank none _, symbol := none } =>
      some (CanonicalKey.domain rank).name
  | _ => none

def boundNames : List String :=
  program.scopes.entries.toList.flatMap fun scope =>
    scope.bindings.filterMap fun binding => program.names.get? binding.1

/-- No scope binds a name that canonical declarations might take. -/
def Unreserved : Prop :=
  ∀ text ∈ program.boundNames, ¬Reserved text

instance : Decidable program.Unreserved :=
  inferInstanceAs (Decidable (∀ _ ∈ _, _))

def ScalarsNamed : Prop :=
  ∀ type form, program.types.get? type = some { form, symbol := none } → ¬form.Scalar

instance : Decidable program.ScalarsNamed :=
  decidable_of_iff (∀ type node, program.types.get? type = some node →
      node.symbol = none → ¬node.form.Scalar)
    ⟨fun named type form stored => named type _ stored rfl,
      fun named type node stored anonymous => named type node.form (by rw [stored, ← anonymous])⟩

/-! ## The types that variables use -/

def declaredVariables : List SymbolRef :=
  program.layout.statements.entries.toList.filterMap fun placed =>
    match placed.statement.kind with
    | .varDeclaration var => some var
    | _ => none

/-- A type with its element, the element of that, and so on up to the first type
that has a name or no element. -/
def chain (type : TypeRef) : List TypeRef :=
  type ::
    match program.types.get? type with
    | some { form, symbol := none } =>
        match form.element? with
        | some element =>
            if _below : element.index < type.index then chain element else []
        | none => []
    | _ => []
termination_by type.index

/-- `type` is on the chain of a variable that a statement declares in `scope`. -/
def UsedIn (scope : ScopeRef) (type : TypeRef) : Prop :=
  ∃ var ∈ program.declaredVariables, ∃ symbol, program.symbols.get? var = some symbol ∧
    symbol.scope = scope ∧ type ∈ program.chain symbol.type

variable {program : Program}

theorem rank?_eq_some_iff {type : TypeRef} {rank : Nat} :
    program.rank? type = some rank ↔
      ∃ parent companion symbol, program.types.get? type =
        some { form := .domain rank parent companion, symbol } := by
  unfold rank?
  constructor
  · intro found
    split at found
    · rename_i stored
      cases Option.some.inj found
      exact ⟨_, _, _, stored⟩
    · contradiction
  · intro holds
    rcases holds with ⟨parent, companion, symbol, stored⟩
    rw [stored]

theorem typeOf?_eq_some {var : SymbolRef} {symbol : Symbol}
    (stored : program.symbols.get? var = some symbol) :
    program.typeOf? var = some symbol.type := by
  rw [typeOf?, stored, Option.map_some]

theorem symbolText?_eq_some_iff {ref : SymbolRef} {text : String} :
    program.symbolText? ref = some text ↔
      ∃ symbol, program.symbols.get? ref = some symbol ∧
        program.names.get? symbol.name = some text := by
  simp [symbolText?, Option.bind_eq_some_iff]

theorem rangeDomain?_eq_some_iff {range : ExpressionRef} {domain : TypeRef} :
    program.rangeDomain? range = some domain ↔
      ∃ single ref symbol,
        program.expressions.get? range = some (.iteration [single]) ∧
        program.expressions.get? single = some (.reference ref) ∧
        program.symbols.get? ref = some symbol ∧ symbol.type = domain := by
  unfold rangeDomain?
  constructor
  · intro found
    split at found
    · rename_i single iterates
      split at found
      · rename_i ref refers
        rcases Option.map_eq_some_iff.mp found with ⟨symbol, stored, same⟩
        exact ⟨single, ref, symbol, iterates, refers, stored, same⟩
      · contradiction
    · contradiction
  · intro holds
    rcases holds with ⟨single, ref, symbol, iterates, refers, stored, rfl⟩
    rw [iterates]
    simp only [refers, stored, Option.map_some]

theorem denotedIn?_eq_some_iff {scope : ScopeRef} {ref : SymbolRef} {type : TypeRef} :
    program.denotedIn? scope ref = some type ↔
      ∃ symbol found other, program.symbols.get? ref = some symbol ∧
        program.Binds scope symbol.name found ∧
        program.symbols.get? found = some other ∧ other.type = type := by
  simp only [denotedIn?, Option.bind_eq_bind, Option.bind_eq_some_iff,
    Option.map_eq_some_iff, Binds]
  constructor
  · intro holds
    rcases holds with ⟨symbol, stored, content, scopeStored, found, bound, other, otherStored, same⟩
    exact ⟨symbol, found, other, stored, ⟨content, scopeStored, bound⟩, otherStored, same⟩
  · intro holds
    rcases holds with
      ⟨symbol, found, other, stored, ⟨content, scopeStored, bound⟩, otherStored, same⟩
    exact ⟨symbol, stored, content, scopeStored, found, bound, other, otherStored, same⟩

theorem mem_boundNames {scope : ScopeRef} {name : NameRef} {ref : SymbolRef}
    {text : String} (binds : program.Binds scope name ref)
    (named : program.names.get? name = some text) : text ∈ program.boundNames := by
  rcases binds with ⟨content, stored, found⟩
  rcases List.lookup_eq_some_iff.mp found with ⟨front, back, split, -⟩
  refine List.mem_flatMap.mpr ⟨content, ?_, List.mem_filterMap.mpr ⟨(name, ref), ?_, named⟩⟩
  · exact Array.mem_toList_iff.mpr (Array.mem_of_getElem? stored)
  · simp [split]

theorem mem_declaredVariables_iff {var : SymbolRef} :
    var ∈ program.declaredVariables ↔
      ∃ ref placed, program.layout.statements.get? ref = some placed ∧
        placed.statement.kind = .varDeclaration var := by
  simp only [declaredVariables, List.mem_filterMap, Array.mem_toList_iff]
  constructor
  · intro holds
    rcases holds with ⟨placed, member, declares⟩
    rcases Array.mem_iff_getElem.mp member with ⟨index, inside, same⟩
    refine ⟨⟨index⟩, placed, ?_, ?_⟩
    · simp [Arena.get?, inside, same]
    · split at declares
      · rename_i other kind
        rw [kind, Option.some.inj declares]
      · contradiction
  · intro holds
    rcases holds with ⟨ref, placed, stored, declares⟩
    exact ⟨placed, Array.mem_of_getElem? stored, by rw [declares]⟩

theorem mem_chain_self (type : TypeRef) : type ∈ program.chain type := by
  rw [chain]
  exact List.mem_cons_self

theorem mem_chain_cases {type part : TypeRef} (member : part ∈ program.chain type) :
    part = type ∨ ∃ form element, program.types.get? type = some { form, symbol := none } ∧
      form.element? = some element ∧ part ∈ program.chain element := by
  rw [chain] at member
  rcases List.mem_cons.mp member with same | later
  · exact .inl same
  · right
    split at later
    · rename_i form stored
      split at later
      · rename_i element found
        split at later
        · exact ⟨form, element, stored, found, later⟩
        · simp at later
      · simp at later
    · simp at later

theorem element_below (laid : LaidOut program) {type element : TypeRef} {form : TypeForm}
    {symbol : Option SymbolRef} (stored : program.types.get? type = some { form, symbol })
    (found : form.element? = some element) : element.index < type.index := by
  apply laid.parts_below type _ stored element
  cases form <;> simp_all [TypeForm.element?, TypeForm.children]

theorem mem_chain_of_element (laid : LaidOut program) {type element part : TypeRef}
    {form : TypeForm} (stored : program.types.get? type = some { form, symbol := none })
    (found : form.element? = some element) (member : part ∈ program.chain element) :
    part ∈ program.chain type := by
  rw [chain, stored]
  simp only [found]
  rw [dif_pos (element_below laid stored found)]
  exact List.mem_cons_of_mem _ member

theorem mem_chain_trans (laid : LaidOut program) {type middle part : TypeRef}
    (first : middle ∈ program.chain type) (second : part ∈ program.chain middle) :
    part ∈ program.chain type := by
  induction bound : type.index using Nat.strongRecOn generalizing type with
  | ind index induction =>
      rcases mem_chain_cases first with rfl | ⟨form, element, stored, found, inner⟩
      · exact second
      · have below := element_below laid stored found
        exact mem_chain_of_element laid stored found
          (induction element.index (bound ▸ below) inner rfl)

theorem UsedIn.element (laid : LaidOut program) {scope : ScopeRef}
    {type element : TypeRef} {form : TypeForm} (used : program.UsedIn scope type)
    (stored : program.types.get? type = some { form, symbol := none })
    (found : form.element? = some element) : program.UsedIn scope element := by
  rcases used with ⟨var, declared, symbol, symbolStored, same, member⟩
  exact ⟨var, declared, symbol, symbolStored, same,
    mem_chain_trans laid member
      (mem_chain_of_element laid stored found (mem_chain_self element))⟩

/-! ## Names and homes -/

theorem homeBeside_eq_ok_iff {ref : SymbolRef} {home : Home} :
    program.homeBeside ref = .ok home ↔
      ∃ symbol content, program.symbols.get? ref = some symbol ∧
        program.scopes.get? symbol.scope = some content ∧
        home =
          if content.intrinsic ∨ symbol.definition = .absent ∨ symbol.scope = sharedScope
          then .shared else .beside ref symbol.scope := by
  simp only [homeBeside, Except.bind_eq_ok_iff, symbol_eq_ok_iff, Arena.get_eq_ok_iff]
  constructor
  · intro holds
    rcases holds with ⟨symbol, stored, content, scopeStored, chosen⟩
    refine ⟨symbol, content, stored, scopeStored, ?_⟩
    split at chosen <;> simp_all [pure, Except.pure]
  · intro holds
    rcases holds with ⟨symbol, content, stored, scopeStored, rfl⟩
    refine ⟨symbol, stored, content, scopeStored, ?_⟩
    split <;> rfl

/-- `type` is to be declared as `text` in `scope`, unless it has a declaration, which
then has the name `text` and draws what is built over the type into `scope`. -/
inductive Called (program : Program) : TypeRef → String → ScopeRef → Prop
  | named {type : TypeRef} {form : TypeForm} {ref : SymbolRef} {text : String}
      {home : Home}
      (stored : program.types.get? type = some { form, symbol := some ref })
      (name : program.symbolText? ref = some text)
      (beside : program.homeBeside ref = .ok home) :
      Called program type text home.scope
  | array {type element : TypeRef} {range : ExpressionRef} {recorded : Option TypeRef}
      {rank : Nat} {text : String} {scope : ScopeRef}
      (stored : program.types.get? type =
        some { form := .array element range recorded, symbol := none })
      (ranked : program.rangeRank? range = some rank)
      (inner : Called program element text scope) :
      Called program type (CanonicalKey.array text rank).name scope
  | sequence {type element : TypeRef} {text : String} {scope : ScopeRef}
      (stored : program.types.get? type =
        some { form := .sequence element, symbol := none })
      (inner : Called program element text scope) :
      Called program type (CanonicalKey.sequence text).name scope
  | domain {type : TypeRef} {rank : Nat} {companion : Option TypeRef}
      (stored : program.types.get? type =
        some { form := .domain rank none companion, symbol := none }) :
      Called program type (CanonicalKey.domain rank).name sharedScope
  | tuple {type : TypeRef} {components : List TypeRef} {text : TypeRef → String}
      {scope : TypeRef → ScopeRef}
      (stored : program.types.get? type =
        some { form := .tuple components, symbol := none })
      (each : ∀ component ∈ components,
        Called program component (text component) (scope component)) :
      Called program type (CanonicalKey.tuple (components.map text)).name sharedScope
  | ofLiteral {type : TypeRef} {subject : ExpressionRef} {value : Int}
      (stored : program.types.get? type =
        some { form := .index subject, symbol := none })
      (denotes : program.expressions.get? subject = some (.literal value)) :
      Called program type (CanonicalKey.indexOfLiteral value).name sharedScope
  /-- The variable is looked up in the scope of whichever variable uses the type. -/
  | ofVariable {type domain : TypeRef} {subject : ExpressionRef} {ref : SymbolRef}
      {scope : ScopeRef} {text : String}
      (stored : program.types.get? type =
        some { form := .index subject, symbol := none })
      (denotes : program.expressions.get? subject = some (.reference ref))
      (used : program.UsedIn scope type)
      (found : program.denotedIn? scope ref = some domain)
      (name : program.domainName? domain = some text) :
      Called program type (CanonicalKey.indexOfDomain text).name sharedScope

theorem Called.exists_key {type : TypeRef} {text : String} {scope : ScopeRef}
    (called : program.Called type text scope) {form : TypeForm}
    (stored : program.types.get? type = some { form, symbol := none }) :
    ∃ key : CanonicalKey, key.name = text ∧ key.shape = form.shape := by
  cases called with
  | named found _ _ =>
      rw [stored] at found
      simp at found
  | array found _ _ | sequence found _ | domain found | tuple found _
  | ofLiteral found _ | ofVariable found _ _ _ _ =>
      rw [stored] at found
      simp only [Option.some.injEq, TypeNode.mk.injEq, and_true] at found
      exact ⟨_, rfl, by rw [found]; rfl⟩

theorem Called.not_scalar {type : TypeRef} {text : String} {scope : ScopeRef}
    (called : program.Called type text scope) {form : TypeForm}
    (stored : program.types.get? type = some { form, symbol := none }) : ¬form.Scalar := by
  rcases called.exists_key stored with ⟨key, -, shaped⟩
  intro holds
  rcases holds with primitive | nominal
  · exact key.shape_structural.1 (shaped.trans primitive)
  · exact key.shape_structural.2 (shaped.trans nominal)

theorem Called.reserved {type : TypeRef} {text : String} {scope : ScopeRef}
    (called : program.Called type text scope) {form : TypeForm}
    (stored : program.types.get? type = some { form, symbol := none }) :
    Reserved text := by
  rcases called.exists_key stored with ⟨key, rfl, -⟩
  exact key.reserved_name

theorem Called.shape_eq {left right : TypeRef} {text : String}
    {leftScope rightScope : ScopeRef} (leftCalled : program.Called left text leftScope)
    (rightCalled : program.Called right text rightScope) {leftForm rightForm : TypeForm}
    (leftStored : program.types.get? left = some { form := leftForm, symbol := none })
    (rightStored : program.types.get? right = some { form := rightForm, symbol := none }) :
    leftForm.shape = rightForm.shape := by
  rcases leftCalled.exists_key leftStored with ⟨leftKey, leftName, leftShape⟩
  rcases rightCalled.exists_key rightStored with ⟨rightKey, rightName, rightShape⟩
  rw [← leftShape, ← rightShape]
  exact CanonicalKey.shape_eq_of_name_eq (leftName.trans rightName.symm)

theorem Called.eq_domain {type : TypeRef} {text : String} {scope : ScopeRef}
    (called : program.Called type text scope) {rank : Nat}
    {parent companion : Option TypeRef}
    (stored : program.types.get? type =
      some { form := .domain rank parent companion, symbol := none }) :
    parent = none ∧ text = (CanonicalKey.domain rank).name ∧ scope = sharedScope := by
  cases called with
  | domain found =>
      rw [stored] at found
      simp only [Option.some.injEq, TypeNode.mk.injEq, TypeForm.domain.injEq] at found
      rcases found with ⟨⟨rfl, rfl, -⟩, -⟩
      exact ⟨rfl, rfl, rfl⟩
  | named found _ _ | array found _ _ | sequence found _ | tuple found _
  | ofLiteral found _ | ofVariable found _ _ _ _ =>
      rw [stored] at found
      simp at found

theorem Called.effectiveRank_eq {left right : TypeRef} {text : String}
    {leftScope rightScope : ScopeRef} (leftCalled : program.Called left text leftScope)
    (rightCalled : program.Called right text rightScope) {leftRank rightRank : Nat}
    {leftParent leftCompanion rightParent rightCompanion : Option TypeRef}
    (leftStored : program.types.get? left =
      some { form := .domain leftRank leftParent leftCompanion, symbol := none })
    (rightStored : program.types.get? right =
      some { form := .domain rightRank rightParent rightCompanion, symbol := none }) :
    effectiveRank leftRank = effectiveRank rightRank := by
  have leftName := (leftCalled.eq_domain leftStored).2.1
  have rightName := (rightCalled.eq_domain rightStored).2.1
  exact CanonicalKey.effectiveRank_eq_of_domain (leftName.symm.trans rightName)

section

variable {type : TypeRef} {text : String} {scope : ScopeRef}
  (called : program.Called type text scope)
include called

/-! What a type is called, by its form. -/

theorem Called.of_named {form : TypeForm} {ref : SymbolRef}
    (stored : program.types.get? type = some { form, symbol := some ref }) :
    program.symbolText? ref = some text ∧
      ∃ home, program.homeBeside ref = .ok home ∧ scope = home.scope := by
  cases called with
  | named found name beside =>
      rw [stored] at found
      simp only [Option.some.injEq, TypeNode.mk.injEq] at found
      rcases found with ⟨rfl, rfl⟩
      exact ⟨name, _, beside, rfl⟩
  | array found _ _ | sequence found _ | domain found | tuple found _
  | ofLiteral found _ | ofVariable found _ _ _ _ =>
      rw [stored] at found
      simp at found

theorem Called.of_array {element : TypeRef} {range : ExpressionRef}
    {recorded : Option TypeRef}
    (stored : program.types.get? type =
      some { form := .array element range recorded, symbol := none }) :
    ∃ inner rank, text = (CanonicalKey.array inner rank).name ∧
      program.rangeRank? range = some rank ∧ program.Called element inner scope := by
  cases called with
  | array found ranked inner =>
      rw [stored] at found
      simp only [Option.some.injEq, TypeNode.mk.injEq, TypeForm.array.injEq, and_true] at found
      rcases found with ⟨rfl, rfl, rfl⟩
      exact ⟨_, _, rfl, ranked, inner⟩
  | named found _ _ | sequence found _ | domain found | tuple found _
  | ofLiteral found _ | ofVariable found _ _ _ _ =>
      rw [stored] at found
      simp at found

theorem Called.of_sequence {element : TypeRef}
    (stored : program.types.get? type =
      some { form := .sequence element, symbol := none }) :
    ∃ inner, text = (CanonicalKey.sequence inner).name ∧
      program.Called element inner scope := by
  cases called with
  | sequence found inner =>
      rw [stored] at found
      simp only [Option.some.injEq, TypeNode.mk.injEq, TypeForm.sequence.injEq,
        and_true] at found
      subst found
      exact ⟨_, rfl, inner⟩
  | named found _ _ | array found _ _ | domain found | tuple found _
  | ofLiteral found _ | ofVariable found _ _ _ _ =>
      rw [stored] at found
      simp at found

theorem Called.of_tuple {components : List TypeRef}
    (stored : program.types.get? type =
      some { form := .tuple components, symbol := none }) :
    scope = sharedScope ∧ ∃ inner : TypeRef → String,
      text = (CanonicalKey.tuple (components.map inner)).name ∧
      ∀ component ∈ components, ∃ home, program.Called component (inner component) home := by
  cases called with
  | tuple found each =>
      rw [stored] at found
      simp only [Option.some.injEq, TypeNode.mk.injEq, TypeForm.tuple.injEq, and_true] at found
      subst found
      exact ⟨rfl, _, rfl, fun component member => ⟨_, each component member⟩⟩
  | named found _ _ | array found _ _ | sequence found _ | domain found
  | ofLiteral found _ | ofVariable found _ _ _ _ =>
      rw [stored] at found
      simp at found

theorem Called.of_literal {subject : ExpressionRef} {value : Int}
    (stored : program.types.get? type = some { form := .index subject, symbol := none })
    (denotes : program.expressions.get? subject = some (.literal value)) :
    scope = sharedScope ∧ text = (CanonicalKey.indexOfLiteral value).name := by
  cases called with
  | ofLiteral found other =>
      rw [stored] at found
      simp only [Option.some.injEq, TypeNode.mk.injEq, TypeForm.index.injEq, and_true] at found
      subst found
      rw [denotes] at other
      simp only [Option.some.injEq, Expression.literal.injEq] at other
      subst other
      exact ⟨rfl, rfl⟩
  | ofVariable found other _ _ _ =>
      rw [stored] at found
      simp only [Option.some.injEq, TypeNode.mk.injEq, TypeForm.index.injEq, and_true] at found
      subst found
      rw [denotes] at other
      simp at other
  | named found _ _ | array found _ _ | sequence found _ | domain found | tuple found _ =>
      rw [stored] at found
      simp at found

theorem Called.of_variable {subject : ExpressionRef} {ref : SymbolRef}
    (stored : program.types.get? type = some { form := .index subject, symbol := none })
    (denotes : program.expressions.get? subject = some (.reference ref)) :
    scope = sharedScope ∧ ∃ user domain inner,
      text = (CanonicalKey.indexOfDomain inner).name ∧ program.UsedIn user type ∧
      program.denotedIn? user ref = some domain ∧
      program.domainName? domain = some inner := by
  cases called with
  | ofVariable found other used denoted name =>
      rw [stored] at found
      simp only [Option.some.injEq, TypeNode.mk.injEq, TypeForm.index.injEq, and_true] at found
      subst found
      rw [denotes] at other
      simp only [Option.some.injEq, Expression.reference.injEq] at other
      subst other
      exact ⟨rfl, _, _, _, rfl, used, denoted, name⟩
  | ofLiteral found other =>
      rw [stored] at found
      simp only [Option.some.injEq, TypeNode.mk.injEq, TypeForm.index.injEq, and_true] at found
      subst found
      rw [denotes] at other
      simp at other
  | named found _ _ | array found _ _ | sequence found _ | domain found | tuple found _ =>
      rw [stored] at found
      simp at found

end

theorem Called.openScope (laid : LaidOut program) {type : TypeRef} {text : String}
    {scope : ScopeRef} (called : program.Called type text scope) :
    program.OpenScope scope := by
  induction called with
  | named stored name beside =>
      rcases homeBeside_eq_ok_iff.mp beside with ⟨symbol, content, -, scopeStored, rfl⟩
      split
      · exact laid.shared
      · rename_i outside
        simp only [not_or, Bool.not_eq_true] at outside
        exact ⟨content, scopeStored, outside.1⟩
  | array _ _ _ induction | sequence _ _ induction => exact induction
  | domain | tuple | ofLiteral | ofVariable => exact laid.shared

end Program

end StructuralTypes
