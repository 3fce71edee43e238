import StructuralTypes.Canonical.Pipeline
import StructuralTypes.Proofs.Interruption

/-! Runs that differ in what they note on the way. Where one run keeps a record that the other one
does not, forgetting the record takes every state of the first to one of the second, so both do
the same to the program and end in the same way. -/

namespace StructuralTypes

def seenThrough {ε σ ρ α : Type} (view : σ → ρ) :
    EStateM.Result ε σ α → EStateM.Result ε ρ α
  | .ok answer state => .ok answer (view state)
  | .error failure state => .error failure (view state)

/-- Through `view`, the first computation looks like the second one. -/
def Mirrors {ε σ ρ α : Type} (view : σ → ρ) (first : EStateM ε σ α) (second : EStateM ε ρ α) :
    Prop :=
  ∀ state, second (view state) = seenThrough view (first state)

/-! ## Sequences of steps -/

section

variable {ε σ ρ α β : Type} {view : σ → ρ}

theorem mirrors_pure (value : α) :
    Mirrors view (pure value : EStateM ε σ α) (pure value : EStateM ε ρ α) :=
  fun _ => rfl

theorem mirrors_throw (failure : ε) :
    Mirrors view (throw failure : EStateM ε σ α) (throw failure : EStateM ε ρ α) :=
  fun _ => rfl

theorem mirrors_modify {change : σ → σ} {other : ρ → ρ}
    (same : ∀ state, other (view state) = view (change state)) :
    Mirrors view (modify change : EStateM ε σ PUnit) (modify other : EStateM ε ρ PUnit) := by
  intro state
  change EStateM.Result.ok PUnit.unit (other (view state)) = .ok PUnit.unit (view (change state))
  rw [same]

theorem Mirrors.ok {first : EStateM ε σ α} {second : EStateM ε ρ α}
    (mirrors : Mirrors view first second) {before after : σ} {answer : α}
    (ran : first before = .ok answer after) :
    second (view before) = .ok answer (view after) := by
  rw [mirrors before, ran]
  rfl

theorem Mirrors.trans {π : Type} {other : ρ → π} {first : EStateM ε σ α} {second : EStateM ε ρ α}
    {third : EStateM ε π α} (mirrors : Mirrors view first second)
    (again : Mirrors other second third) :
    Mirrors (fun state => other (view state)) first third := by
  intro state
  rw [again (view state), mirrors state]
  cases first state <;> rfl

theorem Mirrors.bind {first : EStateM ε σ α} {second : EStateM ε ρ α}
    {rest : α → EStateM ε σ β} {later : α → EStateM ε ρ β} (mirrors : Mirrors view first second)
    (mirrorsRest : ∀ value, Mirrors view (rest value) (later value)) :
    Mirrors view (first >>= rest) (second >>= later) := by
  intro state
  simp only [Bind.bind, EStateM.bind, mirrors state]
  cases first state with
  | ok value middle => exact mirrorsRest value middle
  | error failure middle => rfl

theorem Mirrors.exists_of_ends {first : EStateM (Halt ε) σ α} {second : EStateM (Halt ε) ρ α}
    (mirrors : Mirrors view first second) {before : σ} {after : ρ}
    (ends : Ends (second (view before)) after) :
    ∃ inner, Ends (first before) inner ∧ view inner = after := by
  rw [mirrors before] at ends
  cases ran : first before with
  | ok answer inner =>
      rw [ran] at ends
      rcases ends with ⟨_, same⟩ | ⟨_, same⟩ <;> cases same
      exact ⟨inner, .inl ⟨answer, rfl⟩, rfl⟩
  | error halt inner =>
      rw [ran] at ends
      rcases ends with ⟨_, same⟩ | ⟨failure, same⟩ <;> cases same
      exact ⟨inner, .inr ⟨failure, rfl⟩, rfl⟩

theorem mirrors_get_bind {rest : σ → EStateM ε σ β} {later : ρ → EStateM ε ρ β}
    (mirrors : ∀ state, Mirrors view (rest state) (later (view state))) :
    Mirrors view ((get : EStateM ε σ σ) >>= rest) ((get : EStateM ε ρ ρ) >>= later) :=
  fun state => mirrors state state

theorem mirrors_forM {action : α → EStateM ε σ PUnit} {other : α → EStateM ε ρ PUnit}
    (each : ∀ element, Mirrors view (action element) (other element)) (elements : List α) :
    Mirrors view (elements.forM action) (elements.forM other) := by
  induction elements with
  | nil => exact mirrors_pure _
  | cons head rest induction => exact (each head).bind fun _ => induction

end

/-! ## Walks -/

def Walker.seen {σ ρ : Type} (view : σ → ρ) (walker : Walker σ) : Walker ρ :=
  ⟨walker.program, view walker.own⟩

namespace Walk

variable {ε σ ρ α : Type} {view : σ → ρ}

theorem mirrors_ask (question : Program → Except Fault α) :
    Mirrors (Walker.seen view) (ask question : Walk ε σ α) (ask question) := by
  intro walker
  simp only [ask, Walker.seen]
  split <;> rfl

theorem mirrors_perform (edit : Edit α) :
    Mirrors (Walker.seen view) (perform edit : Walk ε σ α) (perform edit) := by
  intro walker
  simp only [perform, Walker.seen]
  split <;> rfl

theorem mirrors_fault (fault : Fault) :
    Mirrors (Walker.seen view) (Walk.fault fault : Walk ε σ α) (Walk.fault fault) :=
  mirrors_throw _

end Walk

namespace Traversal

variable {ε σ ρ : Type} {view : σ → ρ} {first : Traversal ε σ} {second : Traversal ε ρ}

structure Mirrors (view : σ → ρ) (first : Traversal ε σ) (second : Traversal ε ρ) : Prop where
  enter : ∀ ref, StructuralTypes.Mirrors (Walker.seen view) (first.enterStatement ref)
    (second.enterStatement ref)
  visit : ∀ type, StructuralTypes.Mirrors (Walker.seen view) (first.visitType type)
    (second.visitType type)
  leave : ∀ ref, StructuralTypes.Mirrors (Walker.seen view) (first.leaveStatement ref)
    (second.leaveStatement ref)
  nesting : second.nesting = first.nesting

namespace Mirrors

variable (mirrors : Mirrors view first second)
include mirrors

theorem walkTypeWithin (depth : Nat) (type : TypeRef) :
    StructuralTypes.Mirrors (Walker.seen view) (first.walkTypeWithin depth type)
      (second.walkTypeWithin depth type) := by
  induction depth generalizing type with
  | zero => exact Walk.mirrors_fault _
  | succ depth induction =>
      exact (mirrors.visit type).bind fun _ => (Walk.mirrors_ask _).bind fun form =>
        mirrors_forM induction form.children

theorem walkType (type : TypeRef) :
    StructuralTypes.Mirrors (Walker.seen view) (first.walkType type) (second.walkType type) := by
  refine mirrors_get_bind fun walker => ?_
  rw [mirrors.nesting]
  exact mirrors.walkTypeWithin _ type

theorem walkStatement (ref : StatementRef) :
    StructuralTypes.Mirrors (Walker.seen view) (first.walkStatement ref)
      (second.walkStatement ref) := by
  refine (mirrors.enter ref).bind fun _ => (Walk.mirrors_ask _).bind fun statement => ?_
  cases statement.declared? with
  | none => exact mirrors.leave ref
  | some declared =>
      exact (Walk.mirrors_ask _).bind fun symbol =>
        (mirrors.walkType symbol.type).bind fun _ => mirrors.leave ref

theorem walkProgram :
    StructuralTypes.Mirrors (Walker.seen view) first.walkProgram second.walkProgram :=
  (Walk.mirrors_ask _).bind fun order => mirrors_forM mirrors.walkStatement order

end Mirrors

end Traversal

/-! ## Canonicalizing with another hook -/

def Progress.seen {τ υ : Type} (view : τ → υ) (progress : Progress τ) : Progress υ :=
  { progress with journal := view progress.journal }

def Session.seen {τ υ : Type} (view : τ → υ) (session : Session τ) : Session υ :=
  { session with own := session.own.seen view }

def SequenceHook.Mirrors {τ υ : Type} (view : τ → υ) (first : SequenceHook τ)
    (second : SequenceHook υ) : Prop :=
  ∀ type journal, second.materialize type (view journal) = view <$> first.materialize type journal

namespace Canon

variable {τ υ α : Type} {view : τ → υ}

theorem mirrors_ask (question : Program → Except Fault α) :
    Mirrors (Session.seen view) (ask question : Canon τ α) (ask question) := by
  intro session
  simp only [ask, Session.seen]
  split <;> rfl

theorem mirrors_perform (edit : Edit α) :
    Mirrors (Session.seen view) (perform edit : Canon τ α) (perform edit) := by
  intro session
  simp only [perform, Session.seen]
  split <;> rfl

theorem mirrors_fail (cause : Cause) :
    Mirrors (Session.seen view) (fail cause : Canon τ α) (fail cause) :=
  mirrors_get_bind fun _ => mirrors_throw _

theorem mirrors_count (change : Tally → Tally) :
    Mirrors (Session.seen view) (count change : Canon τ Unit) (count change) :=
  mirrors_modify fun _ => rfl

theorem mirrors_inScope (scope : ScopeRef) {action : Canon τ α} {other : Canon υ α}
    (mirrors : Mirrors (Session.seen view) action other) :
    Mirrors (Session.seen view) (inScope scope action) (inScope scope other) := by
  intro session
  have same : other { session.seen view with scope } = _ := mirrors { session with scope }
  simp only [inScope, same]
  cases action { session with scope } <;> rfl

theorem mirrors_materialize {first : SequenceHook τ} {second : SequenceHook υ}
    (mirrors : first.Mirrors view second) (type : TypeRef) :
    Mirrors (Session.seen view) (materialize first type) (materialize second type) := by
  refine mirrors_get_bind fun session => fun before => ?_
  have same : second.materialize type (session.seen view).own.journal = _ :=
    mirrors type session.own.journal
  have unchanged : (before.seen view).program = before.program := rfl
  simp only [Bind.bind, EStateM.bind, perform, same, unchanged, Functor.map, EStateM.map]
  cases first.materialize type session.own.journal before.program <;> rfl

theorem mirrors_within (statement : StatementRef) (scope : ScopeRef) {action : Canon τ α}
    {other : Canon υ α} (mirrors : Mirrors (Session.seen view) action other) :
    Mirrors (Walker.seen (Progress.seen view)) (within statement scope action)
      (within statement scope other) := by
  intro walker
  have same : other { walker.seen (Progress.seen view) with scope, statement } = _ :=
    mirrors { walker with scope, statement }
  simp only [within, same]
  cases action { walker with scope, statement } <;> rfl

/-! What does not tell the hook anything is the same with every journal. -/

theorem mirrors_settle (text : String) (fresh : TypeRef) (placement : Placement) :
    Mirrors (Session.seen view) (settle text fresh placement : Canon τ Settled)
      (settle text fresh placement) := by
  refine mirrors_get_bind fun session => (mirrors_perform _).bind fun name =>
    (mirrors_ask _).bind fun existing => ?_
  cases existing with
  | some existing =>
      exact (mirrors_count _).bind fun _ => (mirrors_ask _).bind fun _ => mirrors_pure _
  | none =>
      refine Mirrors.bind ?_ fun position => (mirrors_perform _).bind fun _ =>
        (mirrors_ask _).bind fun shape => (mirrors_count _).bind fun _ => mirrors_pure _
      cases placement with
      | shared | before => exact mirrors_pure _
      | afterElement element =>
          refine (mirrors_ask _).bind fun declaration => ?_
          cases declaration with
          | some declaration => exact mirrors_pure _
          | none =>
              exact (mirrors_ask _).bind fun _ => (mirrors_ask _).bind fun _ => mirrors_fail _

theorem mirrors_settleShared (key : CanonicalKey) (fresh : TypeRef) :
    Mirrors (Session.seen view) (settleShared key fresh : Canon τ TypeRef)
      (settleShared key fresh) :=
  mirrors_inScope _ ((mirrors_settle _ _ _).bind fun _ => mirrors_pure _)

theorem mirrors_expectAnonymous (type : TypeRef) :
    Mirrors (Session.seen view) (expectAnonymous type : Canon τ Unit) (expectAnonymous type) := by
  refine (mirrors_ask _).bind fun name => ?_
  cases name with
  | none => exact mirrors_pure _
  | some name => exact (mirrors_ask _).bind fun _ => mirrors_fail _

theorem mirrors_domain (type : TypeRef) :
    Mirrors (Session.seen view) (domain type : Canon τ TypeRef) (domain type) := by
  refine (mirrors_ask _).bind fun form => ?_
  split
  · refine (mirrors_expectAnonymous type).bind fun _ => ?_
    split
    · exact mirrors_fail _
    · exact (mirrors_perform _).bind fun _ => mirrors_settleShared _ _
  · exact mirrors_fail _

theorem mirrors_componentNames (position : Nat) (components : List TypeRef) :
    Mirrors (Session.seen view) (componentNames position components : Canon τ (List String))
      (componentNames position components) := by
  induction components generalizing position with
  | nil => exact mirrors_pure _
  | cons head tail induction =>
      refine (mirrors_ask _).bind fun name => ?_
      cases name with
      | some name => exact (induction (position + 1)).bind fun _ => mirrors_pure _
      | none => exact mirrors_fail _

theorem mirrors_tuple (type : TypeRef) :
    Mirrors (Session.seen view) (tuple type : Canon τ TypeRef) (tuple type) := by
  refine (mirrors_ask _).bind fun form => ?_
  split
  · exact (mirrors_expectAnonymous type).bind fun _ => (mirrors_componentNames _ _).bind fun _ =>
      mirrors_settleShared _ _
  · exact mirrors_fail _

theorem mirrors_indexKey (subject : ExpressionRef) (lookupScope : ScopeRef) :
    Mirrors (Session.seen view) (indexKey subject lookupScope : Canon τ CanonicalKey)
      (indexKey subject lookupScope) := by
  refine (mirrors_ask _).bind fun expression => ?_
  cases expression with
  | literal value => exact mirrors_pure _
  | iteration domains => exact mirrors_fail _
  | reference symbol =>
      refine (mirrors_ask _).bind fun declared => (mirrors_ask _).bind fun found => ?_
      cases found with
      | none => exact (mirrors_ask _).bind fun _ => mirrors_fail _
      | some found =>
          refine (mirrors_ask _).bind fun denoting => (mirrors_ask _).bind fun shape => ?_
          split
          · refine (mirrors_ask _).bind fun name => ?_
            cases name with
            | some text => exact mirrors_pure _
            | none => exact mirrors_fail _
          · exact (mirrors_ask _).bind fun _ => mirrors_fail _

theorem mirrors_index (type : TypeRef) (lookupScope : ScopeRef) :
    Mirrors (Session.seen view) (index type lookupScope : Canon τ TypeRef)
      (index type lookupScope) := by
  refine (mirrors_ask _).bind fun form => ?_
  split
  · exact (mirrors_expectAnonymous type).bind fun _ => (mirrors_indexKey _ _).bind fun _ =>
      mirrors_settleShared _ _
  · exact mirrors_fail _

theorem mirrors_indexOrSelf (type : TypeRef) (lookupScope : ScopeRef) :
    Mirrors (Session.seen view) (indexOrSelf type lookupScope : Canon τ TypeRef)
      (indexOrSelf type lookupScope) := by
  refine (mirrors_ask _).bind fun shape => ?_
  split
  · exact mirrors_index type lookupScope
  · exact mirrors_pure _

theorem mirrors_rangeDomain (range : ExpressionRef) :
    Mirrors (Session.seen view) (rangeDomain range : Canon τ (TypeRef × Nat))
      (rangeDomain range) := by
  refine (mirrors_ask _).bind fun expression => ?_
  split
  · refine (mirrors_ask _).bind fun single => ?_
    split
    · refine (mirrors_ask _).bind fun symbol => (mirrors_ask _).bind fun form => ?_
      split
      · exact mirrors_pure _
      · exact (mirrors_ask _).bind fun _ => mirrors_fail _
    · exact mirrors_fail _
  · exact mirrors_fail _
  · exact mirrors_fail _

/-! Arrays and sequences hand on what their elements do. -/

theorem mirrors_settleElement {canonicalize : TypeRef → Canon τ TypeRef}
    {other : TypeRef → Canon υ TypeRef}
    (mirrors : ∀ type, Mirrors (Session.seen view) (canonicalize type) (other type))
    (shape : Shape) (type element : TypeRef) :
    Mirrors (Session.seen view) (settleElement shape canonicalize type element)
      (settleElement shape other type element) := by
  refine (mirrors element).bind fun canonical => (mirrors_perform _).bind fun _ =>
    Mirrors.bind ?_ fun symbol => (mirrors_ask _).bind fun _ => mirrors_pure _
  refine (mirrors_ask _).bind fun symbol => ?_
  cases symbol with
  | some symbol => exact mirrors_pure _
  | none => exact (mirrors_ask _).bind fun _ => mirrors_fail _

theorem mirrors_arrayWith {canonicalize : TypeRef → Canon τ TypeRef}
    {other : TypeRef → Canon υ TypeRef}
    (mirrors : ∀ type, Mirrors (Session.seen view) (canonicalize type) (other type))
    (type : TypeRef) :
    Mirrors (Session.seen view) (arrayWith canonicalize type) (arrayWith other type) := by
  refine (mirrors_ask _).bind fun form => ?_
  split
  · refine (mirrors_expectAnonymous type).bind fun _ =>
      (mirrors_settleElement mirrors _ _ _).bind fun found => mirrors_inScope _ ?_
    refine (mirrors_rangeDomain _).bind fun ranged => (mirrors_ask _).bind fun name =>
      (mirrors_settle _ _ _).bind fun settled => ?_
    cases settled with
    | reused existing => exact mirrors_pure _
    | created created => exact (mirrors_perform _).bind fun _ => mirrors_pure _
  · exact mirrors_fail _

section

variable {first : SequenceHook τ} {second : SequenceHook υ} (hooks : first.Mirrors view second)
include hooks

theorem mirrors_sequenceWith {canonicalize : TypeRef → Canon τ TypeRef}
    {other : TypeRef → Canon υ TypeRef}
    (mirrors : ∀ type, Mirrors (Session.seen view) (canonicalize type) (other type))
    (type : TypeRef) :
    Mirrors (Session.seen view) (sequenceWith first canonicalize type)
      (sequenceWith second other type) := by
  refine (mirrors_ask _).bind fun form => ?_
  split
  · refine (mirrors_expectAnonymous type).bind fun _ =>
      (mirrors_settleElement mirrors _ _ _).bind fun found => Mirrors.bind ?_ fun settled => ?_
    · exact mirrors_inScope _ ((mirrors_ask _).bind fun _ => mirrors_settle _ _ _)
    · cases settled with
      | reused existing => exact mirrors_pure _
      | created created =>
          exact (mirrors_materialize hooks created).bind fun _ => mirrors_pure _
  · exact mirrors_fail _

omit hooks in
theorem mirrors_elementWith {composite : TypeRef → Canon τ TypeRef}
    {other : TypeRef → Canon υ TypeRef}
    (mirrors : ∀ type, Mirrors (Session.seen view) (composite type) (other type))
    (element : TypeRef) :
    Mirrors (Session.seen view) (elementWith composite element) (elementWith other element) := by
  refine (mirrors_ask _).bind fun symbol => ?_
  cases symbol with
  | some symbol => exact mirrors_pure _
  | none =>
      refine (mirrors_ask _).bind fun shape => ?_
      split
      · exact mirrors_get_bind fun session => mirrors_index element session.scope
      · exact mirrors element

theorem mirrors_compositeWithin (depth : Nat) (type : TypeRef) :
    Mirrors (Session.seen view) (compositeWithin first depth type)
      (compositeWithin second depth type) := by
  induction depth generalizing type with
  | zero => exact mirrors_throw _
  | succ depth induction =>
      have element := mirrors_elementWith induction
      refine (mirrors_ask _).bind fun shape => ?_
      cases shape with
      | array => exact mirrors_arrayWith element type
      | domain => exact mirrors_domain type
      | tuple => exact mirrors_tuple type
      | sequence => exact mirrors_sequenceWith hooks element type
      | primitive | nominal | index => exact mirrors_pure _

theorem mirrors_declaredType (type : TypeRef) (scope : ScopeRef) :
    Mirrors (Session.seen view) (declaredType first type scope)
      (declaredType second type scope) := by
  refine Mirrors.bind ?_ fun canonical => mirrors_indexOrSelf canonical scope
  exact mirrors_get_bind fun session => mirrors_compositeWithin hooks _ type

end

end Canon

/-- The walk over the variables does the same whatever its hook journals. -/
theorem mirrors_variableTypes {τ υ : Type} {view : τ → υ} {first : SequenceHook τ}
    {second : SequenceHook υ} (hooks : first.Mirrors view second) :
    (variableTypes first).Mirrors (Progress.seen view) (variableTypes second) where
  enter ref := by
    refine (Walk.mirrors_ask _).bind fun statement => ?_
    split
    · exact (Walk.mirrors_ask _).bind fun symbol =>
        (Canon.mirrors_within _ _ (Canon.mirrors_declaredType hooks _ _)).bind fun _ =>
          Walk.mirrors_perform _
    · exact mirrors_pure _
  visit _ := mirrors_pure _
  leave _ := mirrors_pure _
  nesting := rfl

end StructuralTypes
