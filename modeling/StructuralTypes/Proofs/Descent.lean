import StructuralTypes.Proofs.Grounding

/-! How deep passes go. A pass follows the elements of a type, and a walk its parts, so over a
program without cycles neither goes deeper than the program has types: no pass comes to the limit
that its definition sets. -/

namespace StructuralTypes

/-! ## Computations that do not come to the limit -/

/-- A question has an answer or a fault other than that of the limit. -/
def Reads {α : Type} (answer : Except Fault α) : Prop :=
  answer ≠ .error .nestingLimit

/-- Started in `before`, a computation does not come to the limit. -/
def Shallow {ε σ α : Type} (computation : EStateM (Halt ε) σ α) (before : σ) : Prop :=
  ∀ after, computation before ≠ .error (.fault .nestingLimit) after

def Edit.Shallow {α : Type} (edit : Edit α) : Prop :=
  ∀ before after, edit before ≠ .error .nestingLimit after

section

variable {ε σ α β : Type} {before : σ}

@[simp] theorem reads_pure (value : α) : Reads (pure value) := nofun

theorem reads_throw {fault : Fault} (other : fault ≠ .nestingLimit) :
    Reads (throw fault : Except Fault α) :=
  fun same => other (Except.error.inj same)

@[simp] theorem reads_bind_iff {first : Except Fault α} {rest : α → Except Fault β} :
    Reads (first >>= rest) ↔ Reads first ∧ ∀ value, first = .ok value → Reads (rest value) := by
  cases first <;> simp [Reads, bind, Except.bind]

@[simp] theorem reads_map_iff {answer : Except Fault α} {change : α → β} :
    Reads (change <$> answer) ↔ Reads answer := by
  cases answer <;> simp [Reads, Functor.map, Except.map]

@[simp] theorem reads_get {entity : Entity} (arena : Arena entity α) (ref : Ref entity) :
    Reads (arena.get ref) := by
  unfold Arena.get
  split <;> nofun

@[simp] theorem reads_modify {entity : Entity} (arena : Arena entity α) (ref : Ref entity)
    (change : α → α) : Reads (arena.modify ref change) := by
  unfold Arena.modify
  split <;> nofun

@[simp] theorem shallow_bind_iff {first : EStateM (Halt ε) σ α} {rest : α → EStateM (Halt ε) σ β} :
    Shallow (first >>= rest) before ↔ Shallow first before ∧
      ∀ value middle, first before = .ok value middle → Shallow (rest value) middle := by
  unfold Shallow
  constructor
  · intro shallow
    exact ⟨fun after ran => shallow after (bind_eq_error_iff.mpr (.inl ran)),
      fun value middle ran after ran' =>
        shallow after (bind_eq_error_iff.mpr (.inr ⟨value, middle, ran, ran'⟩))⟩
  · rintro ⟨shallow, later⟩ after ran
    rcases bind_eq_error_iff.mp ran with ran | ⟨value, middle, ran, ran'⟩
    · exact shallow after ran
    · exact later value middle ran after ran'

@[simp] theorem shallow_map_iff {computation : EStateM (Halt ε) σ α} {change : α → β} :
    Shallow (change <$> computation) before ↔ Shallow computation before := by
  simp only [Shallow, Functor.map, EStateM.map]
  cases computation before <;> simp

@[simp] theorem shallow_pure (value : α) : Shallow (pure value : EStateM (Halt ε) σ α) before :=
  nofun

@[simp] theorem shallow_get : Shallow (get : EStateM (Halt ε) σ σ) before := nofun

@[simp] theorem shallow_modify (change : σ → σ) :
    Shallow (modify change : EStateM (Halt ε) σ PUnit) before := nofun

end

namespace Program

variable (program : Program)

@[simp] theorem reads_form (type : TypeRef) : Reads (program.form type) := by simp [form]

@[simp] theorem reads_shape (type : TypeRef) : Reads (program.shape type) := by simp [shape]

@[simp] theorem reads_typeSymbol? (type : TypeRef) : Reads (program.typeSymbol? type) := by
  simp [typeSymbol?]

@[simp] theorem reads_symbol (ref : SymbolRef) : Reads (program.symbol ref) := by simp [symbol]

@[simp] theorem reads_text (name : NameRef) : Reads (program.names.text name) := by
  simp [NameTable.text]

@[simp] theorem reads_symbolName (ref : SymbolRef) : Reads (program.symbolName ref) := by
  simp [symbolName]

@[simp] theorem reads_typeName? (type : TypeRef) : Reads (program.typeName? type) := by
  simp only [typeName?, reads_bind_iff, reads_typeSymbol?, true_and]
  rintro (_ | symbol) - <;> simp

@[simp] theorem reads_expression (ref : ExpressionRef) : Reads (program.expression ref) := by
  simp [expression]

@[simp] theorem reads_lookup (scope : ScopeRef) (name : NameRef) :
    Reads (program.lookup scope name) := by
  simp [lookup, Scopes.lookup]

@[simp] theorem reads_homeBeside (element : SymbolRef) : Reads (program.homeBeside element) := by
  simp only [homeBeside, reads_bind_iff, reads_symbol, true_and]
  intro symbol _
  refine ⟨by simp, fun scope _ => ?_⟩
  split <;> simp

@[simp] theorem reads_bodyOf (layout : Layout) (ref : StatementRef) :
    Reads (layout.bodyOf ref) := by
  simp [Layout.bodyOf]

@[simp] theorem reads_linkedDeclaration? (symbol : SymbolRef) :
    Reads (program.linkedDeclaration? symbol) := by
  simp only [linkedDeclaration?, reads_bind_iff, reads_symbol, true_and]
  intro symbol _
  split <;> simp

@[simp] theorem reads_statement (ref : StatementRef) : Reads (program.statement ref) := by
  simp [statement, Layout.statement]

@[simp] theorem reads_statementScope? (ref : StatementRef) :
    Reads (program.statementScope? ref) := by
  simp only [statementScope?, reads_bind_iff, reads_statement, true_and]
  intro statement _
  cases statement.declared? <;> simp

end Program

namespace Layout

@[simp] theorem reads_link (layout : Layout) (body : BodyRef) (new : StatementRef)
    (place : List StatementRef → List StatementRef) : Reads (layout.link body new place) := by
  simp only [link, reads_bind_iff, reads_modify, true_and, Program.reads_bodyOf]
  intro bodies _ holder _
  cases holder with
  | none => simp
  | some holder => exact reads_throw Fault.noConfusion

@[simp] theorem reads_anchorBody (layout : Layout) (anchor : StatementRef) :
    Reads (layout.anchorBody anchor) := by
  simp only [anchorBody, reads_bind_iff, Program.reads_bodyOf, true_and]
  intro holder _
  cases holder with
  | none => exact reads_throw Fault.noConfusion
  | some body => simp

theorem reads_position (layout : Layout) (position : Position) (new : StatementRef) :
    Reads (position.link new layout) := by
  cases position with
  | shared =>
      simp only [Position.link, placeSynthesized, reads_bind_iff, reads_get, true_and]
      intro content _
      cases content.lastSynthesized <;> simp [insertAfter, prepend]
  | after anchor => simp [Position.link, insertAfter]
  | before anchor => simp [Position.link, insertBefore]

end Layout

/-! ## Edits -/

namespace Edit

variable {α β : Type}

theorem shallow_of_ok {edit : Edit α} {answer : Program → α} {change : Program → Program}
    (edits : ∀ before, edit before = .ok (answer before) (change before)) : edit.Shallow := by
  intro before after ran
  rw [edits before] at ran
  cases ran

theorem shallow_bind {first : Edit α} {rest : α → Edit β} (shallow : first.Shallow)
    (later : ∀ value, (rest value).Shallow) : (first >>= rest).Shallow := by
  intro before after ran
  rcases bind_eq_error_iff.mp ran with ran | ⟨value, middle, -, ran⟩
  · exact shallow before after ran
  · exact later value middle after ran

theorem shallow_update {change : Program → Except Fault Program}
    (reads : ∀ program, Reads (change program)) : (update change).Shallow := by
  intro before after ran
  have reads := reads before
  unfold update at ran
  split at ran
  · cases ran
  · rename_i failed
    cases ran
    exact reads failed

theorem shallow_introduce (scope : ScopeRef) (name : NameRef) (fresh : TypeRef)
    (position : Position) : (introduce scope name fresh position).Shallow := by
  refine shallow_bind (shallow_of_ok fun _ => rfl) fun symbol => ?_
  refine shallow_bind (shallow_update (by simp)) fun _ => ?_
  refine shallow_bind (shallow_of_ok fun _ => rfl) fun declaration => ?_
  refine shallow_bind (shallow_update (by simp)) fun _ => ?_
  refine shallow_bind (shallow_update (by simp [Scopes.bind])) fun _ => ?_
  exact shallow_update fun program => by simp [Layout.reads_position]

end Edit

/-! ## Canonicalizing one type -/

namespace Canon

variable {τ α : Type} {before : Session τ}

@[simp] theorem shallow_ask {question : Program → Except Fault α}
    (reads : Reads (question before.program)) : Shallow (ask question) before := by
  intro after ran
  unfold ask at ran
  split at ran
  · cases ran
  · rename_i failed
    cases ran
    exact reads failed

@[simp] theorem shallow_perform {edit : Edit α} (shallow : edit.Shallow) :
    Shallow (perform edit) before := by
  intro after ran
  unfold perform at ran
  split at ran
  · cases ran
  · rename_i failed
    cases ran
    exact shallow _ _ failed

@[simp] theorem shallow_fail (cause : Cause) : Shallow (fail cause : Canon τ α) before := by
  intro after ran
  cases ran

@[simp] theorem shallow_count (change : Tally → Tally) :
    Shallow (count change : Canon τ Unit) before :=
  nofun

theorem shallow_inScope {scope : ScopeRef} {action : Canon τ α}
    (shallow : Shallow action { before with scope }) : Shallow (inScope scope action) before := by
  intro after ran
  obtain ⟨inner, ran, -⟩ := inScope_eq_error_iff.mp ran
  exact shallow inner ran

@[simp] theorem shallow_locate (fresh : TypeRef) (placement : Placement) :
    Shallow (locate fresh placement : Canon τ Position) before := by
  cases placement with
  | shared | before => simp [locate]
  | afterElement element =>
      simp only [locate, shallow_bind_iff]
      refine ⟨by simp, fun declaration middle _ => ?_⟩
      cases declaration <;> simp

@[simp] theorem shallow_settle (text : String) (fresh : TypeRef) (placement : Placement) :
    Shallow (settle text fresh placement : Canon τ Settled) before := by
  simp only [settle, shallow_bind_iff, shallow_get, true_and]
  intro _ _ _
  refine ⟨shallow_perform (Edit.shallow_of_ok fun _ => rfl), fun name _ _ => ?_⟩
  refine ⟨by simp, fun found _ _ => ?_⟩
  cases found with
  | some existing => simp
  | none => simp [Edit.shallow_introduce]

@[simp] theorem shallow_settleShared (key : CanonicalKey) (fresh : TypeRef) :
    Shallow (settleShared key fresh : Canon τ TypeRef) before :=
  shallow_inScope (by simp)

@[simp] theorem shallow_expectAnonymous (type : TypeRef) :
    Shallow (expectAnonymous type : Canon τ Unit) before := by
  simp only [expectAnonymous, shallow_bind_iff]
  refine ⟨by simp, fun name _ _ => ?_⟩
  cases name <;> simp

theorem shallow_changeForm (type : TypeRef) (change : TypeForm → TypeForm) :
    Shallow (perform (.changeForm type change) : Canon τ Unit) before :=
  shallow_perform (Edit.shallow_update (by simp))

@[simp] theorem shallow_domain (type : TypeRef) :
    Shallow (domain type : Canon τ TypeRef) before := by
  simp only [domain, shallow_bind_iff]
  refine ⟨by simp, fun form _ _ => ?_⟩
  cases form with
  | domain rank parent companion =>
      simp only [shallow_bind_iff, shallow_expectAnonymous, true_and]
      cases parent <;> simp [shallow_changeForm, unsupported]
  | _ => simp

@[simp] theorem shallow_componentNames (position : Nat) (components : List TypeRef) :
    Shallow (componentNames position components : Canon τ (List String)) before := by
  induction components generalizing position before with
  | nil => simp [componentNames]
  | cons component rest induction =>
      simp only [componentNames, shallow_bind_iff]
      refine ⟨by simp, fun name _ _ => ?_⟩
      cases name <;> simp [induction, unsupported]

@[simp] theorem shallow_tuple (type : TypeRef) : Shallow (tuple type : Canon τ TypeRef) before := by
  simp only [tuple, shallow_bind_iff]
  refine ⟨by simp, fun form _ _ => ?_⟩
  cases form <;> simp

@[simp] theorem shallow_indexKeyOfVariable (symbol : SymbolRef) (lookupScope : ScopeRef) :
    Shallow (indexKeyOfVariable symbol lookupScope : Canon τ CanonicalKey) before := by
  simp only [indexKeyOfVariable, shallow_bind_iff]
  refine ⟨by simp, fun _ _ _ => ⟨by simp, fun found _ _ => ?_⟩⟩
  cases found with
  | none => simp
  | some found =>
      simp only [shallow_bind_iff]
      refine ⟨by simp, fun denoted _ _ => ⟨by simp, fun shape _ _ => ?_⟩⟩
      cases shape with
      | domain =>
          simp only [shallow_bind_iff]
          refine ⟨by simp, fun name _ _ => ?_⟩
          cases name <;> simp [unsupported]
      | _ => simp [unsupported]

@[simp] theorem shallow_index (type : TypeRef) (lookupScope : ScopeRef) :
    Shallow (index type lookupScope : Canon τ TypeRef) before := by
  simp only [index, shallow_bind_iff]
  refine ⟨by simp, fun form _ _ => ?_⟩
  cases form with
  | index subject =>
      simp only [shallow_bind_iff, shallow_expectAnonymous, shallow_settleShared, indexKey]
      refine ⟨trivial, fun _ _ _ => ⟨⟨by simp, fun expression _ _ => ?_⟩, fun _ _ _ => trivial⟩⟩
      cases expression <;> simp [unsupported]
  | _ => simp

@[simp] theorem shallow_indexOrSelf (type : TypeRef) (lookupScope : ScopeRef) :
    Shallow (indexOrSelf type lookupScope : Canon τ TypeRef) before := by
  simp only [indexOrSelf, shallow_bind_iff]
  refine ⟨by simp, fun shape _ _ => ?_⟩
  cases shape <;> simp

@[simp] theorem shallow_rangeDomain (range : ExpressionRef) :
    Shallow (rangeDomain range : Canon τ (TypeRef × Nat)) before := by
  simp only [rangeDomain, shallow_bind_iff]
  refine ⟨by simp, fun expression _ _ => ?_⟩
  split
  · simp only [shallow_bind_iff]
    refine ⟨by simp, fun single _ _ => ?_⟩
    cases single with
    | reference symbol =>
        simp only [shallow_bind_iff]
        refine ⟨by simp, fun denoted _ _ => ⟨by simp, fun form _ _ => ?_⟩⟩
        cases form <;> simp [unsupported]
    | _ => simp [unsupported]
  · simp [unsupported]
  · simp [unsupported]

theorem shallow_settleElement {shape : Shape} {canonicalize : TypeRef → Canon τ TypeRef}
    {type element : TypeRef} (shallow : Shallow (canonicalize element) before) :
    Shallow (settleElement shape canonicalize type element) before := by
  simp only [settleElement, shallow_bind_iff, elementSymbol]
  refine ⟨shallow, fun canonical _ _ => ⟨shallow_changeForm _ _, fun _ _ _ => ⟨⟨by simp, ?_⟩, ?_⟩⟩⟩
  · intro symbol _ _
    cases symbol <;> simp [unsupported]
  · simp

end Canon

/-! ## Room to go down -/

namespace Program

variable {program : Program}

/-- The number of types below `type` is less than `depth` by more than one. -/
def Roomy (program : Program) (depth : Nat) (type : TypeRef) : Prop :=
  0 < depth ∧ ∀ node, program.types.get? type = some node → program.extent type + 1 < depth

theorem roomy_of_size_lt (acyclic : program.Acyclic) {depth : Nat}
    (large : program.types.size < depth) (type : TypeRef) : program.Roomy depth type := by
  refine ⟨by omega, fun node stored => ?_⟩
  have below := acyclic.extent_lt_size stored
  omega

theorem Roomy.part (acyclic : program.Acyclic) {depth : Nat} {part whole : TypeRef}
    (roomy : program.Roomy (depth + 1) whole) (isPart : program.PartOf part whole) :
    program.Roomy depth part := by
  obtain ⟨node, stored, -⟩ := id isPart
  have below := roomy.2 node stored
  refine ⟨by omega, fun inner innerStored => ?_⟩
  have less := acyclic.extent_lt innerStored isPart
  omega

end Program

/-! ## Canonicalizing composites -/

namespace Canon

variable {before : Session Unit} {type : TypeRef}

theorem shallow_arrayWith {canonicalize : TypeRef → Canon Unit TypeRef}
    (shallow : ∀ element, before.program.PartOf element type →
      Shallow (canonicalize element) before) : Shallow (arrayWith canonicalize type) before := by
  simp only [arrayWith, shallow_bind_iff]
  refine ⟨by simp, fun form middle asked => ?_⟩
  obtain ⟨found, rfl⟩ := ask_eq_ok_iff.mp asked
  obtain ⟨symbol, stored⟩ := Program.form_eq_ok_iff.mp found
  cases form with
  | array element range recorded =>
      simp only [shallow_bind_iff, shallow_expectAnonymous, true_and]
      intro _ middle anonymous
      obtain ⟨rfl, -⟩ := expectAnonymous_eq_ok anonymous
      refine ⟨shallow_settleElement (shallow element ⟨_, stored, List.mem_cons_self⟩), ?_⟩
      rintro ⟨ref, home⟩ middle _
      refine shallow_inScope ?_
      simp only [shallow_bind_iff, shallow_rangeDomain, true_and]
      intro denoted _ _
      refine ⟨by simp, fun name _ _ => ⟨by simp, fun settled _ _ => ?_⟩⟩
      cases settled <;> simp [shallow_changeForm]
  | _ => simp

theorem shallow_materialize (type : TypeRef) : Shallow (materialize .silent type) before := by
  simp only [materialize, SequenceHook.silent, shallow_bind_iff, shallow_get, true_and]
  exact fun _ _ _ => ⟨shallow_perform (Edit.shallow_of_ok fun _ => rfl), fun _ _ _ => by simp⟩

theorem shallow_sequenceWith {canonicalize : TypeRef → Canon Unit TypeRef}
    (shallow : ∀ element, before.program.PartOf element type →
      Shallow (canonicalize element) before) :
    Shallow (sequenceWith .silent canonicalize type) before := by
  simp only [sequenceWith, shallow_bind_iff]
  refine ⟨by simp, fun form middle asked => ?_⟩
  obtain ⟨found, rfl⟩ := ask_eq_ok_iff.mp asked
  obtain ⟨symbol, stored⟩ := Program.form_eq_ok_iff.mp found
  cases form with
  | sequence element =>
      simp only [shallow_bind_iff, shallow_expectAnonymous, true_and]
      intro _ middle anonymous
      obtain ⟨rfl, -⟩ := expectAnonymous_eq_ok anonymous
      refine ⟨shallow_settleElement (shallow element ⟨_, stored, List.mem_singleton_self _⟩), ?_⟩
      rintro ⟨ref, home⟩ middle _
      refine ⟨shallow_inScope (by simp), fun settled _ _ => ?_⟩
      cases settled with
      | reused => simp
      | created => simp [shallow_materialize]
  | _ => simp

theorem shallow_elementWith {composite : TypeRef → Canon Unit TypeRef}
    (shallow : Shallow (composite type) before) : Shallow (elementWith composite type) before := by
  simp only [elementWith, shallow_bind_iff]
  refine ⟨by simp, fun symbol _ asked => ?_⟩
  obtain ⟨-, rfl⟩ := ask_eq_ok_iff.mp asked
  cases symbol with
  | some symbol => simp
  | none =>
      simp only [shallow_bind_iff]
      refine ⟨by simp, fun shape _ asked => ?_⟩
      obtain ⟨-, rfl⟩ := ask_eq_ok_iff.mp asked
      cases shape <;> first | exact shallow | simp

theorem shallow_compositeWithin (acyclic : before.program.Acyclic) {depth : Nat}
    (roomy : before.program.Roomy depth type) :
    Shallow (compositeWithin .silent depth type) before := by
  induction depth generalizing type with
  | zero => exact absurd roomy.1 (lt_irrefl 0)
  | succ depth induction =>
      have elements : ∀ element, before.program.PartOf element type →
          Shallow (elementWith (compositeWithin .silent depth) element) before :=
        fun element isPart => shallow_elementWith (induction (roomy.part acyclic isPart))
      simp only [compositeWithin, shallow_bind_iff]
      refine ⟨by simp, fun shape _ asked => ?_⟩
      obtain ⟨-, rfl⟩ := ask_eq_ok_iff.mp asked
      cases shape with
      | array => exact shallow_arrayWith elements
      | sequence => exact shallow_sequenceWith elements
      | _ => simp

theorem shallow_declaredType (acyclic : before.program.Acyclic) (scope : ScopeRef) :
    Shallow (declaredType .silent type scope) before := by
  simp only [declaredType, composite, nesting, shallow_bind_iff, shallow_indexOrSelf,
    shallow_get, shallow_pure, true_and, implies_true, and_true]
  rintro depth _ ran
  simp only [bind_eq_ok_iff, get_eq_ok_iff, pure_eq_ok_iff] at ran
  obtain ⟨_, _, ⟨rfl, rfl⟩, rfl, rfl⟩ := ran
  exact shallow_compositeWithin acyclic (Program.roomy_of_size_lt acyclic (Nat.lt_succ_self _) type)

end Canon

/-! ## Walks -/

/-- From where `good` holds, a computation does not come to the limit, and if it ends well, it ends
where `good` holds. -/
def Descends {ε σ α : Type} (good : σ → Prop) (computation : EStateM (Halt ε) σ α) : Prop :=
  ∀ before, good before → Shallow computation before ∧
    ∀ value after, computation before = .ok value after → good after

section

variable {ε σ α β : Type} {good : σ → Prop}

theorem descends_pure (value : α) : Descends good (pure value : EStateM (Halt ε) σ α) := by
  refine fun before isGood => ⟨shallow_pure value, fun _ after ran => ?_⟩
  exact (pure_eq_ok_iff.mp ran).2 ▸ isGood

theorem Descends.bind {first : EStateM (Halt ε) σ α} {rest : α → EStateM (Halt ε) σ β}
    (descends : Descends good first) (later : ∀ value, Descends good (rest value)) :
    Descends good (first >>= rest) := by
  intro before isGood
  obtain ⟨shallow, kept⟩ := descends before isGood
  refine ⟨shallow_bind_iff.mpr ⟨shallow, fun value middle ran => ?_⟩, fun answer after ran => ?_⟩
  · exact (later value middle (kept value middle ran)).1
  · obtain ⟨value, middle, ran, ranLater⟩ := bind_eq_ok_iff.mp ran
    exact (later value middle (kept value middle ran)).2 answer after ranLater

theorem descends_forM {action : α → EStateM (Halt ε) σ PUnit} {elements : List α}
    (each : ∀ element ∈ elements, Descends good (action element)) :
    Descends good (elements.forM action) := by
  induction elements with
  | nil => exact descends_pure _
  | cons head rest induction =>
      rw [List.forall_mem_cons] at each
      exact each.1.bind fun _ => induction each.2

end

namespace Walk

variable {ε σ α : Type} {good : Walker σ → Prop} {before : Walker σ}

@[simp] theorem shallow_ask {question : Program → Except Fault α}
    (reads : Reads (question before.program)) : Shallow (ask question : Walk ε σ α) before := by
  intro after ran
  unfold ask at ran
  split at ran
  · cases ran
  · rename_i failed
    cases ran
    exact reads failed

@[simp] theorem shallow_perform {edit : Edit α} (shallow : edit.Shallow) :
    Shallow (perform edit : Walk ε σ α) before := by
  intro after ran
  unfold perform at ran
  split at ran
  · cases ran
  · rename_i failed
    cases ran
    exact shallow _ _ failed

theorem shallow_focus {π : Type} {part : σ → π} {replace : σ → π → σ} {walk : Walk ε π α}
    (shallow : Shallow walk ⟨before.program, part before.own⟩) :
    Shallow (focus part replace walk) before := by
  intro after ran
  obtain ⟨inner, ran, -⟩ := focus_eq_error_iff.mp ran
  exact shallow inner ran

theorem descends_ask {question : Program → Except Fault α}
    (reads : ∀ program, Reads (question program)) :
    Descends good (ask question : Walk ε σ α) := by
  refine fun before isGood => ⟨shallow_ask (reads _), fun _ after ran => ?_⟩
  exact (ask_eq_ok_iff.mp ran).2 ▸ isGood

end Walk

theorem Canon.shallow_within {τ α : Type} {statement : StatementRef} {scope : ScopeRef}
    {action : Canon τ α} {before : Walker (Progress τ)}
    (shallow : Shallow action { before with scope, statement }) :
    Shallow (Canon.within statement scope action) before := by
  intro after ran
  obtain ⟨inner, ran, -⟩ := within_eq_error_iff.mp ran
  exact shallow inner ran

namespace Traversal

variable {ε σ : Type} {traversal : Traversal ε σ} {good : Walker σ → Prop}

/-- A walk into a type does not come to the limit if there is room for the type, and more than for
the parts that it meets there. -/
theorem descends_walkTypeWithin {room : Nat → TypeRef → Prop}
    (visits : ∀ type, Descends good (traversal.visitType type)) (closed : ∀ type, ¬room 0 type)
    (narrows : ∀ walker depth part whole, good walker → walker.program.PartOf part whole →
      room (depth + 1) whole → room depth part) {depth : Nat} {type : TypeRef}
    (roomy : room depth type) : Descends good (traversal.walkTypeWithin depth type) := by
  induction depth generalizing type with
  | zero => exact absurd roomy (closed type)
  | succ depth induction =>
      refine (visits type).bind fun _ => fun middle isGood => ?_
      have parts : ∀ form, middle.program.form type = .ok form →
          Descends good (form.children.forM (traversal.walkTypeWithin depth)) := by
        intro form found
        obtain ⟨symbol, stored⟩ := Program.form_eq_ok_iff.mp found
        exact descends_forM fun part member =>
          induction (narrows middle depth part type isGood ⟨_, stored, member⟩ roomy)
      refine ⟨shallow_bind_iff.mpr ⟨by simp, fun form inner asked => ?_⟩, fun _ after ran => ?_⟩
      · obtain ⟨found, rfl⟩ := Walk.ask_eq_ok_iff.mp asked
        exact (parts form found inner isGood).1
      · obtain ⟨form, inner, asked, walked⟩ := bind_eq_ok_iff.mp ran
        obtain ⟨found, rfl⟩ := Walk.ask_eq_ok_iff.mp asked
        exact (parts form found inner isGood).2 _ after walked

theorem descends_walkStatement (enters : ∀ ref, Descends good (traversal.enterStatement ref))
    (walks : ∀ type, Descends good (traversal.walkType type))
    (leaves : ∀ ref, Descends good (traversal.leaveStatement ref)) (ref : StatementRef) :
    Descends good (traversal.walkStatement ref) := by
  refine (enters ref).bind fun _ => (Walk.descends_ask (by simp)).bind fun statement => ?_
  cases statement.declared? with
  | none => exact leaves ref
  | some symbol =>
      exact (Walk.descends_ask (by simp)).bind fun declared =>
        (walks declared.type).bind fun _ => leaves ref

end Traversal

theorem Walk.Takes.descends {ε σ α : Type} {change : Program → Program → Prop}
    {good : Program → Prop} {walk : Walk ε σ α} (takes : walk.Takes change)
    (kept : ∀ before after, good before → Relation.ReflTransGen change before after → good after)
    (shallow : ∀ before : Walker σ, good before.program → Shallow walk before) :
    Descends (fun walker : Walker σ => good walker.program) walk :=
  fun before isGood => ⟨shallow before isGood, fun _ after ran =>
    kept _ _ isGood (takes before after (.inl ⟨_, ran⟩))⟩

@[simp] theorem Canon.shallow_settleCompanion {τ : Type} (type companion : TypeRef)
    (before : Session τ) : Shallow (settleCompanion type companion) before := by
  simp only [settleCompanion, shallow_bind_iff]
  refine ⟨by simp, fun shape _ _ => ⟨by simp, fun holder _ _ => ?_⟩⟩
  cases shape with
  | index =>
      cases holder with
      | some holder => simp
      | none =>
          simp only [shallow_bind_iff]
          refine ⟨by simp, fun name _ _ => ?_⟩
          cases name with
          | none => simp [unsupported]
          | some name =>
              simp only [shallow_bind_iff]
              exact ⟨shallow_inScope (by simp), fun _ _ _ => shallow_changeForm _ _⟩
  | _ => simp

theorem shallow_visitType (type : TypeRef) (before : Walker CompanionWalk) :
    Shallow (indexCompanions.visitType type) before := by
  simp only [indexCompanions, shallow_bind_iff, shallow_get, true_and]
  rintro _ middle -
  split
  · simp
  · simp only [shallow_bind_iff]
    refine ⟨by simp, fun form _ _ => ?_⟩
    split
    · exact Walk.shallow_focus (Canon.shallow_within (by simp))
    · simp

namespace Program

variable {source : Program} (intact : source.Intact) (unreserved : source.Unreserved)
include intact unreserved

theorem descends_variableTypes (ref : StatementRef) :
    Descends (fun walker => StaysStratified source walker.program)
      ((variableTypes .silent).walkStatement ref) := by
  have kept : ∀ before after, StaysStratified source before → Steps before after →
      StaysStratified source after :=
    fun _ _ stays => stays.steps intact unreserved
  refine Traversal.descends_walkStatement (fun ref => ?_) (fun type => ?_)
    (fun _ => descends_pure ()) ref
  · refine (takes_variableTypes.enter ref).descends kept fun before stays => ?_
    simp only [variableTypes, shallow_bind_iff]
    refine ⟨by simp, fun statement _ asked => ?_⟩
    obtain ⟨-, rfl⟩ := Walk.ask_eq_ok_iff.mp asked
    cases statement.kind with
    | varDeclaration var =>
        simp only [shallow_bind_iff]
        refine ⟨by simp, fun symbol _ asked => ?_⟩
        obtain ⟨-, rfl⟩ := Walk.ask_eq_ok_iff.mp asked
        refine ⟨Canon.shallow_within (Canon.shallow_declaredType stays.stratified.acyclic _), ?_⟩
        exact fun _ _ _ => Walk.shallow_perform (Edit.shallow_update (by simp))
    | _ => simp
  · refine (takes_variableTypes.walkType type).descends kept fun before stays => ?_
    have acyclic := stays.stratified.acyclic
    have walks : Descends (fun walker => walker.program = before.program)
        ((variableTypes .silent).walkTypeWithin (before.program.types.size + 1) type) := by
      refine Traversal.descends_walkTypeWithin (fun _ => descends_pure ())
        (fun _ roomy => lt_irrefl 0 roomy.1) ?_
        (roomy_of_size_lt acyclic (Nat.lt_succ_self _) type)
      rintro walker depth part whole same isPart roomy
      exact roomy.part acyclic (same ▸ isPart)
    exact (walks before rfl).1

theorem descends_indexCompanions (ref : StatementRef) :
    Descends (fun walker => StaysStratified source walker.program)
      (indexCompanions.walkStatement ref) := by
  have kept : ∀ before after, StaysStratified source before → CompanionSteps before after →
      StaysStratified source after := fun _ _ stays => stays.companionSteps intact unreserved
  have moves : ∀ current, Descends (fun walker => StaysStratified source walker.program)
      (CompanionWalk.setCurrent current) := fun current =>
    (show (CompanionWalk.setCurrent current).Takes CompanionStep from
      Walk.takes_update _).descends kept fun _ _ _ => nofun
  refine Traversal.descends_walkStatement (fun ref => ?_) (fun type => ?_) (fun _ => moves none) ref
  · exact (Walk.descends_ask (by simp)).bind fun scope => moves _
  · refine (takes_indexCompanions.walkType type).descends kept fun before stays => ?_
    obtain ⟨homed, acyclic, -, -, -⟩ := id stays
    -- An index type needs room for itself only, and no other type becomes a part on the way.
    let room : Nat → TypeRef → Prop := fun depth type =>
      (before.program.shape type = .ok .index ∧ 0 < depth) ∨
        ∃ less, depth = less + 1 ∧ before.program.Roomy less type
    have narrows : ∀ walker : Walker CompanionWalk, ∀ depth part whole,
        before.program.CompanionSteps walker.program → walker.program.PartOf part whole →
        room (depth + 1) whole → room depth part := by
      rintro walker depth part whole steps isPart (⟨isIndex, -⟩ | ⟨less, isDepth, roomy⟩)
      · exact absurd isPart (not_partOf_of_index ((CompanionSteps.retains steps).shape isIndex))
      · cases Nat.succ.inj isDepth
        obtain ⟨less, rfl⟩ := Nat.exists_eq_succ_of_ne_zero (Nat.ne_of_gt roomy.1)
        rcases stays.partOf_of_companionSteps intact unreserved steps isPart with old | isIndex
        · exact .inr ⟨less, rfl, roomy.part acyclic old⟩
        · exact .inl ⟨isIndex, roomy.1⟩
    have roomy : room (companionNesting before.program) type :=
      .inr ⟨2 * before.program.types.size + 1, rfl, roomy_of_size_lt acyclic (by omega) type⟩
    have closed : ∀ type, ¬room 0 type := by
      rintro type (⟨-, positive⟩ | ⟨less, isDepth, -⟩)
      · exact lt_irrefl 0 positive
      · cases isDepth
    have walks : Descends (fun walker => before.program.CompanionSteps walker.program)
        (indexCompanions.walkTypeWithin (companionNesting before.program) type) :=
      Traversal.descends_walkTypeWithin (fun type => (takes_visitType type).descends
        (fun _ _ => .trans) fun walker _ => shallow_visitType type walker) closed narrows roomy
    exact (walks before .refl).1

end Program

/-! ## The steps of a walk -/

namespace Traversal

variable {ε σ : Type}

/-- Walking into a type from `before`, the traversal has just visited that type or one inside it
and is at `after`. -/
inductive VisitsWithin (traversal : Traversal ε σ) :
    Nat → TypeRef → Walker σ → Walker σ → Prop
  | self {depth : Nat} {type : TypeRef} {before after : Walker σ}
      (visited : Ends (traversal.visitType type before) after) :
      VisitsWithin traversal (depth + 1) type before after
  | part {depth : Nat} {type part : TypeRef} {before middle inner after : Walker σ}
      {form : TypeForm} {front back : List TypeRef}
      (visited : traversal.visitType type before = .ok () middle)
      (found : middle.program.form type = .ok form)
      (parts : form.children = front ++ part :: back)
      (walked : front.forM (traversal.walkTypeWithin depth) middle = .ok () inner)
      (visits : VisitsWithin traversal depth part inner after) :
      VisitsWithin traversal (depth + 1) type before after

/-- Walking over a program from `before`, the traversal is at `after` between two statements, right
after entering one, or right after visiting a type. -/
inductive Stage (traversal : Traversal ε σ) (before : Walker σ) : Walker σ → Prop
  | between {order front back : List StatementRef} {after : Walker σ}
      (listed : before.program.preorder = .ok (front ++ back))
      (walked : front.forM traversal.walkStatement before = .ok () after) :
      Stage traversal before after
  | entered {front back : List StatementRef} {ref : StatementRef} {middle after : Walker σ}
      (listed : before.program.preorder = .ok (front ++ ref :: back))
      (walked : front.forM traversal.walkStatement before = .ok () middle)
      (entered : Ends (traversal.enterStatement ref middle) after) : Stage traversal before after
  | visited {front back : List StatementRef} {ref : StatementRef} {middle inner after : Walker σ}
      {statement : Statement} {declared : SymbolRef} {symbol : Symbol}
      (listed : before.program.preorder = .ok (front ++ ref :: back))
      (walked : front.forM traversal.walkStatement before = .ok () middle)
      (entered : traversal.enterStatement ref middle = .ok () inner)
      (found : inner.program.statement ref = .ok statement)
      (declares : statement.declared? = some declared)
      (stored : inner.program.symbol declared = .ok symbol)
      (visits : traversal.VisitsWithin (traversal.nesting inner.program) symbol.type inner after) :
      Stage traversal before after

variable {change : Program → Program → Prop} {traversal : Traversal ε σ} {before after : Walker σ}

theorem VisitsWithin.takes (takes : traversal.Takes change) {depth : Nat} {type : TypeRef}
    (visits : traversal.VisitsWithin depth type before after) :
    Relation.ReflTransGen change before.program after.program := by
  induction visits with
  | self visited => exact takes.visit _ _ _ visited
  | part visited _ _ walked _ induction =>
      have walks := Walk.takes_forM (takes.walkTypeWithin _) _ _ _ (.inl ⟨(), walked⟩)
      exact (takes.visit _ _ _ (.inl ⟨(), visited⟩)).trans (walks.trans induction)

theorem Stage.takes (takes : traversal.Takes change) (stage : traversal.Stage before after) :
    Relation.ReflTransGen change before.program after.program := by
  have walks : ∀ {front : List StatementRef} {after : Walker σ},
      front.forM traversal.walkStatement before = .ok () after →
      Relation.ReflTransGen change before.program after.program := fun walked =>
    Walk.takes_forM takes.walkStatement _ _ _ (.inl ⟨(), walked⟩)
  cases stage with
  | between _ walked => exact walks walked
  | entered _ walked entered => exact (walks walked).trans (takes.enter _ _ _ entered)
  | visited _ walked entered _ _ _ visits =>
      exact (walks walked).trans
        ((takes.enter _ _ _ (.inl ⟨(), entered⟩)).trans (visits.takes takes))

end Traversal

/-- Over a program without cycles, in which only scalars have declarations, passes leave no cycle
at any of their steps, and none of their walks goes as deep as the limit. -/
theorem passes_stay_acyclic {source current : Program} (intact : source.Intact)
    (acyclic : source.Acyclic) (raw : source.Raw) (unreserved : source.Unreserved)
    (passes : Relation.ReflTransGen Program.Passes source current) :
    current.Acyclic ∧
      (∀ own state, (variableTypes .silent).Stage ⟨current, own⟩ state → state.program.Acyclic) ∧
      (∀ own state, indexCompanions.Stage ⟨current, own⟩ state → state.program.Acyclic) ∧
      (∀ (order : List StatementRef) own,
        Shallow (order.forM (variableTypes .silent).walkStatement) ⟨current, own⟩) ∧
      ∀ (order : List StatementRef) own,
        Shallow (order.forM indexCompanions.walkStatement) ⟨current, own⟩ := by
  have stays := (Program.staysStratified_of_raw acyclic raw).passes intact unreserved passes
  refine ⟨stays.stratified.acyclic, fun own state stage => ?_, fun own state stage => ?_,
    fun order own => ?_, fun order own => ?_⟩
  · exact (stays.steps intact unreserved (stage.takes takes_variableTypes)).stratified.acyclic
  · exact (stays.companionSteps intact unreserved
      (stage.takes takes_indexCompanions)).stratified.acyclic
  · exact (descends_forM (fun ref _ => Program.descends_variableTypes intact unreserved ref)
      ⟨current, own⟩ stays).1
  · exact (descends_forM (fun ref _ => Program.descends_indexCompanions intact unreserved ref)
      ⟨current, own⟩ stays).1

def sequencesOfSequencesCalls : List Call :=
  [.addModule, .addType (.sequence ⟨1⟩), .addType (.sequence ⟨7⟩), .declareVar ⟨1⟩ "s" ⟨8⟩,
    .addType (.sequence ⟨1⟩), .addType (.sequence ⟨9⟩), .declareVar ⟨1⟩ "t" ⟨10⟩]

/-- The second variable's type, which is dropped, has come to refer to the first one's element. -/
theorem passes_stay_acyclic_of_sequences :
    ∃ source current : Program, layOut sequencesOfSequencesCalls = .ok source ∧
      Relation.ReflTransGen Program.Passes source current ∧
      current.form ⟨10⟩ = .ok (.sequence ⟨7⟩) ∧ current.Acyclic := by
  obtain ⟨source, isBuilt, raw, unreserved, final, isFinal, redirected⟩ :
    ∃ source ∈ (layOut sequencesOfSequencesCalls).toOption, source.Raw ∧ source.Unreserved ∧
      ∃ final ∈ finished? ((Pass.variableTypes .program).run ⟨source, .start {}⟩),
        final.program.form ⟨10⟩ = .ok (.sequence ⟨7⟩) := by
    decide +kernel
  have built := Except.toOption_eq_some_iff.mp isBuilt
  have laid := laidOut_of_layOut built
  have passes : Relation.ReflTransGen Program.Passes source final.program :=
    .single ⟨_, _, final, .inl ⟨(), finished?_eq_some_iff.mp isFinal⟩, rfl⟩
  exact ⟨source, final.program, built, passes, redirected,
    (passes_stay_acyclic (Program.intact_of_laidOut laid) (Program.acyclic_of_laidOut laid) raw
      unreserved passes).1⟩

end StructuralTypes
