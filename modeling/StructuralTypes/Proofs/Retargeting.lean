import StructuralTypes.Proofs.Innermost
import StructuralTypes.Proofs.Restoration
import StructuralTypes.Proofs.Retention

/-! Which scope a variable is looked up in. Arrays and sequences switch to the scope of their
element, but only once that has settled. So an index type is looked up in the scope that the
outermost of the types around it is canonicalized in, however many of them there are, and nothing
of the switches is left in the end. -/

namespace StructuralTypes

/-! ## The depth of a stack -/

namespace Program

variable {program : Program} {levels : List TypeRef} {leaf : TypeRef} {bottom : TypeForm}

theorem Stacked.nests {node : TypeRef} (stacked : program.Stacked levels leaf)
    (member : node ∈ levels) : program.Nests (levels.headD leaf) node := by
  induction levels with
  | nil => cases member
  | cons outer rest induction =>
      rcases stacked with ⟨⟨form, stored, found⟩, stacked⟩
      rcases List.mem_cons.mp member with rfl | later
      · exact .self
      · exact .element stored found (induction stacked later)

theorem Stacked.not_nests {around : TypeRef} {form : TypeForm}
    (stacked : program.Stacked levels leaf)
    (leafStored : program.types.get? leaf = some { form := bottom, symbol := none })
    (last : bottom.element? = none)
    (stored : program.types.get? around = some { form, symbol := none })
    (found : form.element? = some (levels.headD leaf)) :
    ¬program.Nests (levels.headD leaf) around := by
  induction levels generalizing around form with
  | nil => exact not_nests_of_bottom leafStored (fun _ => last) stored found
  | cons outer rest induction =>
      rcases stacked with ⟨⟨inner, here, below⟩, stacked⟩
      exact not_nests_of_element here below (induction stacked here below) stored found

theorem Stacked.nodup (stacked : program.Stacked levels leaf)
    (leafStored : program.types.get? leaf = some { form := bottom, symbol := none })
    (last : bottom.element? = none) : levels.Nodup := by
  induction levels with
  | nil => exact .nil
  | cons outer rest induction =>
      rcases stacked with ⟨⟨form, stored, found⟩, stacked⟩
      refine List.nodup_cons.mpr ⟨fun again => ?_, induction stacked⟩
      exact stacked.not_nests leafStored last stored found (stacked.nests again)

theorem Stacked.length_le (stacked : program.Stacked levels leaf)
    (leafStored : program.types.get? leaf = some { form := bottom, symbol := none })
    (last : bottom.element? = none) : levels.length ≤ program.types.size := by
  have known : levels ⊆ program.types.refs := by
    intro node member
    obtain ⟨front, back, rfl⟩ := List.append_of_mem member
    obtain ⟨⟨form, stored, -⟩, -⟩ := stacked.back
    exact Arena.mem_refs_iff.mpr (Arena.lt_size_of_get? stored)
  have shorter := ((stacked.nodup leafStored last).subperm known).length_le
  simpa [Arena.refs] using shorter

end Program

namespace Canon

variable {τ α β : Type} {before after : Session τ} {statement : StatementRef} {name : String}

/-! ## The variable that is not found -/

theorem bind_eq_unbound_iff {first : Canon τ α} {rest : α → Canon τ β}
    (restores : ∀ value, Restores Cause.Bound (rest value)) :
    (first >>= rest) before = .error (.failed ⟨statement, .unboundVariable name⟩) after ↔
      first before = .error (.failed ⟨statement, .unboundVariable name⟩) after := by
  rw [bind_eq_error_iff]
  refine or_iff_left ?_
  rintro ⟨value, middle, -, failed⟩
  exact ((restores value).failed _ _ _ failed).2 name rfl

theorem indexKey_eq_unbound_iff {subject : ExpressionRef} {scope : ScopeRef} {var : SymbolRef}
    {symbol : Symbol} {text : String}
    (denotes : before.program.expressions.get? subject = some (.reference var))
    (stored : before.program.symbols.get? var = some symbol)
    (spelled : before.program.names.text symbol.name = .ok text) :
    indexKey subject scope before = .error (.failed ⟨statement, .unboundVariable name⟩) after ↔
      before.program.lookup scope symbol.name = .ok none ∧
        statement = before.statement ∧ name = text ∧ after = before := by
  have reading : (ask (·.expression subject) : Canon τ Expression) before =
      .ok (.reference var) before := ask_of_ok (Program.expression_eq_ok_iff.mpr denotes)
  have recorded : (ask (·.symbol var) : Canon τ Symbol) before = .ok symbol before :=
    ask_of_ok (Program.symbol_eq_ok_iff.mpr stored)
  rw [indexKey, bind_of_ok reading]
  change indexKeyOfVariable var scope before = _ ↔ _
  rw [indexKeyOfVariable, bind_of_ok recorded]
  cases answer : before.program.lookup scope symbol.name with
  | error fault =>
      simp [bind_eq_error_iff, ask_eq_failed_iff, ask_eq_ok_iff, answer]
  | ok found =>
      rw [bind_of_ok (ask_of_ok answer)]
      cases found with
      | some found =>
          simp only [Except.ok.injEq, reduceCtorEq, false_and, iff_false]
          intro ran
          exact ((restores_keyOfBound symbol.name found).failed _ _ _ ran).2 name rfl
      | none =>
          have named : (ask (·.names.text symbol.name) : Canon τ String) before = .ok text before :=
            ask_of_ok spelled
          change (ask (·.names.text symbol.name) >>= fun text => fail (.unboundVariable text))
            before = _ ↔ _
          rw [bind_of_ok named, fail_eq_failed_iff]
          simp [and_assoc]

theorem index_eq_unbound_iff {type : TypeRef} {subject : ExpressionRef} {scope : ScopeRef}
    {var : SymbolRef} {symbol : Symbol} {text : String}
    (anonymous : before.program.types.get? type = some { form := .index subject, symbol := none })
    (denotes : before.program.expressions.get? subject = some (.reference var))
    (stored : before.program.symbols.get? var = some symbol)
    (spelled : before.program.names.text symbol.name = .ok text) :
    index type scope before = .error (.failed ⟨statement, .unboundVariable name⟩) after ↔
      before.program.lookup scope symbol.name = .ok none ∧
        statement = before.statement ∧ name = text ∧ after = before := by
  have formed : (ask (·.form type) : Canon τ TypeForm) before = .ok (.index subject) before :=
    ask_of_ok (Program.form_eq_ok_iff.mpr ⟨none, anonymous⟩)
  rw [index, bind_of_ok formed]
  dsimp only
  rw [bind_of_ok (expectAnonymous_of_anonymous anonymous),
    bind_eq_unbound_iff fun key => restores_settleShared key type]
  exact indexKey_eq_unbound_iff denotes stored spelled

/-! ## The types around it -/

section

variable {action : TypeRef → Canon τ TypeRef} {hook : SequenceHook τ} {type element : TypeRef}

theorem settleElement_eq_unbound_iff {shape : Shape} :
    settleElement shape action type element before =
        .error (.failed ⟨statement, .unboundVariable name⟩) after ↔
      action element before = .error (.failed ⟨statement, .unboundVariable name⟩) after :=
  bind_eq_unbound_iff fun canonical => restores_fillElement shape type canonical

theorem arrayWith_eq_unbound_iff {range : ExpressionRef} {recorded : Option TypeRef}
    (stored : before.program.types.get? type =
      some { form := .array element range recorded, symbol := none }) :
    arrayWith action type before = .error (.failed ⟨statement, .unboundVariable name⟩) after ↔
      action element before = .error (.failed ⟨statement, .unboundVariable name⟩) after := by
  have formed : (ask (·.form type) : Canon τ TypeForm) before =
      .ok (.array element range recorded) before :=
    ask_of_ok (Program.form_eq_ok_iff.mpr ⟨none, stored⟩)
  rw [arrayWith, bind_of_ok formed]
  dsimp only
  rw [bind_of_ok (expectAnonymous_of_anonymous stored)]
  refine (bind_eq_unbound_iff ?_).trans settleElement_eq_unbound_iff
  exact restores_settleArray type range

theorem sequenceWith_eq_unbound_iff
    (stored : before.program.types.get? type =
      some { form := .sequence element, symbol := none }) :
    sequenceWith hook action type before =
        .error (.failed ⟨statement, .unboundVariable name⟩) after ↔
      action element before = .error (.failed ⟨statement, .unboundVariable name⟩) after := by
  have formed : (ask (·.form type) : Canon τ TypeForm) before = .ok (.sequence element) before :=
    ask_of_ok (Program.form_eq_ok_iff.mpr ⟨none, stored⟩)
  rw [sequenceWith, bind_of_ok formed]
  dsimp only
  rw [bind_of_ok (expectAnonymous_of_anonymous stored)]
  refine (bind_eq_unbound_iff ?_).trans settleElement_eq_unbound_iff
  exact restores_settleSequence hook type

theorem compositeWithin_eq_unbound_iff {form : TypeForm} {depth : Nat}
    (stored : before.program.types.get? type = some { form, symbol := none })
    (found : form.element? = some element) :
    compositeWithin hook (depth + 1) type before =
        .error (.failed ⟨statement, .unboundVariable name⟩) after ↔
      elementWith (compositeWithin hook depth) element before =
        .error (.failed ⟨statement, .unboundVariable name⟩) after := by
  have shaped : (ask (·.shape type) : Canon τ Shape) before = .ok form.shape before :=
    ask_of_ok (Program.shape_eq_ok_iff.mpr ⟨_, stored, rfl⟩)
  rw [compositeWithin, bind_of_ok shaped]
  cases form with
  | array part range recorded =>
      cases found
      exact arrayWith_eq_unbound_iff stored
  | sequence part =>
      cases found
      exact sequenceWith_eq_unbound_iff stored
  | _ => cases found

end

theorem elementWith_of_index {action : TypeRef → Canon τ TypeRef} {type : TypeRef}
    {subject : ExpressionRef}
    (stored : before.program.types.get? type = some { form := .index subject, symbol := none }) :
    elementWith action type before = index type before.scope before := by
  have named : (ask (·.typeSymbol? type) : Canon τ (Option SymbolRef)) before =
      .ok none before := ask_of_ok (Program.typeSymbol?_eq_ok_iff.mpr ⟨_, stored⟩)
  have shaped : (ask (·.shape type) : Canon τ Shape) before = .ok .index before :=
    ask_of_ok (Program.shape_eq_ok_iff.mpr ⟨_, stored, rfl⟩)
  exact (bind_of_ok named).trans (bind_of_ok shaped)

/-- Through all the levels of a stack, the index type at its bottom is looked up in the scope that
the outermost level is canonicalized in. -/
theorem compositeWithin_eq_unbound_iff_of_stacked {hook : SequenceHook τ} {outer leaf : TypeRef}
    {rest : List TypeRef} {subject : ExpressionRef} {depth : Nat} (deep : rest.length < depth)
    (stacked : before.program.Stacked (outer :: rest) leaf)
    (bottom : before.program.types.get? leaf = some { form := .index subject, symbol := none }) :
    compositeWithin hook depth outer before =
        .error (.failed ⟨statement, .unboundVariable name⟩) after ↔
      index leaf before.scope before =
        .error (.failed ⟨statement, .unboundVariable name⟩) after := by
  induction rest generalizing outer depth with
  | nil =>
      rcases stacked with ⟨⟨form, stored, found⟩, -⟩
      cases depth with
      | zero => exact absurd deep (Nat.not_lt_zero _)
      | succ depth =>
          rw [compositeWithin_eq_unbound_iff stored found]
          exact iff_of_eq (congrArg (· = _) (elementWith_of_index bottom))
  | cons next rest induction =>
      rcases stacked with ⟨⟨form, stored, found⟩, stacked⟩
      rcases stacked.1 with ⟨inner, nextStored, below⟩
      cases depth with
      | zero => exact absurd deep (Nat.not_lt_zero _)
      | succ depth =>
          rw [compositeWithin_eq_unbound_iff stored found]
          refine Iff.trans ?_ (induction (Nat.lt_of_succ_lt_succ deep) stacked)
          exact iff_of_eq (congrArg (· = _) (elementWith_of_anonymous nextStored below))

end Canon

/-! ## All calls -/

namespace Canon

variable {τ : Type} (hook : SequenceHook τ)

theorem restores_builder (builder : Builder) (type : TypeRef) :
    Restores anyCause (builder.run hook type) := by
  have elements (depth : Nat) := restores_elementWith (restores_compositeWithin hook depth)
  cases builder with
  | array => exact restores_nesting.bind fun depth => restores_arrayWith (elements depth) type
  | domain => exact (restores_domain type).any
  | tuple => exact (restores_tuple type).any
  | sequence =>
      exact restores_nesting.bind fun depth => restores_sequenceWith (elements depth) hook type
  | index lookupScope => exact restores_index type lookupScope
  | composite => exact restores_composite hook type
  | indexOrSelf lookupScope => exact restores_indexOrSelf type lookupScope

theorem Restores.inScopes {α : Type} {may : Cause → Prop} {action : Canon τ α}
    (restores : Restores may action) (scopes : List ScopeRef) :
    Restores may (scopes.foldr Canon.inScope action) := by
  induction scopes with
  | nil => exact restores
  | cons scope rest induction => exact induction.inScope

/-- No call leaves anything of the scopes that it switches to, whether it succeeds or fails, and
within other scopes or not. And in a stack of arrays and sequences over an index type, whatever else
is wrong with them, the variable is looked up in the scope of the call for the outermost one: the
stack fails for want of the variable, with nothing changed, exactly if that scope itself does not
bind its name. -/
theorem retargeting_is_invisible (before : Session τ) :
    (∀ (builder : Builder) (type : TypeRef) (scopes : List ScopeRef),
      (endState (scopes.foldr inScope (builder.run hook type) before)).scope = before.scope ∧
      (endState (scopes.foldr inScope (builder.run hook type) before)).statement =
        before.statement) ∧
    ∀ (outer : TypeRef) (rest : List TypeRef) (leaf : TypeRef) (subject : ExpressionRef)
      (var : SymbolRef) (symbol : Symbol) (text : String),
      before.program.Stacked (outer :: rest) leaf →
      before.program.types.get? leaf = some { form := .index subject, symbol := none } →
      before.program.expressions.get? subject = some (.reference var) →
      before.program.symbols.get? var = some symbol →
      before.program.names.text symbol.name = .ok text →
      ∀ (statement : StatementRef) (name : String) (after : Session τ),
        composite hook outer before =
            .error (.failed ⟨statement, .unboundVariable name⟩) after ↔
          before.program.lookup before.scope symbol.name = .ok none ∧
            statement = before.statement ∧ name = text ∧ after = before := by
  constructor
  · intro builder type scopes
    have stays := ((restores_builder hook builder type).inScopes scopes).stays before
    exact ⟨stays.scope, stays.statement⟩
  · intro outer rest leaf subject var symbol text stacked bottom denotes stored spelled statement
      name after
    have few := stacked.length_le bottom rfl
    have deep : rest.length < before.program.types.size + 1 :=
      Nat.lt_succ_of_lt (Nat.lt_of_succ_le few)
    change compositeWithin hook (before.program.types.size + 1) outer before = _ ↔ _
    rw [compositeWithin_eq_unbound_iff_of_stacked deep stacked bottom]
    exact index_eq_unbound_iff bottom denotes stored spelled

def misrangedIndexCalls : List Call :=
  [.addModule, .addType (.domain 1 none none), .declareType ⟨1⟩ "Plane" ⟨7⟩,
    .declareVar ⟨1⟩ "D" ⟨7⟩, .addExpression (.reference ⟨8⟩), .addExpression (.literal 0),
    .addType (.index ⟨0⟩), .addType (.sequence ⟨8⟩), .addType (.array ⟨9⟩ ⟨1⟩ none)]

/-- In the shared scope `D` is not found. In that of the module it is, and the range is wrong. -/
theorem retargeting_is_invisible_in_two_scopes :
    ∃ outside inside : Session Unit,
      (outside.program.Stacked [⟨10⟩, ⟨9⟩] ⟨8⟩ ∧ inside = { outside with scope := ⟨2⟩ }) ∧
      composite .silent ⟨10⟩ outside =
        .error (.failed ⟨outside.statement, .unboundVariable "D"⟩) outside ∧
      (∀ statement name after, composite .silent ⟨10⟩ inside ≠
        .error (.failed ⟨statement, .unboundVariable name⟩) after) ∧
      ∃ failed ∈ failed? (composite .silent ⟨10⟩ inside),
        failed.1.cause = .unsupported .rangeNotIteration ∧ failed.2.scope = inside.scope := by
  rcases (show ∃ source ∈ (layOut misrangedIndexCalls).toOption,
      source.types.get? ⟨10⟩ = some { form := .array ⟨9⟩ ⟨1⟩ none, symbol := none } ∧
      source.types.get? ⟨9⟩ = some { form := .sequence ⟨8⟩, symbol := none } ∧
      source.types.get? ⟨8⟩ = some { form := .index ⟨0⟩, symbol := none } ∧
      source.expressions.get? ⟨0⟩ = some (.reference ⟨8⟩) ∧
      (∃ symbol ∈ source.symbols.get? ⟨8⟩, source.names.text symbol.name = .ok "D" ∧
        source.lookup ⟨1⟩ symbol.name = .ok none ∧
        source.lookup ⟨2⟩ symbol.name = .ok (some ⟨8⟩)) ∧
      ∃ failed ∈ failed? (composite .silent ⟨10⟩ ⟨⟨source, { journal := () }⟩, ⟨2⟩, ⟨1⟩⟩),
        failed.1.cause = .unsupported .rangeNotIteration by decide +kernel) with
    ⟨source, -, outer, inner, leaf, denotes, ⟨symbol, stored, spelled, unbound, bound⟩, failed,
      isFailed, cause⟩
  have stacked : source.Stacked [⟨10⟩, ⟨9⟩] ⟨8⟩ := ⟨⟨_, outer, rfl⟩, ⟨_, inner, rfl⟩, trivial⟩
  have outside := (retargeting_is_invisible .silent ⟨⟨source, { journal := () }⟩, ⟨1⟩, ⟨1⟩⟩).2
    ⟨10⟩ [⟨9⟩] ⟨8⟩ ⟨0⟩ ⟨8⟩ symbol "D" stacked leaf denotes stored spelled
  have inside := retargeting_is_invisible .silent ⟨⟨source, { journal := () }⟩, ⟨2⟩, ⟨1⟩⟩
  refine ⟨⟨⟨source, { journal := () }⟩, ⟨1⟩, ⟨1⟩⟩, _, ⟨stacked, rfl⟩,
    (outside _ _ _).mpr ⟨unbound, rfl, rfl, rfl⟩, ?_, failed, isFailed, cause, ?_⟩
  · intro statement name after ran
    have missing := ((inside.2 ⟨10⟩ [⟨9⟩] ⟨8⟩ ⟨0⟩ ⟨8⟩ symbol "D" stacked leaf denotes stored spelled
      _ _ _).mp ran).1
    cases bound.symm.trans missing
  · have ran := failed?_eq_some_iff.mp isFailed
    have stays := (inside.1 .composite ⟨10⟩ []).1
    change (endState (composite .silent ⟨10⟩ _)).scope = _ at stays
    rwa [ran] at stays

end Canon

end StructuralTypes
