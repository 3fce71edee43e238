import StructuralTypes.Proofs.Interning

/-! Tuples settle in the shared scope under the names of their components, so the names alone
decide which tuples become one type. Types of one name in different scopes are not told apart
there, though arrays and sequences over them are. -/

namespace StructuralTypes

namespace Program

def TypeNamesPlain (program : Program) : Prop :=
  ∀ ref symbol, program.symbols.get? ref = some symbol → symbol.kind = .type →
    ∀ text ∈ program.names.get? symbol.name, '_' ∉ text.toList

instance (program : Program) : Decidable program.TypeNamesPlain :=
  inferInstanceAs (Decidable (∀ ref symbol, program.symbols.get? ref = some symbol →
    symbol.kind = .type → ∀ text ∈ program.names.get? symbol.name, '_' ∉ text.toList))

def TypeNamesDistinct (program : Program) : Prop :=
  ∀ left first, program.symbols.get? left = some first →
    ∀ right second, program.symbols.get? right = some second →
    first.kind = .type → second.kind = .type → first.scope = second.scope →
    first.name = second.name → left = right

instance (program : Program) : Decidable program.TypeNamesDistinct :=
  inferInstanceAs (Decidable (∀ left first, program.symbols.get? left = some first →
    ∀ right second, program.symbols.get? right = some second →
    first.kind = .type → second.kind = .type → first.scope = second.scope →
    first.name = second.name → left = right))

variable {source current : Program}

theorem Called.tuple_of_named {type : TypeRef} {text : String} {scope : ScopeRef}
    {components : List TypeRef} (called : source.Called type text scope)
    (stored : source.types.get? type = some { form := .tuple components })
    (named : ∀ component ∈ components, source.Named component) :
    scope = sharedScope ∧ ∃ name : TypeRef → String,
      text = (CanonicalKey.tuple (components.map name)).name ∧
      ∀ component ∈ components, source.typeName? component = .ok (some (name component)) := by
  rcases called.of_tuple stored with ⟨isShared, name, isText, each⟩
  refine ⟨isShared, name, isText, fun component member => ?_⟩
  rcases each component member with ⟨home, inner⟩
  rcases named component member with ⟨form, ref, declared⟩
  rcases symbolText?_eq_some_iff.mp (inner.of_named declared).1 with ⟨symbol, found, isName⟩
  exact typeName?_eq_some_iff.mpr ⟨form, ref, symbol, declared, found, isName⟩

theorem TypeNamesPlain.typeName? (plain : source.TypeNamesPlain) (laid : LaidOut source)
    {type : TypeRef} {text : String} (named : source.typeName? type = .ok (some text)) :
    '_' ∉ text.toList := by
  rcases typeName?_eq_some_iff.mp named with ⟨form, ref, symbol, stored, found, isText⟩
  rcases laid.declared type form ref stored with ⟨again, foundAgain, -, kind⟩
  cases Option.mem_unique found foundAgain
  exact plain ref symbol found kind text isText

theorem map_typeName?_eq {components : List TypeRef} {name : TypeRef → String}
    (named : ∀ component ∈ components,
      source.typeName? component = .ok (some (name component))) :
    components.map source.typeName? =
      (components.map name).map fun text => Except.ok (some text) := by
  rw [List.map_map]
  exact List.map_congr_left named

theorem Tracks.tuples_eq_iff (laid : LaidOut source) (plain : source.TypeNamesPlain)
    (tracks : Tracks source current) {left right first second : TypeRef}
    {leftComponents rightComponents : List TypeRef}
    (leftInterns : source.Interns current left first)
    (rightInterns : source.Interns current right second)
    (leftStored : source.types.get? left = some { form := .tuple leftComponents })
    (rightStored : source.types.get? right = some { form := .tuple rightComponents })
    (leftNamed : ∀ component ∈ leftComponents, source.Named component)
    (rightNamed : ∀ component ∈ rightComponents, source.Named component) :
    first = second ↔
      leftComponents.map source.typeName? = rightComponents.map source.typeName? := by
  have texts : ∀ {leftText rightText leftScope rightScope},
      source.Called left leftText leftScope → source.Called right rightText rightScope →
      leftScope = rightScope ∧ (leftText = rightText ↔
        leftComponents.map source.typeName? = rightComponents.map source.typeName?) := by
    intro leftText rightText leftScope rightScope leftCalled rightCalled
    rcases leftCalled.tuple_of_named leftStored leftNamed with ⟨rfl, leftName, rfl, leftEach⟩
    rcases rightCalled.tuple_of_named rightStored rightNamed with ⟨rfl, rightName, rfl, rightEach⟩
    refine ⟨rfl, ?_⟩
    rw [map_typeName?_eq leftEach, map_typeName?_eq rightEach]
    constructor
    · intro same
      rw [CanonicalKey.tuple_injective ?_ ?_ same]
      · intro text member
        rcases List.mem_map.mp member with ⟨component, inLeft, rfl⟩
        exact plain.typeName? laid (leftEach component inLeft)
      · intro text member
        rcases List.mem_map.mp member with ⟨component, inRight, rfl⟩
        exact plain.typeName? laid (rightEach component inRight)
    · intro same
      rw [List.map_injective_iff.mpr (fun _ _ equal => Option.some.inj (Except.ok.inj equal)) same]
  constructor
  · intro same
    subst same
    rcases tracks.synthesized_of_interns leftInterns with
      ⟨leftRef, leftSymbol, leftText, -, leftFound, leftTyped, leftIs, leftCalled, -, leftAdded⟩
    rcases tracks.synthesized_of_interns rightInterns with
      ⟨rightRef, rightSymbol, rightText, -, rightFound, rightTyped, rightIs, rightCalled, -,
        rightAdded⟩
    -- The type that both settled on has one declaration, which has one name.
    rcases leftAdded.node with ⟨_, _, -, leftNode, -⟩
    rcases rightAdded.node with ⟨_, _, -, rightNode, -⟩
    rw [leftTyped] at leftNode
    rw [rightTyped] at rightNode
    cases (node_unique leftNode rightNode).2
    cases Option.mem_unique leftFound rightFound
    cases Option.mem_unique leftIs rightIs
    exact (texts leftCalled rightCalled).2.mp rfl
  · intro same
    refine tracks.eq_of_called leftInterns rightInterns fun leftCalled rightCalled => ?_
    rcases texts leftCalled rightCalled with ⟨scopes, names⟩
    exact ⟨names.mpr same, scopes⟩

theorem eq_of_map_typeName?_eq {left right : List TypeRef}
    (apart : ∀ first ∈ left, ∀ second ∈ right,
      source.typeName? first = source.typeName? second → first = second)
    (same : left.map source.typeName? = right.map source.typeName?) : left = right := by
  induction left generalizing right with
  | nil => exact (List.map_eq_nil_iff.mp same.symm).symm
  | cons head rest induction =>
      cases right with
      | nil => simp at same
      | cons other others =>
          rcases List.cons.inj same with ⟨heads, later⟩
          rw [apart head List.mem_cons_self other List.mem_cons_self heads,
            induction (fun first inRest second inOthers =>
              apart first (List.mem_cons_of_mem _ inRest) second
                (List.mem_cons_of_mem _ inOthers)) later]

theorem Represents.interns_of_tuple {type canonical : TypeRef} {components : List TypeRef}
    (represents : source.Represents current type canonical)
    (stored : source.types.get? type = some { form := .tuple components }) :
    source.Interns current type canonical := by
  rcases represents with ⟨⟨form, symbol, again, fixed⟩, -⟩ | interns
  · rcases node_unique stored again with ⟨rfl, rfl⟩
    simp [TypeForm.Scalar, TypeForm.shape] at fixed
  · exact interns

end Program

/-- Variables declared with tuples of primitive and declared types end with one type just if the
names of the components are the same. So they have the same components wherever the names tell
the components apart. -/
theorem variableTypes_shares_tuples_iff {calls : List Call} {source : Program}
    {own : Progress Unit} {final : Walker (Progress Unit)} (built : layOut calls = .ok source)
    (unreserved : source.Unreserved) (plain : source.TypeNamesPlain)
    (ran : (variableTypes .silent).walkProgram ⟨source, own⟩ = .ok () final) :
    ∀ left ∈ source.declaredVariables, ∀ right ∈ source.declaredVariables,
      ∀ leftType rightType leftComponents rightComponents,
      source.typeOf? left = some leftType → source.typeOf? right = some rightType →
      source.types.get? leftType = some { form := .tuple leftComponents } →
      source.types.get? rightType = some { form := .tuple rightComponents } →
      (∀ component ∈ leftComponents ++ rightComponents, source.Named component) →
      (final.program.typeOf? left = final.program.typeOf? right ↔
        leftComponents.map source.typeName? = rightComponents.map source.typeName?) ∧
      ((∀ first ∈ leftComponents, ∀ second ∈ rightComponents,
          source.typeName? first = source.typeName? second → first = second) →
        final.program.typeOf? left = final.program.typeOf? right →
        leftComponents = rightComponents) := by
  have laid := laidOut_of_layOut built
  rcases Program.resolved_of_walkProgram laid unreserved ran with ⟨tracks, resolved⟩
  intro left leftMember right rightMember leftType rightType leftComponents rightComponents
    leftTyped rightTyped leftStored rightStored named
  rcases (resolved left leftMember).exists_typeOf? leftTyped with ⟨first, leftNew, leftRepresents⟩
  rcases (resolved right rightMember).exists_typeOf? rightTyped with
    ⟨second, rightNew, rightRepresents⟩
  have shares := tracks.tuples_eq_iff laid plain (leftRepresents.interns_of_tuple leftStored)
    (rightRepresents.interns_of_tuple rightStored) leftStored rightStored
    (fun component member => named component (List.mem_append_left _ member))
    (fun component member => named component (List.mem_append_right _ member))
  rw [leftNew, rightNew, Option.some.injEq]
  exact ⟨shares, fun apart same => Program.eq_of_map_typeName?_eq apart (shares.mp same)⟩

def twoRecordCalls : List Call :=
  [.addModule, .addModule,
    .addType .nominal, .declareType ⟨1⟩ "R" ⟨7⟩,
    .addType .nominal, .declareType ⟨2⟩ "R" ⟨8⟩,
    .addType (.tuple [⟨7⟩]), .declareVar ⟨1⟩ "left" ⟨9⟩,
    .addType (.tuple [⟨8⟩]), .declareVar ⟨2⟩ "right" ⟨10⟩]

theorem variableTypes_shares_tuples_of_two_records :
    ∃ source final, layOut twoRecordCalls = .ok source ∧
      (variableTypes .silent).walkProgram ⟨source, { journal := () }⟩ = .ok () final ∧
      (final.program.typeOf? ⟨9⟩ = final.program.typeOf? ⟨10⟩ ↔
        [⟨7⟩].map source.typeName? = [⟨8⟩].map source.typeName?) := by
  obtain ⟨source, isBuilt, unreserved, plain, left, right, leftTyped, rightTyped, leftTuple,
      rightTuple, leftRecord, rightRecord, finishes⟩ :
    ∃ source ∈ (layOut twoRecordCalls).toOption, source.Unreserved ∧ source.TypeNamesPlain ∧
      ⟨9⟩ ∈ source.declaredVariables ∧ ⟨10⟩ ∈ source.declaredVariables ∧
      source.typeOf? ⟨9⟩ = some ⟨9⟩ ∧ source.typeOf? ⟨10⟩ = some ⟨10⟩ ∧
      source.types.get? ⟨9⟩ = some { form := .tuple [⟨7⟩] } ∧
      source.types.get? ⟨10⟩ = some { form := .tuple [⟨8⟩] } ∧
      source.types.get? ⟨7⟩ = some { form := .nominal, symbol := some ⟨7⟩ } ∧
      source.types.get? ⟨8⟩ = some { form := .nominal, symbol := some ⟨8⟩ } ∧
      (finished? ((variableTypes .silent).walkProgram
        ⟨source, { journal := () }⟩)).isSome := by
    decide +kernel
  have built := Except.toOption_eq_some_iff.mp isBuilt
  rcases Option.isSome_iff_exists.mp finishes with ⟨final, isFinal⟩
  have ran := finished?_eq_some_iff.mp isFinal
  have named : ∀ component ∈ [⟨7⟩] ++ [⟨8⟩], source.Named component := by
    intro component member
    simp only [List.cons_append, List.nil_append, List.mem_cons, List.not_mem_nil, or_false]
      at member
    rcases member with rfl | rfl
    · exact ⟨_, _, leftRecord⟩
    · exact ⟨_, _, rightRecord⟩
  exact ⟨source, final, built, ran,
    (variableTypes_shares_tuples_iff built unreserved plain ran ⟨9⟩ left ⟨10⟩ right ⟨9⟩ ⟨10⟩ [⟨7⟩]
      [⟨8⟩] leftTyped rightTyped leftTuple rightTuple named).1⟩

/-- Tuples over different types of one name become one type, although no name of a type has an
underscore and no scope declares two types of one name. -/
theorem exists_tuples_conflated :
    ∃ source final, layOut twoRecordCalls = .ok source ∧ source.Unreserved ∧
      source.TypeNamesPlain ∧ source.TypeNamesDistinct ∧
      (variableTypes .silent).walkProgram ⟨source, { journal := () }⟩ = .ok () final ∧
      ∃ left ∈ source.declaredVariables, ∃ right ∈ source.declaredVariables,
      ∃ leftType rightType leftRecord rightRecord leftRef rightRef,
        source.typeOf? left = some leftType ∧ source.typeOf? right = some rightType ∧
        source.types.get? leftType = some { form := .tuple [leftRecord] } ∧
        source.types.get? rightType = some { form := .tuple [rightRecord] } ∧
        source.types.get? leftRecord = some { form := .nominal, symbol := some leftRef } ∧
        source.types.get? rightRecord = some { form := .nominal, symbol := some rightRef } ∧
        [leftRecord] ≠ [rightRecord] ∧
        final.program.typeOf? left = final.program.typeOf? right := by
  obtain ⟨source, isBuilt, unreserved, plain, distinct, left, right, leftTyped, rightTyped,
      leftTuple, rightTuple, leftRecord, rightRecord, final, isFinal, same⟩ :
    ∃ source ∈ (layOut twoRecordCalls).toOption, source.Unreserved ∧ source.TypeNamesPlain ∧
      source.TypeNamesDistinct ∧
      ⟨9⟩ ∈ source.declaredVariables ∧ ⟨10⟩ ∈ source.declaredVariables ∧
      source.typeOf? ⟨9⟩ = some ⟨9⟩ ∧ source.typeOf? ⟨10⟩ = some ⟨10⟩ ∧
      source.types.get? ⟨9⟩ = some { form := .tuple [⟨7⟩] } ∧
      source.types.get? ⟨10⟩ = some { form := .tuple [⟨8⟩] } ∧
      source.types.get? ⟨7⟩ = some { form := .nominal, symbol := some ⟨7⟩ } ∧
      source.types.get? ⟨8⟩ = some { form := .nominal, symbol := some ⟨8⟩ } ∧
      ∃ final ∈ finished? ((variableTypes .silent).walkProgram ⟨source, { journal := () }⟩),
        final.program.typeOf? ⟨9⟩ = final.program.typeOf? ⟨10⟩ := by
    decide +kernel
  exact ⟨source, final, Except.toOption_eq_some_iff.mp isBuilt, unreserved, plain, distinct,
    finished?_eq_some_iff.mp isFinal, ⟨9⟩, left, ⟨10⟩, right, ⟨9⟩, ⟨10⟩, ⟨7⟩, ⟨8⟩, ⟨7⟩, ⟨8⟩,
    leftTyped, rightTyped, leftTuple, rightTuple, leftRecord, rightRecord, by decide, same⟩

end StructuralTypes
