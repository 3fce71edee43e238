import StructuralTypes.Proofs.Forest
import StructuralTypes.Proofs.Retention

/-! Programs with a history. However a program is added to, and whatever passes go over it in
between, its blocks stay a forest, so that each of its statements is read once. -/

namespace StructuralTypes

namespace Program

variable {before after program : Program}

/-- A call, a further statement that is no block, or a pass takes `before` to `after`. -/
inductive Operates (before : Program) : Program → Prop
  | call {call : Call} {after : Program} (ran : call.edit before = .ok () after) :
      Operates before after
  | append {body : BodyRef} {statement : Statement} {ref : StatementRef} {after : Program}
      (plain : ∀ inner, statement.kind ≠ .block inner)
      (ran : Edit.append body statement before = .ok ref after) : Operates before after
  | pass {after : Program} (passes : before.Passes after) : Operates before after

def Forested (program : Program) : Prop :=
  program.layout.Forest program.roots

theorem Forested.of_layout_eq (forested : before.Forested) (layout : after.layout = before.layout)
    (modules : after.modules = before.modules) : after.Forested := by
  unfold Forested roots
  rw [layout, modules]
  exact forested

theorem forested_initial : Program.initial.Forested where
  orderly :=
    { held := by
        rintro ref body
        constructor
        · intro held
          obtain ⟨statement, stored⟩ := Layout.bodyOf_eq_ok_iff.mp held
          cases stored
        · rintro ⟨content, stored, member⟩
          rw [(body_initial stored).2] at member
          cases member
      unique := by
        intro body content stored
        rw [(body_initial stored).2]
        exact List.nodup_nil
      recalled := by
        intro body content last stored recent
        rw [(body_initial stored).2] at recent
        cases recent }
  descends := by
    rintro ref inner ⟨placed, stored, -⟩
    cases stored
  sole := by
    rintro first second inner ⟨placed, stored, -⟩
    cases stored
  owned body inside := .inl (by
    obtain ⟨content, stored⟩ := Arena.exists_get?_of_lt_size inside
    exact List.mem_singleton.mpr (body_initial stored).1)
  rooted root isRoot := by
    rw [List.mem_singleton.mp isRoot]
    refine ⟨by decide, ?_⟩
    rintro ref ⟨placed, stored, -⟩
    cases stored
  distinct := List.nodup_singleton _

/-! ## Calls -/

theorem Forested.append (forested : before.Forested) {body : BodyRef} {statement : Statement}
    {ref : StatementRef} (plain : ∀ inner, statement.kind ≠ .block inner)
    (ran : Edit.append body statement before = .ok ref after) : after.Forested := by
  obtain ⟨-, layout, placed, rfl⟩ := append_eq_ok ran
  exact forested.appended plain placed

theorem Forested.declare (forested : before.Forested) {body : BodyRef} {text : String}
    {type : TypeRef} {kind : SymbolKind} {ref : SymbolRef}
    (ran : Edit.declare body text type kind before = .ok ref after) : after.Forested := by
  obtain ⟨-, _, statement, _, layout, -, ⟨declares, -⟩, -, placed, -, rfl⟩ := declare_eq_ok ran
  refine Layout.Forest.appended forested ?_ placed
  intro inner block
  simp [Statement.declared?, block] at declares

theorem Forested.addModule (forested : before.Forested) {body : BodyRef}
    (ran : Edit.addModule before = .ok body after) : after.Forested := by
  obtain rfl := addModule_eq_ok ran
  exact forested.addRoot before.scopes.next

theorem Forested.addBlock (forested : before.Forested) {body inner : BodyRef}
    (ran : Edit.addBlock body before = .ok inner after) : after.Forested := by
  obtain ⟨outer, layout, stored, placed, rfl⟩ := addBlock_eq_ok ran
  exact Layout.Forest.addBlock forested (Arena.lt_size_of_get? stored) placed

theorem Forested.call (forested : before.Forested) {call : Call}
    (ran : call.edit before = .ok () after) : after.Forested := by
  cases Call.makes_of_edit ran with
  | addModule added => exact forested.addModule added
  | addBlock added => exact forested.addBlock added
  | declareVar declared => exact forested.declare declared
  | declareType declared => exact (forested.declare declared).of_layout_eq rfl rfl
  | declareDetachedVar | addType | addExpression => exact forested
  | addStatement placed =>
      exact Layout.Forest.appended forested (fun _ block => by cases block) placed

/-! ## Passes -/

theorem Forested.introduce (forested : before.Forested) {scope : ScopeRef} {text : String}
    {fresh : TypeRef} {finish : TypeForm → TypeForm} {position : Position}
    (introduces : before.Introduces scope text fresh finish position after) : after.Forested := by
  unfold Forested roots
  rw [introduces.modules]
  exact Layout.Forest.position forested (fun _ block => by cases block) introduces.layout

theorem Forested.step (forested : before.Forested) (step : Step before after) :
    after.Forested := by
  cases step with
  | intern | reform | retype => exact forested
  | introduce _ _ _ _ _ _ _ introduces => exact forested.introduce introduces

theorem Forested.companionStep (forested : before.Forested) (step : CompanionStep before after) :
    after.Forested := by
  cases step with
  | intern | recompanion => exact forested
  | introduce _ _ _ introduces => exact forested.introduce introduces

theorem Forested.steps (forested : before.Forested) (steps : Steps before after) :
    after.Forested := by
  induction steps with
  | refl => exact forested
  | tail _ step induction => exact induction.step step

theorem Forested.companionSteps (forested : before.Forested)
    (steps : CompanionSteps before after) : after.Forested := by
  induction steps with
  | refl => exact forested
  | tail _ step induction => exact induction.companionStep step

theorem Forested.pass (forested : before.Forested) (passes : before.Passes after) :
    after.Forested := by
  obtain ⟨pass, own, final, ends, rfl⟩ := passes
  exact (Pass.steps ends).elim forested.steps forested.companionSteps

theorem Forested.operates (forested : before.Forested) (operates : before.Operates after) :
    after.Forested := by
  cases operates with
  | call ran => exact forested.call ran
  | append plain ran => exact forested.append plain ran
  | pass passes => exact forested.pass passes

theorem forested_of_history (history : Relation.ReflTransGen Operates .initial program) :
    program.Forested := by
  induction history with
  | refl => exact forested_initial
  | tail _ operates induction => exact induction.operates operates

theorem history_of_layOut {calls : List Call} (built : layOut calls = .ok program) :
    Relation.ReflTransGen Operates .initial program := by
  suffices ∀ start, calls.foldlM Call.run start = .ok program →
      Relation.ReflTransGen Operates start program from this .initial built
  clear built
  induction calls with
  | nil =>
      intro start ran
      simp only [List.foldlM_nil, Except.pure_eq_ok_iff] at ran
      exact ran ▸ .refl
  | cons call rest induction =>
      intro start ran
      simp only [List.foldlM_cons, Except.bind_eq_ok_iff, Call.run_eq_ok_iff] at ran
      obtain ⟨next, ⟨-, edited⟩, ran⟩ := ran
      exact .head (.call edited) (induction next ran)

end Program

/-- However a program came about, its statements can be read: each that is linked is read once,
those of a block right behind it in one piece, and those of one body in their order. -/
theorem preorder_reads_once {program : Program}
    (history : Relation.ReflTransGen Program.Operates .initial program) :
    ∃ order, program.preorder = .ok order ∧ order.Nodup ∧
      (∀ ref, ref ∈ order ↔ ∃ body, program.layout.bodyOf ref = .ok (some body)) ∧
      (∀ ref ∈ order, ∀ statement inner, program.statement ref = .ok statement →
        statement.kind = .block inner → ∃ front segment back,
          program.layout.preorder [inner] = .ok segment ∧
          order = front ++ ref :: (segment ++ back)) ∧
      ∀ body content, program.layout.bodies.get? body = some content →
        content.order.Sublist order := by
  have forested := Program.forested_of_history history
  obtain ⟨order, listed⟩ := Layout.Forest.exists_preorder forested
  refine ⟨order, listed, Layout.Forest.nodup_preorder forested listed,
    fun ref => Layout.Forest.mem_preorder_iff forested listed, ?_, ?_⟩
  · intro ref member statement inner found block
    obtain ⟨body, stored⟩ := Layout.statement_eq_ok_iff.mp found
    exact Layout.exists_preorder_of_block listed member ⟨_, stored, block⟩
  · intro body content stored
    exact Layout.order_sublist_preorder listed
      (Layout.Forest.reachable forested (Arena.lt_size_of_get? stored)) stored

def sequenceInBlockCalls : List Call :=
  [.addModule, .addBlock ⟨1⟩, .addType .nominal, .declareType ⟨2⟩ "R" ⟨7⟩, .addType (.sequence ⟨7⟩),
    .declareVar ⟨2⟩ "s" ⟨8⟩, .addType (.sequence ⟨1⟩), .addType (.tuple [⟨9⟩]),
    .declareVar ⟨1⟩ "t" ⟨10⟩]

/-- The walk over the variables puts the declaration of the sequence behind that of its element, and
then fails; after it a statement is added to the block. -/
theorem preorder_reads_once_after_failure :
    ∃ program : Program, Relation.ReflTransGen Program.Operates .initial program ∧
      program.preorder = .ok [⟨0⟩, ⟨1⟩, ⟨4⟩, ⟨2⟩, ⟨5⟩, ⟨3⟩] ∧
      program.layout.preorder [⟨2⟩] = .ok [⟨1⟩, ⟨4⟩, ⟨2⟩, ⟨5⟩] ∧
      ∃ order, program.preorder = .ok order ∧ order.Nodup := by
  obtain ⟨source, isBuilt, ⟨failure, failed⟩, isFailed, final, isFinal, listed, inBlock⟩ :
    ∃ source ∈ (layOut sequenceInBlockCalls).toOption,
      ∃ failed ∈ failed? ((Pass.variableTypes .program).run ⟨source, .start {}⟩),
        ∃ final ∈ (match Edit.append ⟨2⟩ { kind := .expression ⟨0⟩ } failed.2.program with
          | .ok _ extended => some extended
          | .error _ _ => none),
          final.preorder = .ok [⟨0⟩, ⟨1⟩, ⟨4⟩, ⟨2⟩, ⟨5⟩, ⟨3⟩] ∧
          final.layout.preorder [⟨2⟩] = .ok [⟨1⟩, ⟨4⟩, ⟨2⟩, ⟨5⟩] := by
    decide +kernel
  obtain ⟨ref, appended⟩ : ∃ ref,
      Edit.append ⟨2⟩ { kind := .expression ⟨0⟩ } failed.program = .ok ref final := by
    split at isFinal
    · rename_i ran
      cases isFinal
      exact ⟨_, ran⟩
    · cases isFinal
  have history : Relation.ReflTransGen Program.Operates .initial final :=
    ((Program.history_of_layOut (Except.toOption_eq_some_iff.mp isBuilt)).tail
      (.pass ⟨_, _, _, .inr ⟨failure, failed?_eq_some_iff.mp isFailed⟩, rfl⟩)).tail
      (.append (fun _ block => by cases block) appended)
  obtain ⟨order, isOrder, unique, -⟩ := preorder_reads_once history
  exact ⟨final, history, listed, inBlock, order, isOrder, unique⟩

end StructuralTypes
