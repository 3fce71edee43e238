import StructuralTypes.Proofs.Acyclicity
import StructuralTypes.Proofs.Companions
import StructuralTypes.Proofs.Visibility

/-! Settling companions after the variables are canonical. The walk comes to an end, since no
type is below itself by then, and finds whatever it asks for. All it can fail for is a domain
without a declaration whose companion has none either. -/

namespace StructuralTypes

/-! ## Changes that succeed -/

theorem Layout.exists_insertBefore {layout : Layout} {anchor : StatementRef} {body : BodyRef}
    (linked : layout.LinkedIn anchor body) (statement : Statement) :
    ∃ after, (layout.addStatement statement).2.insertBefore anchor layout.statements.next =
      .ok after := by
  obtain ⟨⟨anchored, holder⟩, content, stored, rfl, bodyStored, -⟩ :=
    (Layout.grows_addStatement layout statement).linkedIn linked
  have unplaced := Arena.get?_push_next layout.statements { statement }
  obtain ⟨bodies, ordered⟩ := Arena.modify_isOk_iff.mpr (Arena.lt_size_of_get? bodyStored)
  obtain ⟨statements, held⟩ := Arena.modify_isOk_iff.mpr (Arena.lt_size_of_get? unplaced)
  refine ⟨{ statements, bodies }, Except.bind_eq_ok_iff.mpr ⟨body, ?_, ?_⟩⟩
  · exact Layout.anchorBody_eq_ok_iff.mpr (Layout.bodyOf_eq_ok_iff.mpr ⟨_, stored⟩)
  · exact Layout.link_eq_ok_iff.mpr ⟨Layout.bodyOf_eq_ok_iff.mpr ⟨_, unplaced⟩, ordered, held⟩

theorem Edit.exists_introduce {program : Program} {scope : ScopeRef} {name : NameRef}
    {fresh : TypeRef} {position : Position} {node : TypeNode} {content : Scope}
    (stored : program.types.get? fresh = some node)
    (scopeStored : program.scopes.get? scope = some content)
    (placed : ∃ layout, position.link program.layout.statements.next
      (program.layout.addStatement (.synthesizedType program.symbols.next)).2 = .ok layout) :
    ∃ after, Edit.introduce scope name fresh position program = .ok () after := by
  obtain ⟨types, declared⟩ :
      ∃ types, program.types.modify fresh
        (fun node => { node with symbol := some program.symbols.next }) = .ok types :=
    Arena.modify_isOk_iff.mpr (Arena.lt_size_of_get? stored)
  obtain ⟨scopes, bound⟩ :
      ∃ scopes, program.scopes.modify scope (·.bind name program.symbols.next) = .ok scopes :=
    Arena.modify_isOk_iff.mpr (Arena.lt_size_of_get? scopeStored)
  obtain ⟨layout, placed⟩ := placed
  simp only [Edit.introduce, StructuralTypes.bind_eq_ok_iff, Edit.setTypeSymbol_eq_ok_iff,
    Edit.setDefinition, Edit.changeSymbol_eq_ok_iff, Edit.bind_eq_ok_iff,
    Edit.changeLayout_eq_ok_iff]
  exact ⟨_, _, _, rfl, (), _, ⟨types, declared, rfl⟩, _, _, rfl, (), _,
    ⟨_, Arena.modify_push_next .., rfl⟩, (), _, ⟨scopes, bound, rfl⟩, layout, placed, rfl⟩

theorem Canon.exists_settle {before : Session Unit} {text : String} {fresh : TypeRef}
    {statement : StatementRef} {body : BodyRef} {node : TypeNode} {content : Scope}
    (stored : before.program.types.get? fresh = some node)
    (scopeStored : before.program.scopes.get? before.scope = some content)
    (bound : ∀ existing,
      before.program.Binds before.scope (before.program.names.intern text).1 existing →
      ∃ symbol, before.program.symbols.get? existing = some symbol)
    (linked : before.program.layout.LinkedIn statement body) :
    ∃ settled after, Canon.settle text fresh (.before statement) before = .ok settled after := by
  simp only [Canon.settle, bind_eq_ok_iff, get_eq_ok_iff, Canon.perform_eq_ok_iff,
    Canon.ask_eq_ok_iff]
  cases looked : content.lookup (before.program.names.intern text).1 with
  | some existing =>
      have binds :
          before.program.Binds before.scope (before.program.names.intern text).1 existing :=
        ⟨content, scopeStored, looked⟩
      obtain ⟨symbol, symbolStored⟩ := bound existing binds
      exact ⟨_, _, _, _, ⟨rfl, rfl⟩, _, _, ⟨_, rfl, rfl⟩, some existing, _,
        ⟨Program.lookup_eq_some_iff.mpr binds, rfl⟩, bind_eq_ok_iff.mpr ⟨_, _, rfl,
          bind_eq_ok_iff.mpr ⟨symbol, _, Canon.ask_eq_ok_iff.mpr
            ⟨Program.symbol_eq_ok_iff.mpr symbolStored, rfl⟩, rfl⟩⟩⟩
  | none =>
      have unbound := Program.lookup_eq_none_iff.mpr ⟨content, scopeStored, looked⟩
      obtain ⟨after, introduced⟩ : ∃ after, Edit.introduce before.scope
          (before.program.names.intern text).1 fresh (.before statement)
          { before.program with names := (before.program.names.intern text).2 } = .ok () after :=
        Edit.exists_introduce stored scopeStored (Layout.exists_insertBefore linked _)
      have declared := (Program.introduces_of_introduce introduced).type_same stored
      exact ⟨_, _, _, _, ⟨rfl, rfl⟩, _, _, ⟨_, rfl, rfl⟩, none, _, ⟨unbound, rfl⟩,
        bind_eq_ok_iff.mpr ⟨_, _, rfl, bind_eq_ok_iff.mpr ⟨(), _,
          Canon.perform_eq_ok_iff.mpr ⟨after, introduced, rfl⟩, bind_eq_ok_iff.mpr ⟨_, _,
            Canon.ask_eq_ok_iff.mpr ⟨Program.shape_eq_ok_iff.mpr ⟨_, declared, rfl⟩, rfl⟩, rfl⟩⟩⟩⟩

/-! ## Programs with companions settled -/

namespace TypeNode

/-- What settling companions makes of a node: an index type may get a declaration, and a domain
that has one may get another companion. -/
inductive Completed : TypeNode → TypeNode → Prop
  | same (node : TypeNode) : Completed node node
  | declared {subject : ExpressionRef} {ref : SymbolRef} :
      Completed { form := .index subject } { form := .index subject, symbol := some ref }
  | accompanied {rank : Nat} {parent : Option TypeRef} {before after : TypeRef} {ref : SymbolRef} :
      Completed { form := .domain rank parent (some before), symbol := some ref }
        { form := .domain rank parent (some after), symbol := some ref }

variable {first second third : TypeNode}

theorem Completed.trans (once : first.Completed second) (again : second.Completed third) :
    first.Completed third := by
  cases once with
  | same => exact again
  | declared =>
      cases again
      exact .declared
  | accompanied => cases again <;> exact .accompanied

theorem Completed.parent?_eq (completed : first.Completed second) :
    second.form.parent? = first.form.parent? := by
  cases completed <;> rfl

theorem Completed.shape_eq (completed : first.Completed second) :
    second.form.shape = first.form.shape := by
  cases completed <;> rfl

end TypeNode

namespace Program

variable {source resolved before middle after : Program}

/-- `current` is `resolved` with some companions settled. -/
structure Completing (source resolved current : Program) : Prop where
  sound : Sound source current
  steps : CompanionSteps resolved current
  types : ∀ type node, resolved.types.get? type = some node →
    ∃ later, current.types.get? type = some later ∧ node.Completed later
  plain : current.DomainsPlain
  named : ∀ type, current.Named type → ∃ text, current.typeName? type = .ok (some text)

structure Succeeds (program : Program) (type : TypeRef) (node later : TypeNode) : Prop where
  stored : program.types.get? type = some later
  completed : node.Completed later
  companion : ∀ companion ∈ later.form.companion?,
    companion ∈ node.form.companion? ∨ program.shape companion = .ok .index
  named : later.symbol = node.symbol ∨ ∃ text, program.typeName? type = .ok (some text)

theorem succeeds_refl {type : TypeRef} {node : TypeNode}
    (stored : before.types.get? type = some node) : before.Succeeds type node node :=
  ⟨stored, .same node, fun _ => .inl, .inl rfl⟩

theorem Settles.node_completed {scope : ScopeRef} {text : String} {companion canonical : TypeRef}
    {subject : ExpressionRef} {placement : Placement}
    (anonymous : before.types.get? companion = some { form := .index subject, symbol := none })
    (settles : before.Settles scope text companion id placement canonical after)
    {type : TypeRef} {node : TypeNode} (stored : before.types.get? type = some node) :
    ∃ later, after.types.get? type = some later ∧ node.Completed later ∧ later.form = node.form ∧
      (later.symbol = node.symbol ∨ after.typeName? type = .ok (some text)) := by
  by_cases isCompanion : type = companion
  · subst isCompanion
    cases Option.mem_unique anonymous stored
    cases settles with
    | reused => exact ⟨_, stored, .same _, rfl, .inl rfl⟩
    | created _ _ _ introduces =>
        have declares := introduces.type_same anonymous
        exact ⟨_, declares, .declared, rfl, .inr (typeName?_eq_some_iff.mpr
          ⟨_, _, _, declares, introduces.new_symbol, introduces.new_name⟩)⟩
  · exact ⟨node, (settles.type_other isCompanion).trans stored, .same _, rfl, .inl rfl⟩

theorem Visits.succeeds (intact : source.Intact) (unreserved : source.Unreserved)
    (sound : Sound source before) {statement : StatementRef} {type : TypeRef}
    (visits : before.Visits statement type after) {other : TypeRef} {node : TypeNode}
    (stored : before.types.get? other = some node) : ∃ later, after.Succeeds other node later := by
  have advance := visits.advance sound
  cases visits with
  | passed => exact ⟨node, succeeds_refl stored⟩
  | @settled rank parent companion canonical symbol subject text middle types isDomain anonymous
      name settles recorded =>
      have different := ne_of_shape_ne isDomain anonymous (by simp [TypeForm.shape])
      by_cases isType : other = type
      · subst isType
        obtain ⟨_, ref, _, again, -⟩ := typeName?_eq_some_iff.mp name
        obtain ⟨rfl, rfl⟩ := node_unique isDomain again
        cases Option.mem_unique isDomain stored
        have declared := settles.declaredUnder intact sound (unreserved.free _)
        obtain ⟨form, _, _, found, -, -, isIndex⟩ := advance.sound.node_of_declaredUnder declared
        refine ⟨{ form := .domain rank parent (some canonical), symbol := some ref }, ?_,
          .accompanied, ?_, .inl rfl⟩
        · rw [Arena.get?_of_modify_same recorded, settles.type_other different, isDomain]
          rfl
        · intro part member
          cases member
          exact .inr (shape_eq_ok_iff.mpr ⟨_, found, isIndex⟩)
      · obtain ⟨later, found, completed, sameForm, named⟩ := settles.node_completed anonymous stored
        have kept := (Arena.get?_of_modify_of_ne recorded (Ne.symm isType)).trans found
        refine ⟨later, kept, completed, fun part member => .inl (sameForm ▸ member),
          named.imp_right fun name => ⟨(CanonicalKey.indexOfDomain text).name, ?_⟩⟩
        obtain ⟨_, _, record, again, recordStored, recordNamed⟩ := typeName?_eq_some_iff.mp name
        cases Option.mem_unique found again
        exact typeName?_eq_some_iff.mpr ⟨_, _, record, kept, recordStored, recordNamed⟩

namespace Completing

theorem visit (intact : source.Intact) (unreserved : source.Unreserved)
    (completing : Completing source resolved before) {statement : StatementRef} {type : TypeRef}
    (visits : before.Visits statement type after) : Completing source resolved after := by
  have advance := visits.advance completing.sound
  have succeeds : ∀ {other : TypeRef} {node : TypeNode}, before.types.get? other = some node →
      ∃ later, after.Succeeds other node later :=
    visits.succeeds intact unreserved completing.sound
  refine ⟨advance.sound, completing.steps.trans visits.companionSteps, ?_, ?_, ?_⟩
  · intro other node stored
    obtain ⟨between, found, completed⟩ := completing.types other node stored
    obtain ⟨later, succeeding⟩ := succeeds found
    exact ⟨later, succeeding.stored, completed.trans succeeding.completed⟩
  · intro other later stored
    obtain ⟨node, found⟩ := advance.extension.stored_before stored
    obtain ⟨again, succeeding⟩ := succeeds found
    cases Option.mem_unique stored succeeding.stored
    obtain ⟨noParent, isIndex⟩ := completing.plain other node found
    refine ⟨succeeding.completed.parent?_eq.trans noParent, fun part member => ?_⟩
    rcases succeeding.companion part member with old | settled
    · obtain ⟨inner, innerStored, shaped⟩ := shape_eq_ok_iff.mp (isIndex part old)
      obtain ⟨innerLater, innerSucceeding⟩ := succeeds innerStored
      exact shape_eq_ok_iff.mpr
        ⟨innerLater, innerSucceeding.stored, innerSucceeding.completed.shape_eq.trans shaped⟩
    · exact settled
  · rintro other ⟨form, ref, stored⟩
    obtain ⟨⟨older, holder⟩, found⟩ := advance.extension.stored_before stored
    obtain ⟨again, succeeding⟩ := succeeds found
    cases Option.mem_unique stored succeeding.stored
    rcases succeeding.named with same | named
    · cases same
      obtain ⟨text, name⟩ := completing.named other ⟨older, ref, found⟩
      exact ⟨text, advance.extension.typeName? name⟩
    · exact named

end Completing

/-- `type` is a domain without a declaration, and its companion has none either. -/
def Stranded (program : Program) (type : TypeRef) : Prop :=
  ∃ rank parent companion subject,
    program.types.get? type =
      some { form := .domain rank parent (some companion), symbol := none } ∧
    program.types.get? companion = some { form := .index subject, symbol := none }

namespace Completing

section

variable (completing : Completing source resolved before) (sound : Sound source resolved)
include completing sound

theorem node_before {type : TypeRef} {later : TypeNode}
    (stored : before.types.get? type = some later) :
    ∃ node, resolved.types.get? type = some node ∧ node.Completed later := by
  have inside := Arena.lt_size_of_get? stored
  rw [completing.sound.extension.size, ← sound.extension.size] at inside
  obtain ⟨node, found⟩ := Arena.exists_get?_of_lt_size inside
  obtain ⟨again, againStored, completed⟩ := completing.types type node found
  cases Option.mem_unique stored againStored
  exact ⟨node, found, completed⟩

theorem index_before {type : TypeRef} (isIndex : before.shape type = .ok .index) :
    resolved.shape type = .ok .index := by
  obtain ⟨later, stored, shaped⟩ := shape_eq_ok_iff.mp isIndex
  obtain ⟨node, found, completed⟩ := completing.node_before sound stored
  exact shape_eq_ok_iff.mpr ⟨node, found, completed.shape_eq.symm.trans shaped⟩

theorem stranded_before {type : TypeRef} (stranded : before.Stranded type) :
    resolved.Stranded type := by
  obtain ⟨rank, parent, companion, subject, stored, companionStored⟩ := stranded
  obtain ⟨node, found, completed⟩ := completing.node_before sound stored
  obtain ⟨inner, innerFound, innerCompleted⟩ := completing.node_before sound companionStored
  cases completed
  cases innerCompleted
  exact ⟨rank, parent, companion, subject, found, innerFound⟩

theorem part (acyclic : resolved.Acyclic)
    (parts : ∀ part whole, resolved.PartOf part whole →
      ∃ node, resolved.types.get? part = some node)
    {type : TypeRef} {node : TypeNode} {form : TypeForm} {symbol : Option SymbolRef}
    (stored : resolved.types.get? type = some node)
    (found : before.types.get? type = some { form, symbol }) {part : TypeRef}
    (member : part ∈ form.children) :
    ∃ inner, resolved.types.get? part = some inner ∧
      resolved.extent part < resolved.extent type ∧
      ∀ domain, resolved.Reaches part domain → resolved.Stranded domain →
        resolved.Reaches type domain := by
  have old : ∀ {part : TypeRef}, part ∈ node.form.children → ∃ inner,
      resolved.types.get? part = some inner ∧ resolved.extent part < resolved.extent type ∧
      ∀ domain, resolved.Reaches part domain → resolved.Stranded domain →
        resolved.Reaches type domain := by
    intro part member
    have isPart : resolved.PartOf part type := ⟨node, stored, member⟩
    obtain ⟨inner, innerStored⟩ := parts part type isPart
    exact ⟨inner, innerStored, acyclic.extent_lt innerStored isPart,
      fun _ reached _ => .child stored member reached⟩
  obtain ⟨again, againStored, completed⟩ := completing.types type node stored
  cases Option.mem_unique found againStored
  cases completed with
  | same => exact old member
  | declared => cases member
  | @accompanied rank parent first second ref =>
      rcases List.mem_append.mp member with isParent | isCompanion
      · exact old (List.mem_append_left _ isParent)
      · -- The new companion is an index type, which leads nowhere.
        cases List.mem_singleton.mp isCompanion
        have isIndex := completing.index_before sound
          ((completing.plain type _ found).2 part rfl)
        obtain ⟨inner, innerStored, shaped⟩ := shape_eq_ok_iff.mp isIndex
        have firstMember : first ∈ (TypeForm.domain rank parent (some first)).children := by
          simp [TypeForm.children]
        obtain ⟨_, -, smaller, -⟩ := old firstMember
        refine ⟨inner, innerStored, ?_, ?_⟩
        · rw [extent_of_index isIndex]
          exact Nat.lt_of_le_of_lt (Nat.zero_le _) smaller
        · rintro domain (_ | ⟨again, inChildren, -⟩) stranded
          · obtain ⟨_, _, _, _, isDomain, -⟩ := stranded
            cases Option.mem_unique innerStored isDomain
            cases shaped
          · exact absurd ⟨_, again, inChildren⟩ (not_partOf_of_index isIndex)

end

end Completing

theorem Sound.exists_symbol_of_binds (laid : LaidOut source) (sound : Sound source before)
    {scope : ScopeRef} {name : NameRef} {ref : SymbolRef} (binds : before.Binds scope name ref) :
    ∃ symbol, before.symbols.get? ref = some symbol := by
  rcases sound.bound _ _ _ binds with old | ⟨-, symbol, stored, -⟩
  · obtain ⟨-, symbol, stored⟩ := laid.bindings _ _ _ old
    obtain ⟨_, kept⟩ := sound.extension.symbols ref symbol stored
    exact ⟨_, kept⟩
  · exact ⟨symbol, stored⟩

theorem typeName?_eq_none {type : TypeRef} {form : TypeForm}
    (stored : before.types.get? type = some { form, symbol := none }) :
    before.typeName? type = .ok none := by
  have anonymous := typeSymbol?_eq_ok_iff.mpr ⟨form, stored⟩
  simp only [typeName?, anonymous, bind, Except.bind]
  rfl

end Program

/-! ## One visit -/

theorem visitType_eq {before : Walker CompanionWalk} {statement : StatementRef}
    {scope : ScopeRef} (here : before.own.current = some (statement, scope)) {type : TypeRef}
    {form : TypeForm} {symbol : Option SymbolRef}
    (stored : before.program.types.get? type = some { form, symbol }) :
    indexCompanions.visitType type before =
      match form.companion? with
      | some companion =>
          CompanionWalk.within statement scope (Canon.settleCompanion type companion) before
      | none => .ok () before := by
  have asked : before.program.form type = .ok form := Program.form_eq_ok_iff.mpr ⟨symbol, stored⟩
  have got : (get : Walk Failure CompanionWalk (Walker CompanionWalk)) before = .ok before before :=
    rfl
  simp only [indexCompanions, bind, EStateM.bind, got, here, Walk.ask, asked]
  cases form with
  | domain rank parent companion => cases companion <;> rfl
  | _ => rfl

section

variable {source resolved : Program} (laid : LaidOut source)
  (shared : ∃ content, resolved.scopes.get? Program.sharedScope = some content)
include laid shared

theorem settleCompanion_ends {before : Session Unit}
    (completing : Program.Completing source resolved before.program) {body : BodyRef}
    (linked : before.program.layout.LinkedIn before.statement body) {type companion : TypeRef}
    {rank : Nat} {parent : Option TypeRef} {symbol : Option SymbolRef}
    (stored : before.program.types.get? type =
      some { form := .domain rank parent (some companion), symbol }) :
    (∃ after, Canon.settleCompanion type companion before = .ok () after) ∨
      before.program.Stranded type ∧ Canon.settleCompanion type companion before =
        .error (.failed ⟨before.statement, .unsupported .anonymousDomain⟩) before := by
  have isIndex := (completing.plain type _ stored).2 companion rfl
  obtain ⟨⟨form, holder⟩, companionStored, shaped⟩ := Program.shape_eq_ok_iff.mp isIndex
  obtain ⟨subject, rfl⟩ : ∃ subject, form = .index subject := by
    cases form with
    | index subject => exact ⟨subject, rfl⟩
    | _ => cases shaped
  have declared := Program.typeSymbol?_eq_ok_iff.mpr ⟨_, companionStored⟩
  cases holder with
  | some ref =>
      left
      simp only [Canon.settleCompanion, bind_eq_ok_iff, Canon.ask_eq_ok_iff]
      exact ⟨before, .index, _, ⟨isIndex, rfl⟩, some ref, _, ⟨declared, rfl⟩, rfl⟩
  | none =>
      cases symbol with
      | none =>
          right
          have unnamed := Program.typeName?_eq_none stored
          refine ⟨⟨rank, parent, companion, subject, stored, companionStored⟩, ?_⟩
          simp only [Canon.settleCompanion, bind_eq_error_iff, Canon.ask_eq_ok_iff]
          exact .inr ⟨.index, _, ⟨isIndex, rfl⟩, .inr ⟨none, _, ⟨declared, rfl⟩,
            bind_eq_error_iff.mpr (.inr ⟨none, _, Canon.ask_eq_ok_iff.mpr ⟨unnamed, rfl⟩,
              Canon.fail_eq_failed_iff.mpr ⟨rfl, rfl⟩⟩)⟩⟩
      | some ref =>
          left
          obtain ⟨text, name⟩ := completing.named type ⟨_, ref, stored⟩
          obtain ⟨content, sharedStored⟩ := shared
          obtain ⟨later, scopeStored, -⟩ :=
            completing.steps.continues.scopes _ content sharedStored
          obtain ⟨settled, inner, settling⟩ : ∃ settled inner,
              Canon.settle (CanonicalKey.indexOfDomain text).name companion
                (.before before.statement) { before with scope := Program.sharedScope } =
                .ok settled inner :=
            Canon.exists_settle companionStored scopeStored
              (fun _ => completing.sound.exists_symbol_of_binds laid) linked
          have settles := (settles_of_settle settling).2
          have different :=
            Program.ne_of_shape_ne stored companionStored (by simp [TypeForm.shape])
          obtain ⟨types, recorded⟩ : ∃ types, inner.program.types.modify type
              (fun node => { node with form := node.form.withCompanion settled.type }) =
                .ok types :=
            Arena.modify_isOk_iff.mpr
              (Arena.lt_size_of_get? ((settles.type_other different).trans stored))
          simp only [Canon.settleCompanion, bind_eq_ok_iff, Canon.ask_eq_ok_iff]
          exact ⟨_, .index, _, ⟨isIndex, rfl⟩, none, _, ⟨declared, rfl⟩,
            bind_eq_ok_iff.mpr ⟨some text, _, Canon.ask_eq_ok_iff.mpr ⟨name, rfl⟩,
              bind_eq_ok_iff.mpr ⟨settled, _, Canon.inScope_eq_ok_iff.mpr
                ⟨inner, bind_eq_ok_iff.mpr ⟨_, _, rfl, settling⟩, rfl⟩,
                Canon.perform_eq_ok_iff.mpr ⟨_, Edit.changeForm_eq_ok_iff.mpr
                  ⟨types, recorded, rfl⟩, rfl⟩⟩⟩⟩

theorem visitType_ends {before : Walker CompanionWalk} {statement : StatementRef}
    {scope : ScopeRef} (here : before.own.current = some (statement, scope))
    (completing : Program.Completing source resolved before.program) {body : BodyRef}
    (linked : before.program.layout.LinkedIn statement body) {type : TypeRef} {node : TypeNode}
    (stored : before.program.types.get? type = some node) :
    (∃ after, indexCompanions.visitType type before = .ok () after) ∨
      before.program.Stranded type ∧ ∃ after, indexCompanions.visitType type before =
        .error (.failed ⟨statement, .unsupported .anonymousDomain⟩) after := by
  obtain ⟨form, symbol⟩ := node
  rw [visitType_eq here stored]
  cases isDomain : form.companion? with
  | none => exact .inl ⟨before, rfl⟩
  | some companion =>
      obtain ⟨rank, parent, rfl⟩ := TypeForm.eq_domain_of_companion? isDomain
      simp only [CompanionWalk.within, Walk.focus_eq_ok_iff, Walk.focus_eq_error_iff,
        Canon.within_eq_ok_iff, Canon.within_eq_error_iff]
      have ends := settleCompanion_ends laid shared
        (show Program.Completing source resolved
          (Session.mk ⟨before.program, before.own.toProgress⟩ scope statement).program from
          completing) linked stored
      rcases ends with ⟨after, settled⟩ | ⟨stranded, failed⟩
      · exact .inl ⟨_, _, ⟨after, settled, rfl⟩, rfl⟩
      · exact .inr ⟨stranded, _, _, ⟨_, failed, rfl⟩, rfl⟩

end

def Program.Strands (program : Program) (ref : StatementRef) (domain : TypeRef) : Prop :=
  ∃ placed declared symbol, program.layout.statements.get? ref = some placed ∧
    placed.statement.declared? = some declared ∧ program.symbols.get? declared = some symbol ∧
    program.Reaches symbol.type domain ∧ program.Stranded domain

/-! ## Walks that fail for a reason -/

inductive Ending (good : Walker CompanionWalk → Prop) (bad : Failure → Prop) :
    EStateM.Result (Halt Failure) (Walker CompanionWalk) Unit → Prop
  | well {after : Walker CompanionWalk} (holds : good after) : Ending good bad (.ok () after)
  | failed {failure : Failure} {after : Walker CompanionWalk} (reason : bad failure) :
      Ending good bad (.error (.failed failure) after)

namespace Ending

variable {good between : Walker CompanionWalk → Prop} {bad worse : Failure → Prop}
  {before : Walker CompanionWalk}

theorem bind {first : Walk Failure CompanionWalk Unit}
    {rest : Unit → Walk Failure CompanionWalk Unit} (ending : Ending between bad (first before))
    (later : ∀ middle, between middle → Ending good bad (rest () middle)) :
    Ending good bad ((first >>= rest) before) := by
  simp only [Bind.bind, EStateM.bind]
  generalize first before = result at ending
  cases ending with
  | well holds => exact later _ holds
  | failed reason => exact .failed reason

theorem ask {α : Type} {question : Program → Except Fault α} {answer : α}
    {rest : α → Walk Failure CompanionWalk Unit} (answered : question before.program = .ok answer)
    (later : Ending good bad (rest answer before)) :
    Ending good bad ((Walk.ask question >>= rest) before) := by
  simpa only [Bind.bind, EStateM.bind, Walk.ask, answered] using later

theorem imp {result : EStateM.Result (Halt Failure) (Walker CompanionWalk) Unit}
    (ending : Ending good bad result) (reasons : ∀ failure, bad failure → worse failure) :
    Ending good worse result := by
  cases ending with
  | well holds => exact .well holds
  | failed reason => exact .failed (reasons _ reason)

theorem forM {α : Type} {action : α → Walk Failure CompanionWalk PUnit} {elements : List α}
    (each : ∀ element ∈ elements, ∀ before, good before → Ending good bad (action element before))
    (holds : good before) : Ending good bad (elements.forM action before) := by
  induction elements generalizing before with
  | nil => exact .well holds
  | cons head tail induction =>
      obtain ⟨first, others⟩ := List.forall_mem_cons.mp each
      exact (first before holds).bind fun _ => induction others

end Ending

section

variable {source resolved : Program} (laid : LaidOut source) (unreserved : source.Unreserved)
  (sound : Program.Sound source resolved) (acyclic : resolved.Acyclic)
  (parts : ∀ part whole, resolved.PartOf part whole →
    ∃ node, resolved.types.get? part = some node)
  (shared : ∃ content, resolved.scopes.get? Program.sharedScope = some content)

include laid unreserved sound acyclic parts shared

theorem walkTypeWithin_ends {statement : StatementRef} {scope : ScopeRef} {body : BodyRef}
    (linked : resolved.layout.LinkedIn statement body) {depth : Nat} {type : TypeRef}
    {node : TypeNode} (stored : resolved.types.get? type = some node)
    (deep : resolved.extent type < depth) {before : Walker CompanionWalk}
    (completing : Program.Completing source resolved before.program)
    (here : before.own.current = some (statement, scope)) :
    Ending
      (fun after => Program.Completing source resolved after.program ∧
        after.own.current = some (statement, scope))
      (fun failure => failure = ⟨statement, .unsupported .anonymousDomain⟩ ∧
        ∃ domain, resolved.Reaches type domain ∧ resolved.Stranded domain)
      (indexCompanions.walkTypeWithin depth type before) := by
  induction depth generalizing type node before with
  | zero => exact absurd deep (Nat.not_lt_zero _)
  | succ depth induction =>
      have visiting : Ending (fun after => Program.Completing source resolved after.program ∧
            after.own.current = some (statement, scope))
          (fun failure => failure = ⟨statement, .unsupported .anonymousDomain⟩ ∧
            ∃ domain, resolved.Reaches type domain ∧ resolved.Stranded domain)
          (indexCompanions.visitType type before) := by
        obtain ⟨_, found, -⟩ := completing.types type node stored
        have linkedHere := completing.steps.continues.layout.grows.linkedIn linked
        rcases visitType_ends laid shared here completing linkedHere found with
          ⟨after, ran⟩ | ⟨stranded, after, ran⟩
        · obtain ⟨visits, current⟩ := visits_of_visitType here ran
          rw [ran]
          exact .well ⟨completing.visit (Program.intact_of_laidOut laid) unreserved visits, current⟩
        · rw [ran]
          exact .failed ⟨rfl, type, .self, completing.stranded_before sound stranded⟩
      refine visiting.bind ?_
      rintro middle ⟨completingMiddle, current⟩
      obtain ⟨⟨form, symbol⟩, found, -⟩ := completingMiddle.types type node stored
      refine Ending.ask (Program.form_eq_ok_iff.mpr ⟨symbol, found⟩) ?_
      refine Ending.forM ?_ ⟨completingMiddle, current⟩
      rintro part member walker ⟨completingWalker, currentWalker⟩
      obtain ⟨partNode, partStored, smaller, reaches⟩ :=
        completingMiddle.part sound acyclic parts stored found member
      refine (induction partStored (by omega) completingWalker currentWalker).imp ?_
      rintro failure ⟨same, domain, reached, stranded⟩
      exact ⟨same, domain, reaches domain reached stranded, stranded⟩

theorem walkStatement_ends {ref : StatementRef} {body : BodyRef}
    (linked : resolved.layout.LinkedIn ref body)
    (declaring : ∀ placed declared, resolved.layout.statements.get? ref = some placed →
      placed.statement.declared? = some declared → ∃ symbol node,
        resolved.symbols.get? declared = some symbol ∧
        resolved.types.get? symbol.type = some node)
    {before : Walker CompanionWalk}
    (completing : Program.Completing source resolved before.program) :
    Ending (fun after => Program.Completing source resolved after.program)
      (fun failure => ∃ domain, failure = ⟨ref, .unsupported .anonymousDomain⟩ ∧
        resolved.Strands ref domain) (indexCompanions.walkStatement ref before) := by
  obtain ⟨placed, content, stored, isBody, bodyStored, member⟩ := linked
  have kept := completing.steps.continues.layout.statements ref placed stored
  have found : before.program.statement ref = .ok placed.statement :=
    Layout.statement_eq_ok_iff.mpr ⟨placed.body, kept⟩
  have entered : ∀ {scope : Option ScopeRef}, before.program.statementScope? ref = .ok scope →
      Ending (fun middle => middle.program = before.program ∧
          middle.own.current = scope.map fun scope => (ref, scope))
        (fun failure => ∃ domain, failure = ⟨ref, .unsupported .anonymousDomain⟩ ∧
          resolved.Strands ref domain) (indexCompanions.enterStatement ref before) :=
    fun asked => Ending.ask asked (.well ⟨rfl, rfl⟩)
  cases declares : placed.statement.declared? with
  | none =>
      refine (entered (statementScope?_of_silent found declares)).bind ?_
      rintro middle ⟨same, -⟩
      refine Ending.ask (same ▸ found) ?_
      simp only [declares]
      exact .well (same ▸ completing)
  | some declared =>
      obtain ⟨symbol, node, symbolStored, nodeStored⟩ := declaring placed declared stored declares
      have symbolKept := completing.steps.symbol_kept symbolStored
      refine (entered (statementScope?_of_declared found declares symbolKept)).bind ?_
      rintro middle ⟨same, current⟩
      refine Ending.ask (same ▸ found) ?_
      simp only [declares]
      refine Ending.ask (same ▸ Program.symbol_eq_ok_iff.mpr symbolKept) ?_
      -- Settling companions adds no types, so the bound is still above what is below the type.
      have deep : resolved.extent symbol.type < companionNesting middle.program := by
        have size : middle.program.types.size = resolved.types.size := by
          rw [same, completing.sound.extension.size, sound.extension.size]
        have bounded := resolved.extent_le symbol.type
        rw [companionNesting, size]
        omega
      have walked := walkTypeWithin_ends laid unreserved sound acyclic parts shared
        ⟨placed, content, stored, isBody, bodyStored, member⟩ nodeStored deep (same ▸ completing)
        current
      refine Ending.bind (walked.imp ?_) ?_
      · rintro failure ⟨isFailure, domain, reached, stranded⟩
        exact ⟨domain, isFailure, placed, declared, symbol, stored, declares, symbolStored, reached,
          stranded⟩
      · rintro last ⟨completingLast, -⟩
        exact .well completingLast

end

/-! ## What a walk that ends well has not come to -/

namespace Program

section

variable {source resolved before after : Program} {domain companion : TypeRef}
  (intact : source.Intact) (unreserved : source.Unreserved) (plain : resolved.DomainsPlain)
  (stranded : resolved.Stranded domain) (completing : Completing source resolved before)
  (owns : before.Owns domain companion)

include stranded completing owns in
theorem Visits.ne_of_stranded {statement : StatementRef} {type : TypeRef}
    (visits : before.Visits statement type after) : type ≠ domain := by
  rintro rfl
  obtain ⟨rank, parent, _, _, stored, -⟩ := stranded
  obtain ⟨later, found, completed⟩ := completing.types type _ stored
  cases completed
  cases visits with
  | passed companioned =>
      obtain ⟨_, _, _, slot⟩ := owns.slot
      obtain ⟨_, waiting⟩ := owns.waiting
      obtain ⟨_, _, named⟩ := companioned _ _ _ _ slot
      cases Option.mem_unique waiting named
  | settled _ _ name =>
      rw [typeName?_eq_none found] at name
      cases name

include plain completing in
theorem Completing.mem_children {type part : TypeRef} {form later : TypeForm}
    {symbol holder : Option SymbolRef} (isDomain : resolved.shape domain = .ok .domain)
    (stored : resolved.types.get? type = some { form, symbol })
    (found : before.types.get? type = some { form := later, symbol := holder })
    (member : part ∈ form.children) (reaches : resolved.Reaches part domain) :
    part ∈ later.children := by
  obtain ⟨again, againStored, completed⟩ := completing.types type _ stored
  cases Option.mem_unique found againStored
  cases completed with
  | same => exact member
  | declared => exact member
  | @accompanied rank parent first second ref =>
      obtain ⟨noParent, isIndex⟩ := plain type _ stored
      cases noParent
      cases List.mem_singleton.mp member
      have isIndex := isIndex part rfl
      cases reaches with
      | self =>
          rw [isIndex] at isDomain
          cases isDomain
      | child inner inChildren => exact absurd ⟨_, inner, inChildren⟩ (not_partOf_of_index isIndex)

include intact unreserved plain stranded

include completing owns in
theorem Completes.avoids {statement : StatementRef} {types : List TypeRef}
    (completes : Completes statement before types after) :
    Completing source resolved after ∧ after.Owns domain companion ∧
      ∀ type ∈ types, ¬resolved.Reaches type domain := by
  induction completes with
  | nil => exact ⟨completing, owns, by simp⟩
  | @cons before visited middle after type rest form symbol visits stored _ _ inner later =>
      have different := visits.ne_of_stranded stranded completing owns
      have visiting := completing.visit intact unreserved visits
      obtain ⟨completingMiddle, ownsMiddle, parts⟩ := inner visiting (visits.owns owns different)
      obtain ⟨completingAfter, ownsAfter, others⟩ := later completingMiddle ownsMiddle
      refine ⟨completingAfter, ownsAfter, List.forall_mem_cons.mpr ⟨fun reaches => ?_, others⟩⟩
      cases reaches with
      | self => exact different rfl
      | @child _ part _ _ _ found member reaches =>
          obtain ⟨rank, parent, _, _, isDomain, -⟩ := stranded
          exact parts part (visiting.mem_children plain (shape_eq_ok_iff.mpr ⟨_, isDomain, rfl⟩)
            found stored member reaches) reaches

include completing owns in
/-- No declaration that has been gone through leads to a stranded domain that shares its companion
with nothing. -/
theorem CompletesAll.avoids {order : List StatementRef}
    (completes : CompletesAll before order after) :
    ∀ ref ∈ order, ¬resolved.Strands ref domain := by
  have kept : ∀ {current : Program} {ref : StatementRef} {statement : Statement},
      Completing source resolved current → current.statement ref = .ok statement →
      resolved.Strands ref domain → ∃ declared symbol, statement.declared? = some declared ∧
        current.symbols.get? declared = some symbol ∧ resolved.Reaches symbol.type domain := by
    rintro current ref statement completing found
      ⟨placed, declared, symbol, stored, declares, symbolStored, reaches, -⟩
    obtain ⟨_, again⟩ := Layout.statement_eq_ok_iff.mp found
    cases Option.mem_unique again (completing.steps.continues.layout.statements ref placed stored)
    exact ⟨declared, symbol, declares, completing.steps.symbol_kept symbolStored, reaches⟩
  induction completes with
  | nil => simp
  | declaration found declares stored completes _ induction =>
      obtain ⟨completingMiddle, ownsMiddle, avoided⟩ :=
        completes.avoids intact unreserved plain stranded completing owns
      refine List.forall_mem_cons.mpr ⟨fun strands => ?_, induction completingMiddle ownsMiddle⟩
      obtain ⟨_, _, again, symbolStored, reaches⟩ := kept completing found strands
      cases Option.mem_unique declares again
      cases Option.mem_unique stored symbolStored
      exact avoided _ List.mem_cons_self reaches
  | other found silent _ induction =>
      refine List.forall_mem_cons.mpr ⟨fun strands => ?_, induction completing owns⟩
      obtain ⟨_, _, declares, -⟩ := kept completing found strands
      cases silent.symm.trans declares

end

end Program

/-! ## After the walk over the variables -/

namespace Program

theorem Tracks.domainsPlain {source resolved : Program} (tracks : Tracks source resolved)
    (plain : source.DomainsPlain) : resolved.DomainsPlain := by
  intro type node stored
  obtain ⟨form, _, original, varies, -⟩ := tracks.form_source stored
  obtain ⟨noParent, isIndex⟩ := plain type _ original
  have later : ∀ part, source.shape part = .ok .index → resolved.shape part = .ok .index := by
    intro part isIndex
    obtain ⟨⟨inner, symbol⟩, partStored, shaped⟩ := shape_eq_ok_iff.mp isIndex
    obtain ⟨_, _, found, innerVaries, -⟩ := tracks.types part inner symbol partStored
    exact shape_eq_ok_iff.mpr ⟨_, found, innerVaries.shape_eq.trans shaped⟩
  have same : node.form.parent? = form.parent? ∧ node.form.companion? = form.companion? := by
    generalize node.form = later at varies
    cases varies <;> exact ⟨rfl, rfl⟩
  rw [same.1, same.2]
  exact ⟨noParent, fun part member => later part (isIndex part member)⟩

variable {source resolved : Program} (laid : LaidOut source) (tracks : Tracks source resolved)
include laid tracks

theorem Tracks.exists_part {part whole : TypeRef} (isPart : resolved.PartOf part whole) :
    ∃ node, resolved.types.get? part = some node := by
  obtain ⟨⟨form, symbol⟩, stored, member⟩ := isPart
  obtain ⟨original, _, originalStored, varies, -⟩ := tracks.form_source stored
  have kept : ∀ {type : TypeRef} {node : TypeNode}, source.types.get? type = some node →
      ∃ node, resolved.types.get? type = some node := by
    rintro type ⟨form, symbol⟩ found
    obtain ⟨_, _, later, -⟩ := tracks.types type form symbol found
    exact ⟨_, later⟩
  have older : ∀ {part : TypeRef}, part ∈ original.children →
      ∃ node, resolved.types.get? part = some node := by
    intro part member
    have below := laid.parts_below whole _ originalStored part member
    obtain ⟨_, found⟩ := Arena.exists_get?_of_lt_size
      (Nat.lt_trans below (Arena.lt_size_of_get? originalStored))
    exact kept found
  have replaced : ∀ {element inner : TypeRef}, element ∈ original.children →
      source.Replaces resolved element inner → ∃ node, resolved.types.get? inner = some node := by
    rintro element inner member (rfl | ⟨⟨-, rfl⟩ | interns, -⟩)
    · exact older member
    · exact older member
    · obtain ⟨_, _, named⟩ := tracks.named_of_interns interns
      exact ⟨_, named⟩
  cases varies with
  | same => exact older member
  | @array element inner range before after replaces records =>
      rcases List.mem_cons.mp member with rfl | isRecorded
      · exact replaced List.mem_cons_self replaces
      · rcases records with rfl | ⟨domain, rfl, _, _, -, ranked, -⟩
        · exact older (List.mem_cons_of_mem _ isRecorded)
        · obtain ⟨_, _, _, found⟩ := rank?_eq_some_iff.mp ranked
          simp only [Option.toList_some, List.mem_singleton] at isRecorded
          exact isRecorded ▸ kept found
  | sequence replaces =>
      cases List.mem_singleton.mp member
      exact replaced List.mem_cons_self replaces
  | domain => exact older member

theorem Tracks.exists_typeName? {type : TypeRef} (named : resolved.Named type) :
    ∃ text, resolved.typeName? type = .ok (some text) := by
  obtain ⟨form, ref, stored⟩ := named
  obtain ⟨_, holder, originalStored, -, same⟩ := tracks.form_source stored
  cases holder with
  | none =>
      obtain ⟨isNew, symbol, symbolStored, -⟩ := tracks.declared _ _ _ _ originalStored stored
      obtain ⟨text, isText, -⟩ := (tracks.synthesized ref symbol isNew symbolStored).called
      exact ⟨text, typeName?_eq_some_iff.mpr ⟨form, ref, symbol, stored, symbolStored, isText⟩⟩
  | some other =>
      cases Option.some.inj (same (by simp))
      obtain ⟨symbol, old, -⟩ := laid.declared _ _ _ originalStored
      obtain ⟨text, _, isText, -⟩ := laid.bound _ symbol old
      obtain ⟨_, kept, -⟩ := tracks.symbols _ symbol old
      exact ⟨text, typeName?_eq_some_iff.mpr
        ⟨form, _, _, stored, kept, tracks.names _ _ isText⟩⟩

theorem Tracks.exists_declared (sited : Sited source resolved) {ref : StatementRef}
    {placed : Placed} {declared : SymbolRef}
    (stored : resolved.layout.statements.get? ref = some placed)
    (declares : placed.statement.declared? = some declared) :
    ∃ symbol node, resolved.symbols.get? declared = some symbol ∧
      resolved.types.get? symbol.type = some node := by
  cases old : source.layout.statements.get? ref with
  | none =>
      obtain ⟨_, symbol, isType, isNew, symbolStored, -⟩ := sited.statements ref placed old stored
      rw [isType] at declares
      cases declares
      obtain ⟨-, form, -, nodeStored, -⟩ := (tracks.synthesized _ symbol isNew symbolStored).node
      exact ⟨symbol, _, symbolStored, nodeStored⟩
  | some written =>
      cases Option.mem_unique stored (sited.continues.layout.statements ref written old)
      obtain ⟨symbol, symbolOld, -⟩ := (laid.statements ref placed old).2 declared declares
      obtain ⟨⟨form, holder⟩, nodeOld⟩ := laid.typed declared symbol symbolOld
      obtain ⟨form, holder, nodeStored, -⟩ := tracks.types symbol.type form holder nodeOld
      obtain ⟨type, symbolStored, isType⟩ := tracks.symbols declared symbol symbolOld
      rcases isType with rfl | ⟨-, rfl⟩ | interns
      · exact ⟨_, _, symbolStored, nodeStored⟩
      · exact ⟨_, _, symbolStored, nodeStored⟩
      · obtain ⟨form, holder, settled⟩ := tracks.named_of_interns interns
        exact ⟨_, _, symbolStored, settled⟩

theorem Tracks.completing (sound : Sound source resolved) (plain : source.DomainsPlain) :
    Completing source resolved resolved where
  sound := sound
  steps := .refl
  types _ node stored := ⟨node, stored, .same node⟩
  plain := tracks.domainsPlain plain
  named _ := tracks.exists_typeName? laid

end Program

theorem walkProgram_ends {source resolved : Program} (laid : LaidOut source)
    (unreserved : source.Unreserved) (plain : source.DomainsPlain)
    (sound : Program.Sound source resolved) (tracks : Program.Tracks source resolved)
    (sited : Program.Sited source resolved) (acyclic : resolved.Acyclic)
    {order : List StatementRef} (listed : resolved.preorder = .ok order) (own : CompanionWalk) :
    Ending (fun after => Program.Completing source resolved after.program)
      (fun failure => ∃ ref ∈ order, ∃ domain,
        failure = ⟨ref, .unsupported .anonymousDomain⟩ ∧ resolved.Strands ref domain)
      (indexCompanions.walkProgram ⟨resolved, own⟩) := by
  obtain ⟨content, stored, -⟩ := laid.shared
  obtain ⟨later, kept, -⟩ := sited.continues.scopes _ content stored
  refine Ending.ask listed (Ending.forM ?_ (tracks.completing laid sound plain))
  intro ref member before completing
  obtain ⟨-, body, content, -, stored, inBody⟩ := Layout.reachable_of_mem_preorder listed member
  obtain ⟨statement, placed⟩ := sited.lexical.placedOnce.held body content ref stored inBody
  have ending := walkStatement_ends laid unreserved sound acyclic
    (fun _ _ isPart => tracks.exists_part laid isPart) ⟨later, kept⟩
    ⟨_, content, placed, rfl, stored, inBody⟩
    (fun _ _ stored declares => tracks.exists_declared laid sited stored declares) completing
  refine ending.imp ?_
  rintro failure ⟨domain, isFailure, strands⟩
  exact ⟨ref, member, domain, isFailure, strands⟩

/-- After a walk over the variables that ends well, settling companions ends well as well, or it
fails at a declaration that leads to a stranded domain. It does not end well if a declaration leads
to a stranded domain that shares its companion with nothing. -/
theorem indexCompanions_ends {calls : List Call} {source : Program} {own : Progress Unit}
    {resolved : Walker (Progress Unit)} (built : layOut calls = .ok source)
    (unreserved : source.Unreserved) (plain : source.DomainsPlain)
    (ran : (variableTypes .silent).walkProgram ⟨source, own⟩ = .ok () resolved) (tally : Tally) :
    ∃ order, resolved.program.preorder = .ok order ∧
      ((∃ final, indexCompanions.walkProgram ⟨resolved.program, .start tally⟩ = .ok () final) ∨
        ∃ ref ∈ order, ∃ domain final,
          indexCompanions.walkProgram ⟨resolved.program, .start tally⟩ =
            .error (.failed ⟨ref, .unsupported .anonymousDomain⟩) final ∧
          resolved.program.Strands ref domain) ∧
      ∀ ref ∈ order, ∀ domain companion, resolved.program.Strands ref domain →
        resolved.program.Owns domain companion → ∀ final,
        indexCompanions.walkProgram ⟨resolved.program, .start tally⟩ ≠ .ok () final := by
  have laid := laidOut_of_layOut built
  have intact := Program.intact_of_laidOut laid
  have lexical := (Program.composed_of_layOut built).toLexical
  obtain ⟨before, listedBefore, resolves⟩ := resolvesAll_of_walkProgram ran
  have sound := (resolves.advance intact (Program.sound_refl source)).sound
  have sited := (Program.sited_refl lexical).steps intact resolves.steps
  have tracks := (Program.resolved_of_walkProgram laid unreserved ran).1
  have acyclic := Program.acyclic_of_walkProgram (Program.wellFormed_of_laidOut laid)
    (Program.acyclic_of_laidOut laid) unreserved ran
  -- The second walk reads the program as the first one has left it.
  obtain ⟨order, listed, -⟩ := sound.extension.supplements_preorder listedBefore
  refine ⟨order, listed, ?_, ?_⟩
  · have ending := walkProgram_ends laid unreserved plain sound tracks sited acyclic listed
      (.start tally)
    cases result : indexCompanions.walkProgram ⟨resolved.program, .start tally⟩ with
    | ok answer final => exact .inl ⟨final, rfl⟩
    | error halt final =>
        rw [result] at ending
        cases ending with
        | failed reason =>
            obtain ⟨ref, member, domain, rfl, strands⟩ := reason
            exact .inr ⟨ref, member, domain, final, rfl, strands⟩
  · intro ref member domain companion strands owns final finished
    simp only [Traversal.walkProgram, bind_eq_ok_iff, Walk.ask_eq_ok_iff] at finished
    obtain ⟨again, _, ⟨isAgain, rfl⟩, walked⟩ := finished
    cases Except.ok.inj (listed.symm.trans isAgain)
    obtain ⟨_, _, _, -, -, -, -, stranded⟩ := id strands
    exact (completesAll_of_forM walked).avoids intact unreserved (tracks.domainsPlain plain)
      stranded (tracks.completing laid sound plain) owns ref member strands

def forwardDomainCalls : List Call :=
  [.addModule, .addExpression (.literal 1), .addType (.index ⟨0⟩),
    .addType (.domain 1 none (some ⟨7⟩)), .declareVar ⟨1⟩ "E" ⟨8⟩, .addExpression (.reference ⟨7⟩),
    .addExpression (.iteration [⟨1⟩]), .addType (.array ⟨1⟩ ⟨2⟩ none), .declareVar ⟨0⟩ "a" ⟨9⟩]

/-- The domain of the array has its declaration by the time that companions are settled. -/
theorem indexCompanions_ends_of_forward_domain :
    ∃ source resolved final, layOut forwardDomainCalls = .ok source ∧
      (variableTypes .silent).walkProgram ⟨source, { journal := () }⟩ = .ok () resolved ∧
      indexCompanions.walkProgram ⟨resolved.program, .start resolved.own.tally⟩ = .ok () final := by
  obtain ⟨source, isBuilt, unreserved, plain, resolved, isResolved, named⟩ :
    ∃ source ∈ (layOut forwardDomainCalls).toOption,
      source.Unreserved ∧ source.DomainsPlain ∧
      ∃ resolved ∈ finished? ((variableTypes .silent).walkProgram ⟨source, { journal := () }⟩),
        ∀ type node, resolved.program.types.get? type = some node → node.form.shape = .domain →
          node.symbol ≠ none := by
    decide +kernel
  have built := Except.toOption_eq_some_iff.mp isBuilt
  have ran := finished?_eq_some_iff.mp isResolved
  obtain ⟨order, -, ends, -⟩ := indexCompanions_ends built unreserved plain ran resolved.own.tally
  rcases ends with ⟨final, finished⟩ | ⟨_, -, domain, _, -, strands⟩
  · exact ⟨source, resolved, final, built, ran, finished⟩
  · obtain ⟨_, _, _, -, -, -, -, rank, parent, companion, subject, stored, -⟩ := strands
    exact absurd rfl (named domain _ stored rfl)

def droppedDomainCalls : List Call :=
  [.addModule, .addExpression (.literal 1), .addType (.index ⟨0⟩),
    .addType (.domain 1 none (some ⟨7⟩)), .declareVar ⟨0⟩ "D" ⟨8⟩, .addExpression (.literal 1),
    .addType (.index ⟨1⟩), .addType (.domain 1 none (some ⟨9⟩)), .declareVar ⟨1⟩ "E" ⟨10⟩,
    .addExpression (.reference ⟨8⟩), .addExpression (.iteration [⟨2⟩]),
    .addType (.array ⟨1⟩ ⟨3⟩ none), .declareVar ⟨0⟩ "a" ⟨11⟩]

/-- The variables have canonical types, but the array has kept the domain that was dropped, and
settling companions fails for it. -/
theorem exists_domain_stranded :
    ∃ source resolved ref final, layOut droppedDomainCalls = .ok source ∧ source.DomainsPlain ∧
      (∀ text ∈ source.boundNames, ¬Underscored text) ∧
      (variableTypes .silent).walkProgram ⟨source, { journal := () }⟩ = .ok () resolved ∧
      indexCompanions.walkProgram ⟨resolved.program, .start resolved.own.tally⟩ =
        .error (.failed ⟨ref, .unsupported .anonymousDomain⟩) final := by
  obtain ⟨source, isBuilt, plain, plainly, resolved, isResolved, ⟨⟨ref, cause⟩, final⟩, fails,
      isCause⟩ :
    ∃ source ∈ (layOut droppedDomainCalls).toOption, source.DomainsPlain ∧
      (∀ text ∈ source.boundNames, ¬Underscored text) ∧
      ∃ resolved ∈ finished? ((variableTypes .silent).walkProgram ⟨source, { journal := () }⟩),
        ∃ ran ∈ failed?
            (indexCompanions.walkProgram ⟨resolved.program, .start resolved.own.tally⟩),
          ran.1.cause = .unsupported .anonymousDomain := by
    decide +kernel
  cases isCause
  exact ⟨source, resolved, ref, final, Except.toOption_eq_some_iff.mp isBuilt, plain, plainly,
    finished?_eq_some_iff.mp isResolved, failed?_eq_some_iff.mp fails⟩

end StructuralTypes
