import StructuralTypes.Proofs.Ledger
import StructuralTypes.Proofs.Naming

/-! What the hook of a walk over the variables hears of. It is called once for each sequence type
that gets a declaration, in the order of the declarations, so elements come before what is built
over them; and a call finds the declaration in place. -/

namespace StructuralTypes

namespace Arena

variable {entity : Entity} {α : Type} {arena changed : Arena entity α} {count : Nat}

theorem drop_push (entry : α) (older : count ≤ arena.size) :
    (arena.push entry).entries.toList.drop count = arena.entries.toList.drop count ++ [entry] := by
  rw [push, Array.toList_push, List.drop_append_of_le_length (by rwa [Array.length_toList])]

theorem drop_of_modify {target : Ref entity} {change : α → α}
    (modified : arena.modify target change = .ok changed) (older : target.index < count) :
    changed.entries.toList.drop count = arena.entries.toList.drop count := by
  unfold modify at modified
  split at modified
  · cases modified
    rw [Array.toList_set, List.drop_set_of_lt older]
  · cases modified

theorem getElem?_drop (index : Nat) :
    (arena.entries.toList.drop count)[index]? = arena.get? ⟨count + index⟩ := by
  rw [List.getElem?_drop, Array.getElem?_toList, get?]

end Arena

namespace Program

variable {source before after current : Program} {τ : Type}

def shape? (program : Program) (type : TypeRef) : Option Shape :=
  (program.types.get? type).map fun node => node.form.shape

/-- Types of the symbols that `current` has beyond those of `source`, in the order in which they
were added. -/
def addedTypes (source current : Program) : List TypeRef :=
  (current.symbols.entries.toList.drop source.symbols.size).map Symbol.type

def addedSequences (source current : Program) : List TypeRef :=
  (addedTypes source current).filter fun type => current.shape? type = some .sequence

/-- `outer` is built over the element `inner`, and both were declared since `source`. -/
def AddedOver (source current : Program) (outer inner : TypeRef) : Prop :=
  outer ∈ addedTypes source current ∧ inner ∈ addedTypes source current ∧
    ∃ form symbol, current.types.get? outer = some { form, symbol } ∧ form.element? = some inner

def Announces (program : Program) (type : TypeRef) : Prop :=
  ∃ element ref symbol text declaration body,
    program.types.get? type = some { form := .sequence element, symbol := some ref } ∧
    program.symbols.get? ref = some symbol ∧ symbol.type = type ∧
    program.names.get? symbol.name = some text ∧
    program.Binds symbol.scope symbol.name ref ∧
    symbol.definition = .statement declaration ∧
    program.layout.statements.get? declaration =
      some { statement := .synthesizedType ref, body := some body }

/-! ## What has been declared since the start -/

/-- Each symbol that was added declares its type, whose element has an older symbol. -/
structure Layered (source current : Program) : Prop where
  size : source.symbols.size ≤ current.symbols.size
  declared : ∀ ref symbol, source.symbols.get? ref = none →
    current.symbols.get? ref = some symbol → ∃ form,
      current.types.get? symbol.type = some { form, symbol := some ref } ∧ ¬form.Scalar ∧
      ∀ element, form.element? = some element → ∃ inner holder,
        current.types.get? element = some { form := inner, symbol := some holder } ∧
        holder.index < ref.index

theorem layered_refl (source : Program) : Layered source source where
  size := le_refl _
  declared _ _ isNew stored := by
    rw [isNew] at stored
    contradiction

theorem Layered.revises (layered : Layered source before) (revises : before.Revises after) :
    Layered source after := by
  cases revises with
  | intern => exact ⟨layered.size, layered.declared⟩
  | @reform type change types shaped kept modified =>
      have named : ∀ other form ref, before.types.get? other = some { form, symbol := some ref } →
          ∃ later, types.get? other = some { form := later, symbol := some ref } ∧
            later.shape = form.shape ∧ later.element? = form.element? := by
        intro other form ref stored
        rw [Arena.get?_of_modify modified, stored]
        split
        · rename_i same
          subst same
          exact ⟨_, rfl, shaped form, kept form ref stored⟩
        · exact ⟨form, rfl, rfl, rfl⟩
      refine ⟨layered.size, fun ref symbol isNew stored => ?_⟩
      obtain ⟨form, declares, structural, elements⟩ := layered.declared ref symbol isNew stored
      obtain ⟨later, found, sameShape, sameElement⟩ := named _ _ _ declares
      refine ⟨later, found, by rwa [TypeForm.Scalar, sameShape], fun element isElement => ?_⟩
      obtain ⟨inner, holder, innerStored, older⟩ := elements element (sameElement ▸ isElement)
      obtain ⟨innerLater, innerFound, -⟩ := named _ _ _ innerStored
      exact ⟨innerLater, holder, innerFound, older⟩
  | @retype var symbol type symbols stored free modified =>
      refine ⟨layered.size.trans (Arena.size_of_modify modified).ge, ?_⟩
      intro ref other isNew found
      refine layered.declared ref other isNew ?_
      rwa [← Arena.get?_of_modify_of_ne modified]
      rintro rfl
      obtain ⟨form, declares, structural, -⟩ := layered.declared var symbol isNew stored
      exact structural (free form declares)

theorem Layered.introduces (layered : Layered source before) {scope : ScopeRef} {text : String}
    {fresh : TypeRef} {form : TypeForm} {position : Position}
    (stored : before.types.get? fresh = some { form, symbol := none }) (structural : ¬form.Scalar)
    (owned : ∀ element, form.element? = some element → before.Owned element)
    (introduces : before.Introduces scope text fresh id position after) : Layered source after := by
  have named : ∀ other inner ref,
      before.types.get? other = some { form := inner, symbol := some ref } →
      after.types.get? other = some { form := inner, symbol := some ref } := by
    intro other inner ref found
    rw [introduces.type_other, found]
    rintro rfl
    cases stored.symm.trans found
  refine ⟨?_, fun ref symbol isNew found => ?_⟩
  · rw [introduces.symbols, Arena.size_push]
    exact layered.size.trans (Nat.le_succ _)
  · rw [introduces.symbols] at found
    rcases Arena.eq_next_or_get?_of_push found with ⟨rfl, rfl⟩ | old
    · refine ⟨form, introduces.type_same stored, structural, fun element isElement => ?_⟩
      obtain ⟨inner, holder, _, innerStored, symbolStored⟩ := owned element isElement
      exact ⟨inner, holder, named _ _ _ innerStored, Arena.lt_size_of_get? symbolStored⟩
    · obtain ⟨inner, declares, other, elements⟩ := layered.declared ref symbol isNew old
      refine ⟨inner, named _ _ _ declares, other, fun element isElement => ?_⟩
      obtain ⟨part, holder, partStored, older⟩ := elements element isElement
      exact ⟨part, holder, named _ _ _ partStored, older⟩

section

variable {note : Program → TypeRef → τ → τ} {before after : Walker (Progress τ)}

theorem Layered.entry (layered : Layered source before.program) (entry : Entry note before after) :
    Layered source after.program := by
  cases entry with
  | revise revises => exact layered.revises revises
  | reuse => exact layered
  | declare stored structural owned _ introduces =>
      exact layered.introduces stored structural owned introduces

theorem shape?_of_entry (entry : Entry note before after) :
    after.program.shape? = before.program.shape? := by
  funext type
  cases entry with
  | revise revises =>
      cases revises with
      | intern | retype => rfl
      | reform shaped _ modified =>
          simp only [shape?, Arena.get?_of_modify modified]
          split
          · cases before.program.types.get? type <;> simp [shaped]
          · rfl
  | reuse => rfl
  | declare _ _ _ _ introduces =>
      simp only [shape?, Arena.get?_of_modify introduces.types]
      split
      · cases before.program.types.get? type <;> rfl
      · rfl

end

/-! ## The order of declarations -/

theorem addedTypes_of_size_eq (same : current.symbols.size = source.symbols.size) :
    addedTypes source current = [] := by
  rw [addedTypes, List.drop_eq_nil_of_le (by rw [Array.length_toList]; exact same.le)]
  rfl

theorem addedTypes_introduces (older : source.symbols.size ≤ before.symbols.size) {scope : ScopeRef}
    {text : String} {fresh : TypeRef} {finish : TypeForm → TypeForm} {position : Position}
    (introduces : before.Introduces scope text fresh finish position after) :
    addedTypes source after = addedTypes source before ++ [fresh] := by
  rw [addedTypes, introduces.symbols, Arena.drop_push _ older, List.map_append]
  rfl

theorem Layered.addedTypes_revises (layered : Layered source before)
    (revises : before.Revises after) : addedTypes source after = addedTypes source before := by
  cases revises with
  | intern | reform => rfl
  | @retype var symbol type symbols stored free modified =>
      have older : var.index < source.symbols.size := by
        by_contra isNew
        obtain ⟨form, declares, structural, -⟩ :=
          layered.declared var symbol (get?_eq_none_iff.mpr isNew) stored
        exact structural (free form declares)
      rw [addedTypes, Arena.drop_of_modify modified older]
      rfl

theorem Layered.getElem?_addedTypes (layered : Layered source current) {index : Nat}
    {type : TypeRef} (found : (addedTypes source current)[index]? = some type) : ∃ form,
      current.types.get? type =
        some { form, symbol := some ⟨source.symbols.size + index⟩ } ∧
      ∀ element, form.element? = some element → ∃ inner holder,
        current.types.get? element = some { form := inner, symbol := some holder } ∧
        holder.index < source.symbols.size + index := by
  rw [addedTypes, List.getElem?_map, Arena.getElem?_drop, Option.map_eq_some_iff] at found
  obtain ⟨symbol, stored, rfl⟩ := found
  obtain ⟨form, declares, -, elements⟩ := layered.declared _ symbol
    (get?_eq_none_iff.mpr (by simp)) stored
  exact ⟨form, declares, elements⟩

theorem Layered.index_unique (layered : Layered source current) {first second : Nat}
    {type : TypeRef} (left : (addedTypes source current)[first]? = some type)
    (right : (addedTypes source current)[second]? = some type) : first = second := by
  obtain ⟨_, leftStored, -⟩ := layered.getElem?_addedTypes left
  obtain ⟨_, rightStored, -⟩ := layered.getElem?_addedTypes right
  obtain ⟨-, same⟩ := node_unique leftStored rightStored
  simpa using same

theorem Layered.nodup (layered : Layered source current) : (addedTypes source current).Nodup := by
  refine List.nodup_iff_injective_getElem.mpr fun first second same => Fin.ext ?_
  exact layered.index_unique (List.getElem?_eq_getElem first.isLt)
    ((List.getElem?_eq_getElem second.isLt).trans (congrArg some same.symm))

theorem AddedOver.index_lt (layered : Layered source current) {outer inner : TypeRef}
    (built : AddedOver source current outer inner) {first second : Nat}
    (isInner : (addedTypes source current)[first]? = some inner)
    (isOuter : (addedTypes source current)[second]? = some outer) : first < second := by
  obtain ⟨-, -, form, symbol, stored, isElement⟩ := built
  obtain ⟨_, outerStored, elements⟩ := layered.getElem?_addedTypes isOuter
  obtain ⟨_, innerStored, -⟩ := layered.getElem?_addedTypes isInner
  obtain ⟨rfl, -⟩ := node_unique stored outerStored
  obtain ⟨_, holder, holderStored, older⟩ := elements inner isElement
  obtain ⟨-, same⟩ := node_unique holderStored innerStored
  cases same
  exact Nat.lt_of_add_lt_add_left older

theorem Layered.index_lt (layered : Layered source current) {outer inner : TypeRef}
    (built : Relation.TransGen (AddedOver source current) outer inner) {first second : Nat}
    (isInner : (addedTypes source current)[first]? = some inner)
    (isOuter : (addedTypes source current)[second]? = some outer) : first < second := by
  induction built generalizing first with
  | single built => exact built.index_lt layered isInner isOuter
  | tail _ built induction =>
      obtain ⟨index, isMiddle⟩ := List.getElem?_of_mem built.1
      exact (built.index_lt layered isInner isMiddle).trans (induction isMiddle)

theorem Layered.sublist (layered : Layered source current) {outer inner : TypeRef}
    (outerAdded : outer ∈ addedSequences source current)
    (innerAdded : inner ∈ addedSequences source current)
    (built : Relation.TransGen (AddedOver source current) outer inner) :
    [inner, outer].Sublist (addedSequences source current) := by
  obtain ⟨outerMember, outerShape⟩ := List.mem_filter.mp outerAdded
  obtain ⟨innerMember, innerShape⟩ := List.mem_filter.mp innerAdded
  obtain ⟨first, isInner⟩ := List.getElem?_of_mem innerMember
  obtain ⟨second, isOuter⟩ := List.getElem?_of_mem outerMember
  have before := layered.index_lt built isInner isOuter
  have ordered : [inner, outer].Sublist (addedTypes source current) := by
    rw [← List.take_append_drop second (addedTypes source current)]
    refine (List.singleton_sublist.mpr ?_).append (List.singleton_sublist.mpr ?_)
    · exact List.mem_of_getElem? ((List.getElem?_take_of_lt before).trans isInner)
    · exact List.mem_of_getElem? (i := 0) (by rw [List.getElem?_drop]; exact isOuter)
  have kept := ordered.filter fun type => current.shape? type = some .sequence
  rw [addedSequences]
  simpa only [List.filter_cons, outerShape, innerShape, List.filter_nil, if_true] using kept

end Program

/-! ## Calls -/

/-- What the books of a run from `source` say: the journal has the sequences declared since then,
and the tally counts them. -/
structure Booked (source : Program) (current : Walker (Progress (List TypeRef))) : Prop where
  layered : source.Layered current.program
  journal : current.own.journal = source.addedSequences current.program
  counted : current.own.tally.sequences = current.own.journal.length

theorem booked_start (source : Program) : Booked source ⟨source, { journal := [] }⟩ where
  layered := Program.layered_refl source
  journal := by
    rw [Program.addedSequences, Program.addedTypes_of_size_eq rfl]
    rfl
  counted := rfl

theorem sequences_countCreated (tally : Tally) (shape : Shape) :
    (tally.countCreated shape).sequences =
      tally.sequences + if shape = .sequence then 1 else 0 := by
  cases shape <;> rfl

theorem Booked.entry {source : Program} {before after : Walker (Progress (List TypeRef))}
    (booked : Booked source before)
    (entry : Entry (fun _ type calls => calls ++ [type]) before after) : Booked source after := by
  have shapes := Program.shape?_of_entry entry
  have layered := booked.layered.entry entry
  cases entry with
  | revise revises =>
      refine ⟨layered, ?_, booked.counted⟩
      rw [Program.addedSequences, booked.layered.addedTypes_revises revises, shapes]
      exact booked.journal
  | reuse => exact ⟨layered, booked.journal, booked.counted⟩
  | @declare scope text fresh form position program stored _ _ _ introduces =>
      have shaped : program.shape? fresh = some form.shape := by
        rw [shapes, Program.shape?, stored]
        rfl
      have sequences : source.addedSequences program = source.addedSequences before.program ++
          if form.shape = .sequence then [fresh] else [] := by
        rw [Program.addedSequences, Program.addedTypes_introduces booked.layered.size introduces,
          List.filter_append, Program.addedSequences, ← shapes]
        congr 1
        simp [List.filter_cons, shaped]
      refine ⟨layered, ?_, ?_⟩
      · simp only [Progress.declared, sequences, booked.journal]
        split <;> simp
      · simp only [Progress.declared, sequences_countCreated, booked.counted]
        split <;> simp

theorem booked_of_books {source : Program} {final : Walker (Progress (List TypeRef))}
    (books : Books (fun _ type calls => calls ++ [type]) ⟨source, { journal := [] }⟩ final) :
    Booked source final := by
  induction books with
  | refl => exact booked_start source
  | tail _ entry induction => exact induction.entry entry

theorem TypeForm.eq_sequence_of_shape {form : TypeForm} (shaped : form.shape = .sequence) :
    ∃ element, form = .sequence element := by
  cases form with
  | sequence element => exact ⟨element, rfl⟩
  | _ => cases shaped

theorem Program.Introduces.announces {before after : Program} {scope : ScopeRef} {text : String}
    {fresh : TypeRef} {form : TypeForm} {position : Position}
    (introduces : before.Introduces scope text fresh id position after)
    (stored : before.types.get? fresh = some { form, symbol := none })
    (shaped : form.shape = .sequence) : after.Announces fresh := by
  obtain ⟨body, statements⟩ := introduces.new_statement
  obtain ⟨element, rfl⟩ := TypeForm.eq_sequence_of_shape shaped
  refine ⟨_, _, _, text, _, body, introduces.type_same stored, introduces.new_symbol, rfl,
    introduces.new_name, ?_, rfl, ?_⟩
  · rw [introduces.binds_iff, if_pos ⟨rfl, rfl⟩]
  · rw [statements]
    exact Arena.get?_push_next ..

theorem Entry.announces {before after : Walker (Progress (List (TypeRef × Program)))}
    (entry : Entry (fun program type calls => calls ++ [(type, program)]) before after)
    (announced : ∀ call ∈ before.own.journal, call.2.Announces call.1) :
    ∀ call ∈ after.own.journal, call.2.Announces call.1 := by
  cases entry with
  | revise | reuse => exact announced
  | declare stored _ _ _ introduces =>
      intro call member
      simp only [Progress.declared] at member
      split at member
      · rename_i shaped
        rcases List.mem_append.mp member with old | new
        · exact announced call old
        · cases List.mem_singleton.mp new
          exact introduces.announces stored shaped
      · exact announced call member

theorem announced_of_books {source : Program} {final : Walker (Progress (List (TypeRef × Program)))}
    (books : Books (fun program type calls => calls ++ [(type, program)])
      ⟨source, { journal := [] }⟩ final) :
    ∀ call ∈ final.own.journal, call.2.Announces call.1 := by
  induction books with
  | refl => exact List.forall_mem_nil _
  | tail _ entry induction => exact entry.announces induction

/-- However a walk over the variables ends, its hook has heard of each sequence type that the walk
declared, once and in the order of the declarations. A walk that journals the program with each call
does the same, and each of its programs has the declaration in place. -/
theorem variableTypes_materializes_once {source : Program} {course : Course}
    {final : Walker (Progress (List TypeRef))}
    (ends : Ends ((variableTypes .recording).walk course ⟨source, { journal := [] }⟩) final) :
    final.own.journal = source.addedSequences final.program ∧ final.own.journal.Nodup ∧
      final.own.tally.sequences = final.own.journal.length ∧
      (∃ witness,
        Ends ((variableTypes .witnessing).walk course ⟨source, { journal := [] }⟩) witness ∧
        witness.seen (Progress.seen (List.map Prod.fst)) = final ∧
        ∀ call ∈ witness.own.journal, call.2.Announces call.1) ∧
      ∀ outer ∈ final.own.journal, ∀ inner ∈ final.own.journal,
        Relation.TransGen (source.AddedOver final.program) outer inner →
          [inner, outer].Sublist final.own.journal := by
  have noted := ends
  rw [SequenceHook.recording_eq_noting] at noted
  have booked := booked_of_books ((leads_variableTypes _).walk course _ final noted)
  refine ⟨booked.journal, ?_, booked.counted, ?_, ?_⟩
  · rw [booked.journal]
    exact booked.layered.nodup.filter _
  · have mirrors :=
      (mirrors_variableTypes SequenceHook.witnessing_mirrors_recording).walk course
    obtain ⟨witness, witnessed, same⟩ : ∃ witness,
        Ends ((variableTypes .witnessing).walk course ⟨source, { journal := [] }⟩) witness ∧
          witness.seen (Progress.seen (List.map Prod.fst)) = final :=
      mirrors.exists_of_ends ends
    have books := (leads_variableTypes fun program type calls => calls ++ [(type, program)]).walk
      course _ witness witnessed
    exact ⟨witness, witnessed, same, announced_of_books books⟩
  · rw [booked.journal]
    exact fun _ outerAdded _ innerAdded built => booked.layered.sublist outerAdded innerAdded built

def nestedSequenceCalls : List Call :=
  [.addModule, .addType (.sequence ⟨1⟩), .addType (.sequence ⟨7⟩), .declareVar ⟨1⟩ "s" ⟨8⟩,
    .addType (.sequence ⟨2⟩), .addType (.tuple [⟨9⟩]), .declareVar ⟨1⟩ "t" ⟨10⟩]

/-- The walk fails at the tuple, after the inner and then the outer sequence were declared. -/
theorem variableTypes_materializes_inner_first :
    ∃ (source : Program) (failure : Failure) (final : Walker (Progress (List TypeRef))),
      layOut nestedSequenceCalls = .ok source ∧
      (variableTypes .recording).walk .program ⟨source, { journal := [] }⟩ =
        .error (.failed failure) final ∧
      source.addedSequences final.program = [⟨7⟩, ⟨8⟩] ∧ final.own.tally.sequences = 2 := by
  obtain ⟨source, isBuilt, ⟨failure, final⟩, isFailed, journal⟩ :
    ∃ source ∈ (layOut nestedSequenceCalls).toOption,
      ∃ final ∈ failed? ((variableTypes .recording).walk .program ⟨source, { journal := [] }⟩),
        final.2.own.journal = [⟨7⟩, ⟨8⟩] := by
    decide +kernel
  have ran := failed?_eq_some_iff.mp isFailed
  obtain ⟨calls, -, counted, -⟩ := variableTypes_materializes_once (.inr ⟨failure, ran⟩)
  refine ⟨source, failure, final, Except.toOption_eq_some_iff.mp isBuilt, ran, ?_, ?_⟩
  · rw [← calls]
    exact journal
  · rw [counted, journal]
    rfl

end StructuralTypes
