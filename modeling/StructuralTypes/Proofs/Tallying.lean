import Mathlib.Data.Set.Card
import StructuralTypes.Proofs.CompanionSteps
import StructuralTypes.Proofs.Materialization

/-! What the counts of a run stand for. Each of them is bumped in one place, while what they count
grows in the symbols, the statements and the scopes of the program; after every entry in the books,
and so however a run ends, they agree. -/

namespace StructuralTypes

namespace Tally

def count (tally : Tally) : Shape → Nat
  | .array => tally.arrays
  | .domain => tally.domains
  | .tuple => tally.tuples
  | .sequence => tally.sequences
  | .index => tally.indices
  | .primitive | .nominal => 0

def settled (tally : Tally) : Nat :=
  tally.created + tally.reused

theorem count_countCreated {shape : Shape} (tally : Tally)
    (structural : shape ≠ .primitive ∧ shape ≠ .nominal) (other : Shape) :
    (tally.countCreated shape).count other =
      tally.count other + if shape = other then 1 else 0 := by
  cases shape <;> cases other <;> simp_all [countCreated, count]

theorem reused_countCreated (tally : Tally) (shape : Shape) :
    (tally.countCreated shape).reused = tally.reused := by
  cases shape <;> rfl

theorem settled_countCreated {shape : Shape} (tally : Tally)
    (structural : shape ≠ .primitive ∧ shape ≠ .nominal) :
    (tally.countCreated shape).settled = tally.settled + 1 := by
  rw [settled, created_countCreated tally structural, reused_countCreated, settled]
  omega

end Tally

theorem TypeForm.structural_iff {form : TypeForm} :
    ¬form.Scalar ↔ form.shape ≠ .primitive ∧ form.shape ≠ .nominal := by
  simp [TypeForm.Scalar, not_or]

namespace Program

variable {source before current after : Program}

def newBindings (source current : Program) : Set (ScopeRef × NameRef) :=
  { place | (∃ symbol, current.Binds place.1 place.2 symbol) ∧
      ¬∃ symbol, source.Binds place.1 place.2 symbol }

/-- `current` has, beyond `source`, just the declarations that are counted. -/
structure Tallied (source current : Program) (tally : Tally) : Prop where
  shapes : ∀ shape, tally.count shape =
    (source.addedTypes current).countP fun type => current.shape? type = some shape
  symbols : current.symbols.size = source.symbols.size + tally.created
  statements : current.layout.statements.size = source.layout.statements.size + tally.created
  bindings : (source.newBindings current).encard = tally.created
  kept : ∀ scope name symbol, source.Binds scope name symbol → current.Binds scope name symbol

theorem tallied_refl (source : Program) : source.Tallied source {} where
  shapes shape := by
    rw [addedTypes_of_size_eq rfl]
    cases shape <;> rfl
  symbols := rfl
  statements := rfl
  bindings := by
    have nothing : source.newBindings source = ∅ := Set.eq_empty_of_forall_notMem
      fun _ isNew => isNew.2 isNew.1
    rw [nothing, Set.encard_empty]
    rfl
  kept _ _ _ binds := binds

theorem Tallied.revises {tally : Tally} (tallied : source.Tallied before tally)
    (layered : source.Layered before) (revises : before.Revises after)
    (shapes : after.shape? = before.shape?) : source.Tallied after tally where
  shapes shape := by
    rw [layered.addedTypes_revises revises, shapes]
    exact tallied.shapes shape
  symbols := by
    cases revises with
    | intern | reform => exact tallied.symbols
    | retype _ _ modified => exact (Arena.size_of_modify modified).trans tallied.symbols
  statements := by
    cases revises <;> exact tallied.statements
  bindings := by
    cases revises <;> exact tallied.bindings
  kept := by
    cases revises <;> exact tallied.kept

section

variable {scope : ScopeRef} {text : String} {fresh : TypeRef} {finish : TypeForm → TypeForm}
  {position : Position} (introduces : before.Introduces scope text fresh finish position after)
  (free : before.Free scope (before.names.intern text).1)
  (kept : ∀ scope name symbol, source.Binds scope name symbol → before.Binds scope name symbol)
include introduces free

theorem Introduces.binds_kept_of_free {other : ScopeRef} {name : NameRef} {symbol : SymbolRef}
    (binds : before.Binds other name symbol) : after.Binds other name symbol := by
  rw [introduces.binds_iff, if_neg]
  · exact binds
  · rintro ⟨rfl, rfl⟩
    exact free.not_binds symbol binds

include kept

theorem Introduces.newBindings_eq :
    source.newBindings after =
      insert (scope, (before.names.intern text).1) (source.newBindings before) := by
  ext ⟨other, name⟩
  rw [Set.mem_insert_iff, Prod.mk.injEq]
  by_cases here : other = scope ∧ name = (before.names.intern text).1
  · rcases here with ⟨rfl, rfl⟩
    have unbound : ¬∃ symbol, source.Binds other (before.names.intern text).1 symbol :=
      fun ⟨symbol, binds⟩ => free.not_binds symbol (kept _ _ _ binds)
    simp only [and_self, true_or, iff_true]
    exact ⟨⟨_, introduces.new_bound⟩, unbound⟩
  · have elsewhere : ¬(scope = other ∧ (before.names.intern text).1 = name) :=
      fun same => here ⟨same.1.symm, same.2.symm⟩
    simp only [here, false_or, newBindings, Set.mem_ofPred_eq, introduces.binds_iff,
      if_neg elsewhere]

theorem Introduces.encard_newBindings :
    (source.newBindings after).encard = (source.newBindings before).encard + 1 := by
  rw [introduces.newBindings_eq free kept]
  refine Set.encard_insert_of_notMem fun isNew => ?_
  obtain ⟨symbol, binds⟩ := isNew.1
  exact free.not_binds symbol binds

end

end Program

/-! ## The books agree with the program -/

/-- What a run from `source` has entered is counted. -/
structure Counted {τ : Type} (source : Program) (current : Walker (Progress τ)) : Prop where
  layered : source.Layered current.program
  tallied : source.Tallied current.program current.own.tally

section

variable {τ : Type} {note : Program → TypeRef → τ → τ} {source : Program}

theorem counted_start (source : Program) (journal : τ) :
    Counted source ⟨source, { journal }⟩ where
  layered := Program.layered_refl source
  tallied := Program.tallied_refl source

theorem Counted.entry {before after : Walker (Progress τ)} (counted : Counted source before)
    (entry : Entry note before after) : Counted source after := by
  have shapes := Program.shape?_of_entry entry
  refine ⟨counted.layered.entry entry, ?_⟩
  cases entry with
  | revise revises => exact counted.tallied.revises counted.layered revises shapes
  | reuse => exact { counted.tallied with }
  | @declare scope text fresh form position program stored structural _ free introduces =>
      have created := Tally.created_countCreated before.own.tally
        (TypeForm.structural_iff.mp structural)
      have shaped : program.shape? fresh = some form.shape := by
        rw [shapes, Program.shape?, stored]
        rfl
      obtain ⟨body, statements⟩ := introduces.new_statement
      refine ⟨fun shape => ?_, ?_, ?_, ?_, ?_⟩
      · rw [Progress.declared, Tally.count_countCreated _ (TypeForm.structural_iff.mp structural),
          Program.addedTypes_introduces counted.layered.size introduces, List.countP_append,
          counted.tallied.shapes shape, ← shapes]
        congr 1
        simp [List.countP_cons, shaped]
      · rw [Progress.declared, created, introduces.symbols, Arena.size_push,
          counted.tallied.symbols, Nat.add_assoc]
      · rw [Progress.declared, created, statements, Arena.size_push, counted.tallied.statements,
          Nat.add_assoc]
      · rw [Progress.declared, created, introduces.encard_newBindings free counted.tallied.kept,
          counted.tallied.bindings]
        rfl
      · intro scope name symbol binds
        exact introduces.binds_kept_of_free free (counted.tallied.kept _ _ _ binds)

theorem counted_of_books {before after : Walker (Progress τ)} (counted : Counted source before)
    (books : Books note before after) : Counted source after := by
  induction books with
  | refl => exact counted
  | tail _ entry induction => exact induction.entry entry

/-! ## Settling companions is entered -/

theorem TypeForm.element?_withCompanion (companion : TypeRef) (form : TypeForm) :
    (form.withCompanion companion).element? = form.element? := by
  cases form <;> rfl

theorem TypeForm.eq_index_of_shape {form : TypeForm} (shaped : form.shape = .index) :
    ∃ subject, form = .index subject := by
  cases form with
  | index subject => exact ⟨subject, rfl⟩
  | _ => cases shaped

theorem Canon.leads_settleCompanion (type companion : TypeRef) (before : Session τ) :
    Leads (Entered note) (settleCompanion type companion) before := by
  refine (leads_ask _).bind fun shape _ shaped => (leads_ask _).bind fun holder before held => ?_
  obtain ⟨⟨node, stored, rfl⟩, rfl⟩ :=
    (ask_eq_ok_iff.mp shaped).imp_left Program.shape_eq_ok_iff.mp
  obtain ⟨⟨form, found⟩, rfl⟩ := (ask_eq_ok_iff.mp held).imp_left Program.typeSymbol?_eq_ok_iff.mp
  cases Option.mem_unique stored found
  split
  · exact leads_pure _
  · rename_i isIndex
    refine (leads_ask _).bind fun name middle asked => ?_
    obtain ⟨-, rfl⟩ := ask_eq_ok_iff.mp asked
    cases name with
    | none => exact leads_fail _
    | some name =>
        refine Leads.bind (leads_inScope (leads_get.bind fun session middle got => ?_))
          fun settled _ _ => leads_changeForm (by simp) fun _ _ _ =>
            TypeForm.element?_withCompanion _ _
        obtain ⟨rfl, rfl⟩ := get_eq_ok_iff.mp got
        obtain ⟨subject, rfl⟩ := TypeForm.eq_index_of_shape isIndex
        refine leads_settle stored ?_ ?_ ?_ <;>
          simp [TypeForm.Scalar, TypeForm.shape, TypeForm.element?]
  · exact leads_fail _

abbrev CompanionWalk.shared (walker : Walker CompanionWalk) : Walker (Progress Unit) :=
  walker.seen CompanionWalk.toProgress

end

abbrev CompanionBooks : Walker CompanionWalk → Walker CompanionWalk → Prop :=
  Function.onFun (Books fun _ _ journal => journal) CompanionWalk.shared

theorem leads_indexCompanions : indexCompanions.Leads CompanionBooks where
  enter _ _ := (Walk.leads_ask _).bind fun _ _ _ => Walk.leads_update Relation.ReflTransGen.refl
  leave _ before := show Leads CompanionBooks (CompanionWalk.setCurrent none) before from
    Walk.leads_update Relation.ReflTransGen.refl
  visit type before := by
    refine leads_get.bind fun walker middle got => ?_
    obtain ⟨rfl, rfl⟩ := get_eq_ok_iff.mp got
    split
    · exact leads_pure _
    · refine (Walk.leads_ask _).bind fun form middle asked => ?_
      split
      · intro after ends
        obtain ⟨inner, within, rfl⟩ := Walk.ends_focus ends
        exact Walk.leads_within (Canon.leads_settleCompanion _ _ _) inner within
      · exact leads_pure _

section

variable {τ : Type} {source : Program} {course : Course}

theorem counted_of_variableTypes (note : Program → TypeRef → τ → τ) {journal : τ}
    {resolved : Walker (Progress τ)}
    (ends : Ends ((variableTypes (.noting note)).walk course ⟨source, { journal }⟩) resolved) :
    Counted source resolved :=
  counted_of_books (counted_start source journal)
    ((leads_variableTypes note).walk course _ resolved ends)

theorem Counted.indexCompanions {resolved : Walker (Progress τ)} (counted : Counted source resolved)
    {final : Walker CompanionWalk}
    (ends : Ends (indexCompanions.walk course
      ⟨resolved.program, .start resolved.own.tally⟩) final) :
    Counted source (CompanionWalk.shared final) := by
  have books := leads_indexCompanions.walk course _ final ends
  have start : Counted source (CompanionWalk.shared ⟨resolved.program,
    .start resolved.own.tally⟩) := ⟨counted.layered, counted.tallied⟩
  exact counted_of_books start books

end

end StructuralTypes
