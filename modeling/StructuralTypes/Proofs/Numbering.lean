import Mathlib.Data.List.Basic
import StructuralTypes.Interner
import StructuralTypes.Proofs.Storage

/-! Interning any strings, one after the other. The map of an interner leads to where the arena has
a string, so an interner answers as a name table does, and the names are the positions of the
strings in the order in which they first occur. -/

namespace StructuralTypes

def internAll {σ : Type} (intern : σ → String → NameRef × σ) (state : σ) :
    List String → List NameRef × σ
  | [] => ([], state)
  | text :: rest =>
      let (name, next) := intern state text
      let (names, last) := internAll intern next rest
      (name :: names, last)

/-! ## The order of first occurrence -/

namespace NameTable

variable {table : NameTable} {done : List String} {text : String}

/-- The table has the strings of `done`, in the order in which they first occur. -/
def Numbers (table : NameTable) (done : List String) : Prop :=
  table.strings.entries = done.eraseDups.toArray

theorem numbers_empty : empty.Numbers [""] := rfl

theorem eraseDups_concat (done : List String) (text : String) :
    (done ++ [text]).eraseDups =
      if text ∈ done then done.eraseDups else done.eraseDups ++ [text] := by
  rw [List.eraseDups_append]
  by_cases seen : text ∈ done <;> simp [List.removeAll, List.eraseDups_cons, seen]

theorem idxOf_concat_of_mem (seen : text ∈ done) (later : List String) :
    (done ++ later).eraseDups.idxOf text = done.eraseDups.idxOf text := by
  rw [List.eraseDups_append]
  exact List.idxOf_append_of_mem (List.mem_eraseDups.mpr seen)

theorem Numbers.find?_of_mem (numbers : table.Numbers done) (seen : text ∈ done) :
    table.find? text = some ⟨done.eraseDups.idxOf text⟩ := by
  have inside := List.idxOf_lt_length_iff.mpr (List.mem_eraseDups.mpr seen)
  rw [find?, numbers, List.findIdx?_toArray,
    List.findIdx?_eq_some_iff_findIdx_eq.mpr ⟨inside, rfl⟩]
  rfl

theorem Numbers.find?_of_not_mem (numbers : table.Numbers done) (unseen : text ∉ done) :
    table.find? text = none := by
  rw [find?, numbers, List.findIdx?_toArray, Option.map_eq_none_iff, List.findIdx?_eq_none_iff]
  intro stored member
  have occurs := List.mem_eraseDups.mp member
  exact beq_false_of_ne fun same => unseen (same ▸ occurs)

theorem Numbers.intern (numbers : table.Numbers done) (text : String) :
    (table.intern text).1 = ⟨(done ++ [text]).eraseDups.idxOf text⟩ ∧
      (table.intern text).2.Numbers (done ++ [text]) := by
  by_cases seen : text ∈ done
  · rw [intern_of_find? (numbers.find?_of_mem seen), Numbers, eraseDups_concat, if_pos seen]
    exact ⟨rfl, numbers⟩
  · have missing := numbers.find?_of_not_mem seen
    have unlisted : text ∉ done.eraseDups := mt List.mem_eraseDups.mp seen
    simp only [NameTable.intern, missing, Numbers, eraseDups_concat, if_neg seen, Arena.push,
      Arena.next, Arena.size]
    rw [numbers]
    simp [List.idxOf_append, unlisted]

theorem Numbers.all (numbers : table.Numbers done) (texts : List String) :
    (internAll NameTable.intern table texts).1 =
        texts.map (fun text => ⟨(done ++ texts).eraseDups.idxOf text⟩) ∧
      (internAll NameTable.intern table texts).2.Numbers (done ++ texts) := by
  induction texts generalizing table done with
  | nil => simpa [internAll] using numbers
  | cons text rest induction =>
      obtain ⟨isPosition, next⟩ := numbers.intern text
      obtain ⟨positions, last⟩ := induction next
      have assoc : done ++ [text] ++ rest = done ++ text :: rest := by simp
      have kept := idxOf_concat_of_mem (show text ∈ done ++ [text] by simp) rest
      rw [assoc] at positions last kept
      exact ⟨by simp only [internAll, List.map_cons, positions, isPosition, kept], last⟩

theorem Numbers.text_eq_ok_iff (numbers : table.Numbers done) {name : NameRef} :
    table.text name = .ok text ↔ done.eraseDups[name.index]? = some text := by
  rw [NameTable.text_eq_ok_iff, get?, Arena.get?, numbers, List.getElem?_toArray]

theorem Distinct.find?_eq_some_iff (distinct : table.Distinct) {name : NameRef} :
    table.find? text = some name ↔ table.text name = .ok text := by
  rw [NameTable.text_eq_ok_iff]
  constructor
  · exact get?_of_find?
  · intro stored
    cases found : table.find? text with
    | none => exact absurd rfl (ne_of_find?_eq_none found stored)
    | some other => rw [distinct other name text (get?_of_find? found) stored]

theorem distinct_empty : empty.Distinct := by
  intro left right text atLeft atRight
  have first : ∀ {name : NameRef}, empty.get? name = some text → name = ⟨0⟩ := by
    intro name stored
    have inside := Arena.lt_size_of_get? stored
    exact Ref.eq_iff_index_eq.mpr (Nat.lt_one_iff.mp inside)
  rw [first atLeft, first atRight]

theorem distinct_internAll (distinct : table.Distinct) (texts : List String) :
    (internAll NameTable.intern table texts).2.Distinct := by
  induction texts generalizing table with
  | nil => exact distinct
  | cons text rest induction => exact induction (distinct_intern distinct text)

theorem find?_push (table : NameTable) (new text : String) :
    find? ⟨table.strings.push new⟩ text =
      (table.find? text).or (if new = text then some table.strings.next else none) := by
  simp only [find?, Arena.push, Array.findIdx?_push, Option.map_or, beq_iff_eq]
  split <;> rfl

end NameTable

/-! ## The map and the arena -/

namespace Interner

variable {interner : Interner}

/-- The map leads to where the arena has a string. -/
def InStep (interner : Interner) : Prop :=
  ∀ text, interner.find? text = interner.table.find? text

theorem inStep_empty : empty.InStep := by
  intro text
  have numbers : empty.table.Numbers [""] := NameTable.numbers_empty
  by_cases same : text = ""
  · subst same
    rw [numbers.find?_of_mem List.mem_cons_self]
    simp [find?, empty, List.eraseDups_cons]
  · rw [numbers.find?_of_not_mem (by simpa using same)]
    simp [find?, empty, List.lookup_cons, beq_false_of_ne same]

theorem InStep.intern (inStep : interner.InStep) (text : String) :
    interner.table.intern text = ((interner.intern text).1, (interner.intern text).2.table) ∧
      (interner.intern text).2.InStep := by
  have same := inStep text
  cases found : interner.find? text with
  | some name =>
      rw [Interner.intern, found, NameTable.intern_of_find? (same.symm.trans found)]
      exact ⟨rfl, inStep⟩
  | none =>
      have added : interner.intern text =
          (interner.strings.next,
            ⟨(text, interner.strings.next) :: interner.positions, interner.strings.push text⟩) := by
        rw [Interner.intern, found]
      rw [NameTable.intern, same.symm.trans found, added]
      refine ⟨rfl, fun other => ?_⟩
      refine Eq.trans ?_ (NameTable.find?_push interner.table text other).symm
      rw [← inStep other, find?, List.lookup_cons]
      by_cases again : text = other
      · subst again
        simp [found, table]
      · simp [beq_false_of_ne (Ne.symm again), again, find?]

theorem InStep.all (inStep : interner.InStep) (texts : List String) :
    internAll NameTable.intern interner.table texts =
        ((internAll Interner.intern interner texts).1,
          (internAll Interner.intern interner texts).2.table) ∧
      (internAll Interner.intern interner texts).2.InStep := by
  induction texts generalizing interner with
  | nil => exact ⟨rfl, inStep⟩
  | cons text rest induction =>
      obtain ⟨same, next⟩ := inStep.intern text
      obtain ⟨others, last⟩ := induction next
      exact ⟨by simp only [internAll, same, others], last⟩

/-! ## New interners -/

theorem internAll_table (texts : List String) :
    internAll NameTable.intern NameTable.empty texts =
      ((internAll Interner.intern empty texts).1,
        (internAll Interner.intern empty texts).2.table) :=
  (inStep_empty.all texts).1

theorem numbers_internAll (texts : List String) :
    (internAll Interner.intern empty texts).1 =
        texts.map (fun text => ⟨("" :: texts).eraseDups.idxOf text⟩) ∧
      (internAll Interner.intern empty texts).2.table.Numbers ("" :: texts) := by
  have numbered := NameTable.numbers_empty.all texts
  rw [internAll_table] at numbered
  exact numbered

theorem find?_internAll_eq_some_iff {texts : List String} {text : String} {name : NameRef} :
    (internAll Interner.intern empty texts).2.find? text = some name ↔
      (internAll Interner.intern empty texts).2.text name = .ok text := by
  have distinct := NameTable.distinct_internAll NameTable.distinct_empty texts
  rw [internAll_table] at distinct
  rw [(inStep_empty.all texts).2 text]
  exact distinct.find?_eq_some_iff

theorem of_mem_zip_map {α β : Type} {answer : α → β} {earlier requests : List α}
    (isPrefix : earlier <+: requests) {call : α × β}
    (member : call ∈ earlier.zip (requests.map answer)) :
    call.1 ∈ earlier ∧ call.2 = answer call.1 := by
  obtain ⟨later, rfl⟩ := isPrefix
  induction earlier with
  | nil => simp at member
  | cons request rest induction =>
      rw [List.cons_append, List.map_cons, List.zip_cons_cons] at member
      rcases List.mem_cons.mp member with rfl | inRest
      · exact ⟨List.mem_cons_self, rfl⟩
      · exact (induction inRest).imp_left (List.mem_cons_of_mem _)

theorem text_of_mem_take {texts : List String} {time : Nat} {text : String}
    (member : text ∈ texts.take time) :
    (internAll Interner.intern empty (texts.take time)).2.text
      ⟨("" :: texts).eraseDups.idxOf text⟩ = .ok text := by
  have seen : text ∈ "" :: texts.take time := List.mem_cons_of_mem _ member
  have kept := NameTable.idxOf_concat_of_mem seen (texts.drop time)
  rw [List.cons_append, List.take_append_drop] at kept
  rw [kept]
  exact (numbers_internAll _).2.text_eq_ok_iff.mpr
    (List.getElem?_idxOf (List.mem_eraseDups.mpr seen))

/-- Strings and names go one to one. Whatever texts a new interner is given, the name of each is the
position of its first occurrence among all different ones so far, where the empty string is first.
Two calls have one name just if they have one text; from a call on, its name leads to its text, and
the map leads from the text to the name; and the names that lead somewhere are those below the
number of different texts. A name table that is given the same texts answers the same. -/
theorem names_are_first_positions (texts : List String) :
    let run := internAll Interner.intern Interner.empty
    let names := (run texts).1
    let interner := (run texts).2
    let distinct := ("" :: texts).eraseDups
    names = texts.map (fun text => ⟨distinct.idxOf text⟩) ∧ distinct.idxOf "" = 0 ∧
      (∀ first ∈ texts.zip names, ∀ second ∈ texts.zip names,
        first.2 = second.2 ↔ first.1 = second.1) ∧
      (∀ time, ∀ call ∈ (texts.take time).zip names,
        (run (texts.take time)).2.text call.2 = .ok call.1) ∧
      (∀ text name, interner.find? text = some name ↔ interner.text name = .ok text) ∧
      interner.strings.size = distinct.length ∧
      (∀ name, (∃ text, interner.text name = .ok text) ↔ name.index < distinct.length) ∧
      internAll NameTable.intern NameTable.empty texts = (names, interner.table) := by
  intro run names interner distinct
  have positions : names = texts.map (fun text => ⟨distinct.idxOf text⟩) :=
    (numbers_internAll texts).1
  have numbers : interner.table.Numbers ("" :: texts) := (numbers_internAll texts).2
  refine ⟨positions, ?_, ?_, ?_, fun _ _ => find?_internAll_eq_some_iff, ?_, ?_,
    internAll_table texts⟩
  · simp only [distinct, List.eraseDups_cons, List.idxOf_cons_self]
  · intro first isFirst second isSecond
    rw [positions] at isFirst isSecond
    obtain ⟨given, firstName⟩ := of_mem_zip_map (List.prefix_refl texts) isFirst
    obtain ⟨-, secondName⟩ := of_mem_zip_map (List.prefix_refl texts) isSecond
    rw [firstName, secondName, Ref.eq_iff_index_eq]
    exact List.idxOf_inj (List.mem_eraseDups.mpr (List.mem_cons_of_mem _ given))
  · intro time call member
    rw [positions] at member
    obtain ⟨given, isName⟩ := of_mem_zip_map ( List.take_prefix time texts) member
    rw [isName]
    exact text_of_mem_take given
  · exact congrArg Array.size numbers
  · intro name
    have stored : ∀ text, interner.text name = .ok text ↔ distinct[name.index]? = some text :=
      fun _ => numbers.text_eq_ok_iff
    simp only [stored, List.getElem?_eq_some_iff]
    exact ⟨fun ⟨_, inside, _⟩ => inside, fun inside => ⟨_, inside, rfl⟩⟩

example :
    (internAll Interner.intern empty ["b", "a", "b", "", "c", "a"]).1 =
      [⟨1⟩, ⟨2⟩, ⟨1⟩, ⟨0⟩, ⟨3⟩, ⟨2⟩] := by
  decide

end Interner

end StructuralTypes
