import StructuralTypes.Arena

/-! Interned names. Each distinct string has one reference, handed out in order
of first occurrence; the empty string always has the first. -/

namespace StructuralTypes

structure NameTable where
  strings : Arena .name String

namespace NameTable

def empty : NameTable :=
  ⟨⟨#[""]⟩⟩

def find? (table : NameTable) (text : String) : Option NameRef :=
  (table.strings.entries.findIdx? (· == text)).map Ref.mk

def intern (table : NameTable) (text : String) : NameRef × NameTable :=
  match table.find? text with
  | some name => (name, table)
  | none => (table.strings.next, ⟨table.strings.push text⟩)

def text (table : NameTable) (name : NameRef) : Except Fault String :=
  table.strings.get name

theorem get?_of_find? {table : NameTable} {text : String} {name : NameRef}
    (found : table.find? text = some name) :
    table.strings.get? name = some text := by
  simp only [find?, Option.map_eq_some_iff] at found
  rcases found with ⟨index, position, rfl⟩
  rcases Array.findIdx?_eq_some_iff_getElem.mp position with ⟨stored, same, -⟩
  simp only [beq_iff_eq] at same
  simp [Arena.get?, stored, same]

theorem intern_of_find? {table : NameTable} {text : String} {name : NameRef}
    (found : table.find? text = some name) : table.intern text = (name, table) := by
  rw [intern, found]

theorem text_intern (table : NameTable) (text : String) :
    (table.intern text).2.text (table.intern text).1 = .ok text := by
  rw [NameTable.text, Arena.get_eq_ok_iff]
  unfold intern
  split
  · rename_i name found
    exact get?_of_find? found
  · exact Arena.get?_push_next ..

end NameTable

end StructuralTypes
