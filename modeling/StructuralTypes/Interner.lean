import StructuralTypes.Names

/-! Interned names, kept so that neither way of looking searches the other. A map leads from each
string to its reference, an arena from each reference to its string, and a new string goes into
both. -/

namespace StructuralTypes

structure Interner where
  /-- Newest first. -/
  positions : List (String × NameRef)
  strings : Arena .name String

namespace Interner

def empty : Interner :=
  ⟨[("", ⟨0⟩)], ⟨#[""]⟩⟩

def find? (interner : Interner) (text : String) : Option NameRef :=
  interner.positions.lookup text

def intern (interner : Interner) (text : String) : NameRef × Interner :=
  match interner.find? text with
  | some name => (name, interner)
  | none =>
      let name := interner.strings.next
      (name, ⟨(text, name) :: interner.positions, interner.strings.push text⟩)

def text (interner : Interner) (name : NameRef) : Except Fault String :=
  interner.strings.get name

def table (interner : Interner) : NameTable :=
  ⟨interner.strings⟩

end Interner

end StructuralTypes
