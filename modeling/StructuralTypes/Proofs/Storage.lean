import StructuralTypes.Program.Basic

/-! Reading the tables of a program after they have grown. Entries are never
removed, so a reference that led somewhere once leads there still, and a name
table that stores no string twice identifies names with their strings. -/

namespace StructuralTypes

namespace Arena

variable {entity : Entity} {α : Type} {arena changed : Arena entity α}
  {ref target : Ref entity} {entry : α}

theorem lt_size_of_get? (stored : arena.get? ref = some entry) :
    ref.index < arena.size := by
  rw [← get?_isSome_iff, stored]
  rfl

theorem exists_get?_of_lt_size (inside : ref.index < arena.size) :
    ∃ stored, arena.get? ref = some stored := by
  rw [← get?_isSome_iff] at inside
  exact Option.isSome_iff_exists.mp inside

theorem get?_push (arena : Arena entity α) (new : α) (ref : Ref entity) :
    (arena.push new).get? ref =
      if ref = arena.next then some new else arena.get? ref := by
  split
  · rename_i same
    rw [same, get?_push_next]
  · rename_i different
    by_cases inside : ref.index < arena.size
    · exact get?_push_of_lt new inside
    · have outside : ¬ref.index < (arena.push new).size := by
        simp only [Ref.eq_iff_index_eq, next] at different
        simp only [size_push]
        omega
      rw [← get?_isSome_iff, Bool.not_eq_true, Option.isSome_eq_false_iff,
        Option.isNone_iff_eq_none] at inside outside
      rw [inside, outside]

theorem get?_push_of_get? (new : α) (stored : arena.get? ref = some entry) :
    (arena.push new).get? ref = some entry := by
  rw [get?_push_of_lt new (lt_size_of_get? stored), stored]

theorem eq_next_or_get?_of_push {new : α}
    (stored : (arena.push new).get? ref = some entry) :
    (ref = arena.next ∧ entry = new) ∨ arena.get? ref = some entry := by
  rw [get?_push] at stored
  split at stored
  · rename_i same
    exact .inl ⟨same, (Option.some.inj stored).symm⟩
  · exact .inr stored

theorem get?_next (arena : Arena entity α) : arena.get? arena.next = none := by
  cases found : arena.get? arena.next with
  | none => rfl
  | some entry => exact absurd (lt_size_of_get? found) (by simp [next])

theorem get?_next_of_kept {old : Arena entity α}
    (kept : ∀ entry, old.get? arena.next = some entry →
      ∃ later, arena.get? arena.next = some later) : old.get? arena.next = none := by
  cases found : old.get? arena.next with
  | none => rfl
  | some entry =>
      obtain ⟨later, again⟩ := kept entry found
      rw [get?_next] at again
      contradiction

theorem get?_of_modify_of_ne {change : α → α}
    (modified : arena.modify target change = .ok changed) (other : target ≠ ref) :
    changed.get? ref = arena.get? ref := by
  rw [get?_of_modify modified, if_neg other]

theorem get?_of_modify_same {change : α → α}
    (modified : arena.modify target change = .ok changed) :
    changed.get? target = (arena.get? target).map change := by
  rw [get?_of_modify modified, if_pos rfl]

theorem get?_eq_some_of_modify {change : α → α}
    (modified : arena.modify target change = .ok changed)
    (stored : changed.get? ref = some entry) :
    ∃ old, arena.get? ref = some old ∧
      entry = if target = ref then change old else old := by
  rw [get?_of_modify modified] at stored
  split at stored
  · rename_i same
    rcases Option.map_eq_some_iff.mp stored with ⟨old, found, rfl⟩
    exact ⟨old, found, (if_pos same).symm⟩
  · rename_i other
    exact ⟨entry, stored, (if_neg other).symm⟩

/-- A statement about all stored entries is one about finitely many of them. -/
theorem forall_get?_iff {property : Ref entity → α → Prop} :
    (∀ ref entry, arena.get? ref = some entry → property ref entry) ↔
      ∀ ref ∈ arena.refs, ∀ entry ∈ arena.get? ref, property ref entry := by
  constructor
  · intro always ref _ entry stored
    exact always ref entry stored
  · intro always ref entry stored
    exact always ref (mem_refs_iff.mpr (lt_size_of_get? stored)) entry stored

instance {property : Ref entity → α → Prop} [∀ ref entry, Decidable (property ref entry)] :
    Decidable (∀ ref entry, arena.get? ref = some entry → property ref entry) :=
  decidable_of_iff _ forall_get?_iff.symm

theorem modify_push_next (arena : Arena entity α) (new : α) (change : α → α) :
    (arena.push new).modify arena.next change = .ok (arena.push (change new)) := by
  simp [modify, push, next, size, Array.set_push]

theorem modify_same {change : α → α} (stored : arena.get? ref = some entry)
    (same : change entry = entry) : arena.modify ref change = .ok arena := by
  obtain ⟨inside, isEntry⟩ := Array.getElem?_eq_some_iff.mp stored
  simp only [modify, inside, dif_pos, isEntry, same]
  rw [← isEntry, Array.set_getElem_self]

theorem modify_modify {middle : Arena entity α} {first second : α → α}
    (once : arena.modify target first = .ok middle)
    (twice : middle.modify target second = .ok changed) :
    arena.modify target (fun entry => second (first entry)) = .ok changed := by
  unfold modify at *
  split at once
  · cases Except.ok.inj once
    simp only [Array.size_set] at twice
    split at twice
    · cases Except.ok.inj twice
      simp [*]
    · contradiction
  · contradiction

end Arena

namespace NameTable

variable {table : NameTable} {text : String} {name : NameRef}

def get? (table : NameTable) (name : NameRef) : Option String :=
  table.strings.get? name

def Distinct (table : NameTable) : Prop :=
  ∀ left right text, table.get? left = some text → table.get? right = some text →
    left = right

theorem text_eq_ok_iff : table.text name = .ok text ↔ table.get? name = some text :=
  Arena.get_eq_ok_iff

theorem get?_intern (table : NameTable) (text : String) :
    (table.intern text).2.get? (table.intern text).1 = some text :=
  text_eq_ok_iff.mp (table.text_intern text)

theorem get?_intern_of_get? (new : String) (stored : table.get? name = some text) :
    (table.intern new).2.get? name = some text := by
  unfold intern
  split
  · exact stored
  · exact Arena.get?_push_of_get? _ stored

theorem ne_of_find?_eq_none (missing : table.find? text = none) {stored : String}
    (found : table.get? name = some stored) : stored ≠ text := by
  simp only [find?, Option.map_eq_none_iff, Array.findIdx?_eq_none_iff] at missing
  simp only [get?, Arena.get?] at found
  have different := missing stored (Array.mem_of_getElem? found)
  simpa using different

theorem distinct_intern (distinct : table.Distinct) (text : String) :
    (table.intern text).2.Distinct := by
  unfold intern
  split
  · exact distinct
  · rename_i missing
    intro left right stored atLeft atRight
    rcases Arena.eq_next_or_get?_of_push atLeft with ⟨leftNew, rfl⟩ | leftOld <;>
      rcases Arena.eq_next_or_get?_of_push atRight with ⟨rightNew, same⟩ | rightOld
    · rw [leftNew, rightNew]
    · exact absurd rfl (ne_of_find?_eq_none missing rightOld)
    · exact absurd same (ne_of_find?_eq_none missing leftOld)
    · exact distinct left right stored leftOld rightOld

theorem find?_push_of_find? (new : String) (found : table.find? text = some name) :
    find? ⟨table.strings.push new⟩ text = some name := by
  simp only [find?, Arena.push, Option.map_eq_some_iff] at found ⊢
  obtain ⟨index, position, rfl⟩ := found
  exact ⟨index, by simp [Array.findIdx?_push, position], rfl⟩

theorem find?_intern_of_find? (new : String) (found : table.find? text = some name) :
    (table.intern new).2.find? text = some name := by
  unfold intern
  split
  · exact found
  · exact find?_push_of_find? new found

theorem find?_intern (table : NameTable) (text : String) :
    (table.intern text).2.find? text = some (table.intern text).1 := by
  unfold intern
  split
  · assumption
  · rename_i missing
    simp only [find?, Option.map_eq_none_iff] at missing
    simp [find?, Arena.push, Array.findIdx?_push, missing, Arena.next, Arena.size]

end NameTable

namespace Program

def Binds (program : Program) (scope : ScopeRef) (name : NameRef)
    (symbol : SymbolRef) : Prop :=
  ∃ content, program.scopes.get? scope = some content ∧
    content.lookup name = some symbol

variable {program : Program}

/-! ## Bindings -/

/-- After a name has been bound in a scope, the scope binds it to the new symbol, and
everything else is bound as before. -/
theorem binds_bind_iff {scopes : Scopes} {scope : ScopeRef} {name : NameRef}
    {symbol : SymbolRef}
    (modified : program.scopes.modify scope (·.bind name symbol) = .ok scopes)
    {other : ScopeRef} {text : NameRef} {found : SymbolRef} :
    { program with scopes }.Binds other text found ↔
      if scope = other ∧ name = text then symbol = found
      else program.Binds other text found := by
  simp only [Binds, Arena.get?_of_modify modified]
  by_cases here : scope = other
  · subst here
    have inside := Arena.modify_isOk_iff.mp ⟨_, modified⟩
    rcases Arena.exists_get?_of_lt_size inside with ⟨content, stored⟩
    by_cases same : name = text
    · subst same
      simp [stored]
    · simp [stored, same, Scope.lookup_bind_other content symbol (Ne.symm same)]
  · simp [here]

theorem binds_unique {scope : ScopeRef} {name : NameRef} {left right : SymbolRef}
    (first : program.Binds scope name left) (second : program.Binds scope name right) :
    left = right := by
  rcases first with ⟨content, stored, found⟩
  rcases second with ⟨other, storedAgain, foundAgain⟩
  cases Option.mem_unique stored storedAgain
  rw [found] at foundAgain
  exact Option.some.inj foundAgain

/-! ## Answers to questions about a program -/

theorem form_eq_ok_iff {type : TypeRef} {form : TypeForm} :
    program.form type = .ok form ↔
      ∃ symbol, program.types.get? type = some { form, symbol } := by
  simp only [Program.form, bind, Except.bind, pure, Except.pure, Arena.get]
  cases found : program.types.get? type with
  | none => simp
  | some node =>
      cases node
      simp

theorem node_unique {type : TypeRef} {first second : TypeForm}
    {left right : Option SymbolRef}
    (one : program.types.get? type = some { form := first, symbol := left })
    (other : program.types.get? type = some { form := second, symbol := right }) :
    first = second ∧ left = right :=
  TypeNode.mk.inj (Option.mem_unique one other)

theorem typeSymbol?_eq_ok_iff {type : TypeRef} {symbol : Option SymbolRef} :
    program.typeSymbol? type = .ok symbol ↔
      ∃ form, program.types.get? type = some { form, symbol } := by
  simp only [typeSymbol?, bind, Except.bind, pure, Except.pure, Arena.get]
  cases found : program.types.get? type with
  | none => simp
  | some node =>
      cases node
      simp

theorem symbol_eq_ok_iff {ref : SymbolRef} {symbol : Symbol} :
    program.symbol ref = .ok symbol ↔ program.symbols.get? ref = some symbol :=
  Arena.get_eq_ok_iff

theorem expression_eq_ok_iff {ref : ExpressionRef} {expression : Expression} :
    program.expression ref = .ok expression ↔
      program.expressions.get? ref = some expression :=
  Arena.get_eq_ok_iff

theorem shape_eq_ok_iff {type : TypeRef} {shape : Shape} :
    program.shape type = .ok shape ↔
      ∃ node, program.types.get? type = some node ∧ node.form.shape = shape := by
  simp only [Program.shape, Program.form, bind, Except.bind, pure, Except.pure,
    Arena.get]
  cases found : program.types.get? type <;> simp

theorem lookup_eq_some_iff {scope : ScopeRef} {name : NameRef} {symbol : SymbolRef} :
    program.lookup scope name = .ok (some symbol) ↔
      program.Binds scope name symbol := by
  simp only [Program.lookup, Scopes.lookup, bind, Except.bind, pure, Except.pure,
    Arena.get, Binds]
  cases found : program.scopes.get? scope <;> simp

theorem lookup_eq_none_iff {scope : ScopeRef} {name : NameRef} :
    program.lookup scope name = .ok none ↔
      ∃ content, program.scopes.get? scope = some content ∧
        content.lookup name = none := by
  simp only [Program.lookup, Scopes.lookup, bind, Except.bind, pure, Except.pure,
    Arena.get]
  cases found : program.scopes.get? scope <;> simp

theorem symbolName_eq_ok_iff {ref : SymbolRef} {text : String} :
    program.symbolName ref = .ok text ↔
      ∃ symbol, program.symbols.get? ref = some symbol ∧
        program.names.get? symbol.name = some text := by
  simp only [symbolName, Program.symbol, bind, Except.bind, Arena.get]
  cases found : program.symbols.get? ref with
  | none => simp
  | some symbol => simp [NameTable.text_eq_ok_iff]

theorem typeName?_eq_some_iff {type : TypeRef} {text : String} :
    program.typeName? type = .ok (some text) ↔
      ∃ form ref symbol, program.types.get? type = some { form, symbol := some ref } ∧
        program.symbols.get? ref = some symbol ∧
        program.names.get? symbol.name = some text := by
  simp only [typeName?, typeSymbol?, bind, Except.bind, pure, Except.pure, Arena.get]
  cases found : program.types.get? type with
  | none => simp
  | some node =>
      rcases node with ⟨form, symbol⟩
      cases symbol with
      | none => simp [pure, Except.pure]
      | some ref =>
          cases named : program.symbolName ref with
          | error fault =>
              simp [Except.map, named, ← symbolName_eq_ok_iff, Functor.map]
          | ok name =>
              simp only [Option.mapM_some, named, Functor.map, Except.map,
                Except.ok.injEq, Option.some.injEq, TypeNode.mk.injEq]
              constructor
              · intro equal
                subst equal
                rcases symbolName_eq_ok_iff.mp named with ⟨symbol, stored⟩
                exact ⟨form, ref, symbol, ⟨rfl, rfl⟩, stored⟩
              · intro holds
                rcases holds with ⟨_, _, symbol, ⟨-, rfl⟩, stored⟩
                have again := symbolName_eq_ok_iff.mpr ⟨symbol, stored⟩
                rw [named] at again
                exact Except.ok.inj again

theorem typeName?_eq_none_iff {type : TypeRef} :
    program.typeName? type = .ok none ↔
      ∃ form, program.types.get? type = some { form, symbol := none } := by
  simp only [typeName?, typeSymbol?, bind, Except.bind, pure, Except.pure, Arena.get]
  cases found : program.types.get? type with
  | none => simp
  | some node =>
      rcases node with ⟨form, symbol⟩
      cases symbol with
      | none => simp [pure, Except.pure]
      | some ref =>
          cases named : program.symbolName ref <;>
            simp [Except.map, named, Functor.map]

end Program

end StructuralTypes
