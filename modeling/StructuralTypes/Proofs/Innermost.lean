import StructuralTypes.Proofs.Levels

/-! Where a nested type fails. Elements are canonicalized first, so the failure of a nest of arrays
and sequences is that of its innermost level that has one. What is inside that level is done, and
what is outside has not been looked at. -/

namespace StructuralTypes

namespace Program

/-! ## Canonicalizations cut short -/

/-- Canonicalizing `type` as an element or for a variable of `scope` fails after it has taken one
program to the other. -/
inductive Interrupts (scope : ScopeRef) : Program → TypeRef → Program → Prop
  /-- What has no parts to settle is refused as it is. -/
  | refused {program : Program} {type : TypeRef} {form : TypeForm} {symbol : Option SymbolRef}
      (stored : program.types.get? type = some { form, symbol })
      (bottom : symbol = none → form.element? = none) :
      Interrupts scope program type program
  /-- The element fails. -/
  | inside {before after : Program} {type element : TypeRef} {form : TypeForm}
      (stored : before.types.get? type = some { form, symbol := none })
      (found : form.element? = some element) (nested : Interrupts scope before element after) :
      Interrupts scope before type after
  /-- The element settles, and what is built over it is refused then. -/
  | here {before middle : Program} {type element inner : TypeRef} {form : TypeForm}
      {types : Arena .type TypeNode} {names : NameTable}
      (stored : before.types.get? type = some { form, symbol := none })
      (found : form.element? = some element)
      (nested : before.Canonicalizes scope element inner middle)
      (rewritten : middle.types.modify type
        (fun node => { node with form := node.form.withElement inner }) = .ok types) :
      Interrupts scope before type { middle with types, names }

variable {before after : Program} {scope : ScopeRef} {type : TypeRef}

theorem Interrupts.not_nests {outer : TypeRef} {form : TypeForm}
    (interrupts : Interrupts scope before type after)
    (stored : before.types.get? outer = some { form, symbol := none })
    (found : form.element? = some type) : ¬before.Nests type outer := by
  induction interrupts generalizing outer form with
  | refused here bottom => exact not_nests_of_bottom here bottom stored found
  | inside here below _ induction =>
      exact not_nests_of_element here below (induction here below) stored found
  | here here below nested =>
      exact not_nests_of_element here below (nested.not_nests here below) stored found

theorem Interrupts.nests_of_changed {other : TypeRef}
    (interrupts : Interrupts scope before type after)
    (changed : after.types.get? other ≠ before.types.get? other) : before.Nests type other := by
  induction interrupts with
  | refused => exact absurd rfl changed
  | inside here below _ induction => exact .element here below (induction changed)
  | @here middle type element inner form types names here below nested rewritten =>
      by_cases isType : other = type
      · exact isType ▸ .self
      · refine .element here below (nested.nests_of_changed ?_)
        rwa [← Arena.get?_of_modify_of_ne rewritten (Ne.symm isType)]

theorem Nests.trans {first second third : TypeRef} (nests : before.Nests first second)
    (later : before.Nests second third) : before.Nests first third := by
  induction nests with
  | self => exact later
  | element stored found _ induction => exact .element stored found (induction later)

theorem Interrupts.kept {other outer : TypeRef} {form : TypeForm}
    (interrupts : Interrupts scope before type after) (around : before.Nests other outer)
    (stored : before.types.get? outer = some { form, symbol := none })
    (found : form.element? = some type) :
    after.types.get? other = before.types.get? other := by
  refine Classical.byContradiction fun changed => ?_
  exact interrupts.not_nests stored found ((interrupts.nests_of_changed changed).trans around)

theorem Interrupts.symbols {ref : SymbolRef} {symbol : Symbol}
    (interrupts : Interrupts scope before type after)
    (stored : before.symbols.get? ref = some symbol) : after.symbols.get? ref = some symbol := by
  induction interrupts with
  | refused => exact stored
  | inside _ _ _ induction => exact induction
  | here _ _ nested => exact nested.symbols stored

/-! ## Nests of types -/

/-- All types of the list are anonymous. Each has the next one as its element, and the last one has
`leaf`. -/
def Stacked (program : Program) : List TypeRef → TypeRef → Prop
  | [], _ => True
  | outer :: rest, leaf =>
      (∃ form, program.types.get? outer = some { form, symbol := none } ∧
        form.element? = some (rest.headD leaf)) ∧
      program.Stacked rest leaf

theorem Stacked.front {front back : List TypeRef} {level leaf : TypeRef}
    (stacked : before.Stacked (front ++ level :: back) leaf) : before.Stacked front level := by
  induction front with
  | nil => trivial
  | cons outer rest induction =>
      rcases stacked with ⟨⟨form, stored, found⟩, stacked⟩
      refine ⟨⟨form, stored, ?_⟩, induction stacked⟩
      cases rest <;> exact found

theorem Stacked.back {front back : List TypeRef} {leaf : TypeRef}
    (stacked : before.Stacked (front ++ back) leaf) : before.Stacked back leaf := by
  induction front with
  | nil => exact stacked
  | cons outer rest induction => exact induction stacked.2

theorem Stacked.around {levels : List TypeRef} {leaf node : TypeRef}
    (stacked : before.Stacked levels leaf) (member : node ∈ levels) :
    ∃ outer form, before.Nests node outer ∧
      before.types.get? outer = some { form, symbol := none } ∧ form.element? = some leaf := by
  induction levels generalizing node with
  | nil => cases member
  | cons first rest induction =>
      rcases stacked with ⟨⟨form, stored, found⟩, stacked⟩
      rcases List.mem_cons.mp member with rfl | later
      · cases rest with
        | nil => exact ⟨node, form, .self, stored, found⟩
        | cons next rest =>
            rcases induction stacked List.mem_cons_self with ⟨outer, inner, nests, bottom⟩
            exact ⟨outer, inner, .element stored found nests, bottom⟩
      · exact induction stacked later

end Program

/-! ## Runs that are cut short -/

section

variable {before after : Session Unit} {type : TypeRef} {failure : Failure}

theorem interrupts_of_elementWith {composite : TypeRef → Canon Unit TypeRef}
    (interrupts : ∀ type, composite type before = .error (.failed failure) after →
      before.program.Interrupts before.scope type after.program)
    (ran : Canon.elementWith composite type before = .error (.failed failure) after) :
    before.program.Interrupts before.scope type after.program := by
  simp only [Canon.elementWith, bind_eq_error_iff, Canon.ask_eq_failed_iff, false_or,
    Canon.ask_eq_ok_iff, Program.typeSymbol?_eq_ok_iff] at ran
  rcases ran with ⟨symbol, _, ⟨⟨form, stored⟩, rfl⟩, ran⟩
  cases symbol with
  | some symbol => simp [pure_eq_error_iff] at ran
  | none =>
      simp only [bind_eq_error_iff, Canon.ask_eq_failed_iff, false_or, Canon.ask_eq_ok_iff,
        Program.shape_eq_ok_iff] at ran
      rcases ran with ⟨shape, _, ⟨⟨node, found, rfl⟩, rfl⟩, ran⟩
      cases Option.mem_unique stored found
      cases form with
      | index subject =>
          simp only [TypeForm.shape, bind_eq_error_iff, get_eq_error_iff, get_eq_ok_iff,
            false_or] at ran
          rcases ran with ⟨_, _, ⟨rfl, rfl⟩, ran⟩
          rw [index_eq_failed ran]
          exact .refused stored fun _ => rfl
      | _ => exact interrupts type ran

theorem Session.Refuses.interrupts {middle : Session Unit} {element canonical : TypeRef}
    {form : TypeForm} {action : TypeRef → Canon Unit TypeRef} (ruled : Ruled action)
    (stored : before.program.types.get? type = some { form, symbol := none })
    (found : form.element? = some element)
    (settled : action element before = .ok canonical middle)
    (refuses : middle.Refuses type canonical failure after) :
    before.program.Interrupts before.scope type after.program := by
  cases refuses with
  | intro _ rewritten => exact .here stored found (ruled _ _ _ _ settled).2 rewritten

theorem unchanged_of_named {form : TypeForm} {ref : SymbolRef} {α : Type}
    {rest : Unit → Canon Unit α}
    (stored : before.program.types.get? type = some { form, symbol := some ref })
    (ran : (Canon.expectAnonymous type >>= rest) before = .error (.failed failure) after) :
    after = before := by
  rcases bind_eq_error_iff.mp ran with anonymous | ⟨_, _, anonymous, -⟩
  · exact expectAnonymous_eq_failed anonymous
  · cases (expectAnonymous_eq_ok anonymous).2 form (some ref) stored

theorem interrupts_of_compositeWithin {depth : Nat}
    (ran : Canon.compositeWithin .silent depth type before = .error (.failed failure) after) :
    before.program.Interrupts before.scope type after.program := by
  induction depth generalizing type with
  | zero => simp [Canon.compositeWithin, Canon.fault_eq_failed_iff] at ran
  | succ depth induction =>
      have ruled : Ruled (Canon.elementWith (Canon.compositeWithin .silent depth)) :=
        ruled_elementWith fun _ _ _ _ => compositeWithin_eq_ok
      have shaping := ran
      simp only [Canon.compositeWithin, bind_eq_error_iff, Canon.ask_eq_failed_iff, false_or,
        Canon.ask_eq_ok_iff, Program.shape_eq_ok_iff] at shaping
      rcases shaping with ⟨shape, before, ⟨⟨⟨form, symbol⟩, stored, rfl⟩, rfl⟩, building⟩
      cases symbol with
      | some symbol =>
          have formed : (Canon.ask (·.form type) : Canon Unit TypeForm) before = .ok form before :=
            Canon.ask_of_ok (Program.form_eq_ok_iff.mpr ⟨_, stored⟩)
          have unchanged : after = before := by
            cases form with
            | array => exact unchanged_of_named stored ((bind_of_ok formed).symm.trans building)
            | sequence => exact unchanged_of_named stored ((bind_of_ok formed).symm.trans building)
            | domain => exact domain_eq_failed building
            | tuple => exact tuple_eq_failed building
            | _ => simp [TypeForm.shape, pure_eq_error_iff] at building
          rw [unchanged]
          exact .refused stored (by simp)
      | none =>
          cases below : form.element? with
          | some element =>
              rcases compositeWithin_refused stored below ran with
                nested | ⟨canonical, middle, settled, refuses⟩
              · exact .inside stored below (interrupts_of_elementWith (fun _ => induction) nested)
              · exact refuses.interrupts ruled stored below settled
          | none =>
              have unchanged : after = before := by
                cases form with
                | array | sequence => cases below
                | domain => exact domain_eq_failed building
                | tuple => exact tuple_eq_failed building
                | _ => simp [TypeForm.shape, pure_eq_error_iff] at building
              rw [unchanged]
              exact .refused stored fun _ => below

theorem interrupts_of_composite
    (ran : Canon.composite .silent type before = .error (.failed failure) after) :
    before.program.Interrupts before.scope type after.program := by
  change Canon.compositeWithin .silent (before.program.types.size + 1) type before = _ at ran
  exact interrupts_of_compositeWithin ran

end

/-! ## The level that fails -/

namespace Canon

variable {before after : Session Unit} {leaf : TypeRef} {failure : Failure}

theorem elementWith_of_within {depth : Nat} {type : TypeRef}
    {result : EStateM.Result (Halt Failure) (Session Unit) TypeRef}
    (inside : depth ≤ before.program.types.size + 1)
    (ran : elementWith (compositeWithin .silent depth) type before = result)
    (own : ∀ state, result ≠ .error (.fault .nestingLimit) state) :
    elementWith (composite .silent) type before = result := by
  refine (elementWith_composite inside ?_).trans ran
  intro state limited
  exact own state (ran.symm.trans limited)

theorem elementWith_of_anonymous {τ : Type} {before : Session τ}
    {composite : TypeRef → Canon τ TypeRef} {type element : TypeRef} {form : TypeForm}
    (stored : before.program.types.get? type = some { form, symbol := none })
    (found : form.element? = some element) :
    elementWith composite type before = composite type before := by
  have named : (ask (·.typeSymbol? type) : Canon τ (Option SymbolRef)) before =
      .ok none before := ask_of_ok (Program.typeSymbol?_eq_ok_iff.mpr ⟨form, stored⟩)
  have shaped : (ask (·.shape type) : Canon τ Shape) before = .ok form.shape before :=
    ask_of_ok (Program.shape_eq_ok_iff.mpr ⟨_, stored, rfl⟩)
  refine (bind_of_ok named).trans ((bind_of_ok shaped).trans ?_)
  cases form with
  | array | sequence => rfl
  | _ => cases found

/-- The failure of a nest is that of its leaf or that of the innermost level that is refused. -/
theorem compositeWithin_stacked {outer : TypeRef} {rest : List TypeRef} {depth : Nat}
    (inside : depth ≤ before.program.types.size + 1)
    (stacked : before.program.Stacked (outer :: rest) leaf)
    (ran : compositeWithin .silent depth outer before = .error (.failed failure) after) :
    elementWith (composite .silent) leaf before = .error (.failed failure) after ∨
      ∃ front level back canonical middle, outer :: rest = front ++ level :: back ∧
        elementWith (composite .silent) (back.headD leaf) before = .ok canonical middle ∧
        middle.Refuses level canonical failure after := by
  -- A level fails with its element, or by itself where all below it has settled.
  induction rest generalizing outer depth with
  | nil =>
      rcases stacked with ⟨⟨form, stored, found⟩, -⟩
      cases depth with
      | zero => simp [compositeWithin, fault_eq_failed_iff] at ran
      | succ depth =>
          rcases compositeWithin_refused stored found ran with
            nested | ⟨canonical, middle, settled, refuses⟩
          · exact .inl (elementWith_of_within (by omega) nested (by simp))
          · exact .inr ⟨[], outer, [], canonical, middle, rfl,
              elementWith_of_within (by omega) settled (by simp), refuses⟩
  | cons next rest induction =>
      rcases stacked with ⟨⟨form, stored, found⟩, stacked⟩
      cases depth with
      | zero => simp [compositeWithin, fault_eq_failed_iff] at ran
      | succ depth =>
          rcases compositeWithin_refused stored found ran with
            nested | ⟨canonical, middle, settled, refuses⟩
          · rcases stacked.1 with ⟨inner, nextStored, below⟩
            have composing := (elementWith_of_anonymous nextStored below).symm.trans nested
            rcases induction (by omega) stacked composing with
              leafFails | ⟨front, level, back, canonical, middle, split, settled, refuses⟩
            · exact .inl leafFails
            · exact .inr ⟨outer :: front, level, back, canonical, middle, by rw [split]; rfl,
                settled, refuses⟩
          · exact .inr ⟨[], outer, next :: rest, canonical, middle, rfl,
              elementWith_of_within (by omega) settled (by simp), refuses⟩

/-- If the canonicalization of a nest of arrays and sequences fails, it does so innermost first.
Either its leaf fails, and no level has changed. Or a level is refused by its own checks after all
that is inside it has settled: what is left is the state from then, with the element in the slot of
that level, which has no declaration still, and at most one name more. What is outside it is
untouched, however wrong that may be. -/
theorem composite_fails_innermost {outer : TypeRef} {rest : List TypeRef}
    (stacked : before.program.Stacked (outer :: rest) leaf)
    (ran : composite .silent outer before = .error (.failed failure) after) :
    (elementWith (composite .silent) leaf before = .error (.failed failure) after ∧
      ∀ level ∈ outer :: rest,
        after.program.types.get? level = before.program.types.get? level) ∨
    ∃ front level back canonical middle form, outer :: rest = front ++ level :: back ∧
      elementWith (composite .silent) (back.headD leaf) before = .ok canonical middle ∧
      middle.Refuses level canonical failure after ∧
      before.program.types.get? level = some { form, symbol := none } ∧
      after.program.types.get? level =
        some { form := form.withElement canonical, symbol := none } ∧
      ∀ other ∈ front, after.program.types.get? other = before.program.types.get? other := by
  rcases compositeWithin_stacked (Nat.le_refl _) stacked ran with
    leafFails | ⟨front, level, back, canonical, middle, split, settled, refuses⟩
  · refine .inl ⟨leafFails, fun level member => ?_⟩
    rcases stacked.around member with ⟨bottom, form, nests, stored, found⟩
    exact (interrupts_of_elementWith (fun _ => interrupts_of_composite) leafFails).kept nests stored
      found
  · rw [split] at stacked
    rcases stacked.back with ⟨⟨form, stored, found⟩, -⟩
    have ruled : Ruled (elementWith (composite .silent)) :=
      ruled_elementWith fun _ _ _ _ => compositeWithin_eq_ok
    have interrupts := refuses.interrupts ruled stored found settled
    refine .inr ⟨front, level, back, canonical, middle, form, split, settled, refuses, stored,
      ?_, ?_⟩
    · have kept := (ruled _ _ _ _ settled).2.outer_kept stored found
      cases refuses with
      | intro _ rewritten =>
          have filled := Arena.get?_of_modify_same rewritten
          rwa [kept] at filled
    · intro other member
      rcases stacked.front.around member with ⟨bottom, inner, nests, bottomStored, bottomFound⟩
      exact interrupts.kept nests bottomStored bottomFound

def twiceWrongCalls : List Call :=
  [.addModule, .addExpression (.literal 0), .addType (.sequence ⟨1⟩),
    .addType (.array ⟨7⟩ ⟨0⟩ none), .addType (.array ⟨8⟩ ⟨0⟩ none)]

/-- Both arrays are wrong, and the inner one fails. -/
theorem composite_fails_innermost_of_twice_wrong :
    ∃ before after : Session Unit, before.program.Stacked [⟨9⟩, ⟨8⟩, ⟨7⟩] ⟨1⟩ ∧
      composite .silent ⟨9⟩ before =
        .error (.failed ⟨before.statement, .unsupported .rangeNotIteration⟩) after ∧
      after.program.types.get? ⟨7⟩ =
        some { form := .sequence ⟨1⟩, symbol := some before.program.symbols.next } ∧
      ∃ front level back canonical middle form, [⟨9⟩, ⟨8⟩, ⟨7⟩] = front ++ level :: back ∧
        elementWith (composite .silent) (back.headD ⟨1⟩) before = .ok canonical middle ∧
        middle.Refuses level canonical ⟨before.statement, .unsupported .rangeNotIteration⟩ after ∧
        before.program.types.get? level = some { form, symbol := none } ∧
        after.program.types.get? level =
          some { form := form.withElement canonical, symbol := none } ∧
        ∀ other ∈ front, after.program.types.get? other = before.program.types.get? other := by
  rcases (show ∃ source ∈ (layOut twiceWrongCalls).toOption,
      source.types.get? ⟨9⟩ = some { form := .array ⟨8⟩ ⟨0⟩ none, symbol := none } ∧
      source.types.get? ⟨8⟩ = some { form := .array ⟨7⟩ ⟨0⟩ none, symbol := none } ∧
      source.types.get? ⟨7⟩ = some { form := .sequence ⟨1⟩, symbol := none } ∧
      (∃ failed ∈ failed? (composite .silent ⟨9⟩ ⟨⟨source, { journal := () }⟩, ⟨2⟩, ⟨0⟩⟩),
        failed.1 = ⟨⟨0⟩, .unsupported .rangeNotIteration⟩ ∧
        failed.2.program.types.get? ⟨7⟩ =
          some { form := .sequence ⟨1⟩, symbol := some source.symbols.next }) ∧
      failed? (elementWith (composite .silent) ⟨1⟩
        ⟨⟨source, { journal := () }⟩, ⟨2⟩, ⟨0⟩⟩) = none by decide +kernel) with
    ⟨source, -, outer, inner, innermost, ⟨⟨failure, after⟩, isFailed, rfl, declared⟩, succeeds⟩
  have ran := failed?_eq_some_iff.mp isFailed
  have stacked : source.Stacked [⟨9⟩, ⟨8⟩, ⟨7⟩] ⟨1⟩ :=
    ⟨⟨_, outer, rfl⟩, ⟨_, inner, rfl⟩, ⟨_, innermost, rfl⟩, trivial⟩
  refine ⟨⟨⟨source, { journal := () }⟩, ⟨2⟩, ⟨0⟩⟩, after, stacked, ran, declared, ?_⟩
  rcases composite_fails_innermost stacked ran with ⟨leafFails, -⟩ | level
  · rw [failed?_eq_some_iff.mpr leafFails] at succeeds
    cases succeeds
  · exact level

end Canon

end StructuralTypes
