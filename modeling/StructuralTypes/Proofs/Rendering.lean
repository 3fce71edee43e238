import Mathlib.Data.List.Basic
import StructuralTypes.Proofs.KeyName
import StructuralTypes.Report

/-! What the text of a report says about the report. Line breaks tell the lines apart, the beginning
of a line tells what it is for, and each line shows what it was made of, so a report whose own texts
hold no line break can be read back. A stream holds the renderings of the reports written to it. -/

namespace StructuralTypes

attribute [ext] Span Label Report

/-! ## Numbers and codes -/

theorem not_mem_toString {char : Char} (other : char.isDigit = false) (number : Nat) :
    char ∉ (toString number).toList := by
  intro member
  rw [Nat.toString_eq_repr, Nat.toList_repr] at member
  have isDigit := Nat.isDigit_of_mem_toDigits (by decide) (by decide) member
  exact absurd isDigit (by simp [other])

theorem number_inj {separator : Char} (other : separator.isDigit = false) {left right : Nat}
    {leftRest rightRest : List Char}
    (same : (toString left).toList ++ separator :: leftRest =
      (toString right).toList ++ separator :: rightRest) : left = right ∧ leftRest = rightRest := by
  obtain ⟨numbers, rests⟩ := CanonicalKey.append_inj_of_separated
    (not_mem_toString other left) (not_mem_toString other right) (by simp) (by simp) same
  exact ⟨CanonicalKey.toString_injective numbers, (List.cons.inj rests).2⟩

theorem Span.toList_text (span : Span) :
    span.text.toList =
      (toString span.start).toList ++ '.' :: '.' :: (toString span.stop).toList := by
  change (toString span.start ++ ".." ++ toString span.stop).toList = _
  rw [String.toList_append, String.toList_append, List.append_assoc]
  rfl

theorem Span.not_mem_text (span : Span) : '\n' ∉ span.text.toList := by
  simp only [toList_text, List.mem_append, List.mem_cons, not_or]
  exact ⟨not_mem_toString rfl _, by decide, by decide, not_mem_toString rfl _⟩

theorem Span.eq_of_text {left right : Span} {leftRest rightRest : List Char}
    (same : left.text.toList ++ ':' :: leftRest = right.text.toList ++ ':' :: rightRest) :
    left = right ∧ leftRest = rightRest := by
  simp only [toList_text, List.append_assoc, List.cons_append] at same
  obtain ⟨starts, rests⟩ := number_inj (by decide) same
  obtain ⟨stops, rests⟩ := number_inj (by decide) (List.cons.inj rests).2
  exact ⟨Span.ext starts stops, rests⟩

theorem ReportCode.text_injective {left right : ReportCode} (same : left.text = right.text) :
    left = right := by
  cases left <;> cases right <;> first | rfl | exact absurd same (by decide)

theorem ReportCode.length_text (code : ReportCode) : code.text.toList.length = 5 := by
  cases code <;> rfl

namespace Report

variable {left right : Report}

/-! ## Lines -/

theorem headline_inj (same : left.headline = right.headline) :
    left.code = right.code ∧ left.message = right.message := by
  have texts := congrArg String.toList same
  simp only [headline, String.toList_append, List.append_assoc, List.append_cancel_left_eq] at texts
  obtain ⟨codes, rests⟩ := List.append_inj texts
    (left.code.length_text.trans right.code.length_text.symm)
  exact ⟨ReportCode.text_injective (String.toList_inj.mp codes),
    String.toList_inj.mp (List.append_cancel_left rests)⟩

theorem toList_labelLine (label : Label) :
    (labelLine label).toList =
      "  --> ".toList ++ (label.span.text.toList ++ ':' :: ' ' :: label.text.toList) := by
  simp [labelLine, String.toList_append]

theorem labelLine_injective : Function.Injective labelLine := by
  intro left right same
  have texts := congrArg String.toList same
  rw [toList_labelLine, toList_labelLine] at texts
  obtain ⟨spans, rests⟩ := Span.eq_of_text (List.append_cancel_left texts)
  exact Label.ext spans (String.toList_inj.mp (List.cons.inj rests).2)

theorem noteLine_injective : Function.Injective noteLine := by
  intro left right same
  have texts := congrArg String.toList same
  simp only [noteLine, String.toList_append] at texts
  exact String.toList_inj.mp (List.append_cancel_left texts)

def ofLabel (line : String) : Bool :=
  line.toList[2]? == some '-'

@[simp] theorem ofLabel_labelLine (label : Label) : ofLabel (labelLine label) = true := by
  simp [ofLabel, toList_labelLine]

@[simp] theorem ofLabel_noteLine (note : String) : ofLabel (noteLine note) = false := by
  simp [ofLabel, noteLine, String.toList_append]

theorem remarks_inj {leftLabels rightLabels : List Label} {leftNotes rightNotes : List String}
    (same : leftLabels.map labelLine ++ leftNotes.map noteLine =
      rightLabels.map labelLine ++ rightNotes.map noteLine) :
    leftLabels = rightLabels ∧ leftNotes = rightNotes := by
  have ofLabels : ∀ (labels : List Label) (notes : List String),
      (labels.map labelLine ++ notes.map noteLine).filter ofLabel = labels.map labelLine := by
    intro labels notes
    simp [List.filter_append, List.filter_map, Function.comp_def]
  have lines := congrArg (List.filter ofLabel) same
  rw [ofLabels, ofLabels] at lines
  have labels := (List.map_injective_iff.mpr labelLine_injective) lines
  subst labels
  exact ⟨rfl, (List.map_injective_iff.mpr noteLine_injective) (List.append_cancel_left same)⟩

theorem eq_of_lines_eq (same : left.lines = right.lines) : left = right := by
  obtain ⟨headlines, remarks⟩ := List.cons.inj same
  obtain ⟨codes, messages⟩ := headline_inj headlines
  obtain ⟨labels, notes⟩ := remarks_inj remarks
  exact Report.ext codes messages labels notes

/-! ## Renderings -/

/-- None of the report's own texts holds a line break. -/
def Unbroken (report : Report) : Prop :=
  '\n' ∉ report.message.toList ∧ (∀ label ∈ report.labels, '\n' ∉ label.text.toList) ∧
    ∀ note ∈ report.notes, '\n' ∉ note.toList

instance (report : Report) : Decidable report.Unbroken :=
  inferInstanceAs (Decidable (_ ∧ _ ∧ _))

theorem toList_emit (stream : String) (report : Report) :
    (emit stream report).toList =
      stream.toList ++ report.lines.flatMap fun line => line.toList ++ ['\n'] := by
  rw [emit]
  generalize report.lines = lines
  induction lines generalizing stream with
  | nil => simp
  | cons line rest induction =>
      rw [List.foldl_cons, induction, List.flatMap_cons]
      simp [String.toList_append]

theorem Unbroken.lines {report : Report} (unbroken : report.Unbroken) :
    ∀ line ∈ report.lines, '\n' ∉ line.toList := by
  obtain ⟨message, labels, notes⟩ := unbroken
  intro line member
  simp only [Report.lines, List.mem_cons, List.mem_append, List.mem_map] at member
  rcases member with (rfl | ⟨label, isLabel, rfl⟩) | ⟨note, isNote, rfl⟩
  · have code : '\n' ∉ report.code.text.toList := by cases report.code <;> decide
    simp [headline, String.toList_append, code, message]
  · simp [toList_labelLine, label.span.not_mem_text, labels label isLabel]
  · simp [noteLine, String.toList_append, notes note isNote]

theorem eq_of_flatMap_ended {left right : List String}
    (leftFree : ∀ line ∈ left, '\n' ∉ line.toList)
    (rightFree : ∀ line ∈ right, '\n' ∉ line.toList)
    (same : (left.flatMap fun line => line.toList ++ ['\n']) =
      right.flatMap fun line => line.toList ++ ['\n']) : left = right := by
  induction left generalizing right with
  | nil =>
      cases right with
      | nil => rfl
      | cons => simp at same
  | cons line rest induction =>
      cases right with
      | nil => simp at same
      | cons other others =>
          simp only [List.flatMap_cons, List.append_assoc, List.singleton_append] at same
          obtain ⟨first, later⟩ := CanonicalKey.append_inj_of_separated
            (leftFree line List.mem_cons_self) (rightFree other List.mem_cons_self) (by simp)
            (by simp) same
          rw [String.toList_inj.mp first, induction
            (fun line member => leftFree line (List.mem_cons_of_mem _ member))
            (fun line member => rightFree line (List.mem_cons_of_mem _ member))
            (List.cons.inj later).2]

theorem eq_of_render_eq (leftUnbroken : left.Unbroken) (rightUnbroken : right.Unbroken)
    (same : left.render = right.render) : left = right := by
  have texts := congrArg String.toList same
  rw [render, render, toList_emit, toList_emit] at texts
  exact eq_of_lines_eq (eq_of_flatMap_ended leftUnbroken.lines rightUnbroken.lines
    (List.append_cancel_left texts))

theorem foldl_emit (stream : String) (reports : List Report) :
    reports.foldl emit stream = stream ++ String.join (reports.map render) := by
  induction reports generalizing stream with
  | nil => simp
  | cons report rest induction =>
      rw [List.foldl_cons, induction, emit_eq_append_render, List.map_cons, String.join_cons,
        String.append_assoc]

/-! ## Reports put together from parts -/

@[simp] def Part.message? : Part → Option String
  | .message text => some text
  | .label _ | .note _ => none

@[simp] def Part.label? : Part → Option Label
  | .label remark => some remark
  | .message _ | .note _ => none

@[simp] def Part.note? : Part → Option String
  | .note text => some text
  | .message _ | .label _ => none

theorem foldl_add (report : Report) (parts : List Part) :
    parts.foldl add report =
      { code := report.code
        message := (parts.filterMap Part.message?).getLast?.getD report.message
        labels := report.labels ++ parts.filterMap Part.label?
        notes := report.notes ++ parts.filterMap Part.note? } := by
  induction parts generalizing report with
  | nil => simp
  | cons part rest induction =>
      rw [List.foldl_cons, induction]
      cases part with
      | message text => simp [add, List.filterMap_cons, List.getLast?_cons]
      | label remark => simp [add, List.filterMap_cons]
      | note text => simp [add, List.filterMap_cons]

theorem ofParts_eq (code : ReportCode) (parts : List Part) :
    ofParts code parts =
      { code
        message := (parts.filterMap Part.message?).getLast?.getD ""
        labels := parts.filterMap Part.label?
        notes := parts.filterMap Part.note? } :=
  foldl_add { code } parts

/-- Reports whose texts hold no line break can be told apart by their renderings. Whatever their
texts are, reports written one after the other extend the stream by their renderings, and a
rendering depends on nothing but the last message, the labels in their order and the notes in
theirs. -/
theorem renderings_tell_reports_apart :
    (∀ left right : Report, left.Unbroken → right.Unbroken →
      (left.render = right.render ↔ left = right)) ∧
    (∀ (stream : String) (drafts : List (ReportCode × List Part)),
      (drafts.map fun draft => ofParts draft.1 draft.2).foldl emit stream =
        stream ++ String.join (drafts.map fun draft => (ofParts draft.1 draft.2).render)) ∧
    ∀ (code : ReportCode) (parts : List Part),
      (ofParts code parts).render =
        render
          { code
            message := (parts.filterMap Part.message?).getLast?.getD ""
            labels := parts.filterMap Part.label?
            notes := parts.filterMap Part.note? } := by
  refine ⟨?_, ?_, ?_⟩
  · intro left right leftUnbroken rightUnbroken
    exact ⟨eq_of_render_eq leftUnbroken rightUnbroken, congrArg render⟩
  · intro stream drafts
    rw [foldl_emit, List.map_map]
    rfl
  · intro code parts
    rw [ofParts_eq]

/-- The label of one report and the note of the other have the same text between the separators. -/
theorem label_and_note_render_apart :
    let labelled := ofParts .unsupported
      [.label ⟨⟨1, 23⟩, "4: here"⟩, .message "lost", .message "in array: E9101"]
    let noted := ofParts .unsupported [.message "in array: E9101", .note "  --> 1..23: 4: here"]
    labelled.Unbroken ∧ noted.Unbroken ∧ labelled.render ≠ noted.render := by
  intro labelled noted
  have labelledUnbroken : labelled.Unbroken := by decide +kernel
  have notedUnbroken : noted.Unbroken := by decide +kernel
  refine ⟨labelledUnbroken, notedUnbroken, fun same => ?_⟩
  have equal := (renderings_tell_reports_apart.1 _ _ labelledUnbroken notedUnbroken).mp same
  exact absurd (congrArg Report.labels equal) (by decide +kernel)

end Report

end StructuralTypes
