import StructuralTypes.Statement

/-! Error reports and how they read. -/

namespace StructuralTypes

inductive ReportCode where
  | shapeMismatch
  | alreadyResolved
  | unsupported
  | unanchored
  | unboundVariable
  deriving DecidableEq, Repr

def ReportCode.text : ReportCode → String
  | .shapeMismatch => "E9101"
  | .alreadyResolved => "E9102"
  | .unsupported => "E9103"
  | .unanchored => "E9104"
  | .unboundVariable => "E9105"

structure Label where
  span : Span
  text : String
  deriving DecidableEq, Repr

structure Report where
  code : ReportCode
  message : String := ""
  labels : List Label := []
  notes : List String := []
  deriving DecidableEq, Repr

namespace Report

inductive Part where
  | message (text : String)
  | label (label : Label)
  | note (text : String)
  deriving DecidableEq, Repr

/-- Add one part. A later message replaces an earlier one; labels and notes are
kept in the order they were added. -/
def add (report : Report) : Part → Report
  | .message text => { report with message := text }
  | .label label => { report with labels := report.labels ++ [label] }
  | .note text => { report with notes := report.notes ++ [text] }

def ofParts (code : ReportCode) (parts : List Part) : Report :=
  parts.foldl add { code }

/-! ## Text -/

def headline (report : Report) : String :=
  "error[" ++ report.code.text ++ "]: " ++ report.message

def labelLine (label : Label) : String :=
  "  --> " ++ label.span.text ++ ": " ++ label.text

def noteLine (note : String) : String :=
  "  = note: " ++ note

def lines (report : Report) : List String :=
  report.headline :: report.labels.map labelLine ++ report.notes.map noteLine

def emit (stream : String) (report : Report) : String :=
  report.lines.foldl (fun written line => written ++ line ++ "\n") stream

def render (report : Report) : String :=
  emit "" report

example :
    (ofParts .unanchored
      [.note "n", .label ⟨⟨1, 5⟩, "here"⟩, .message "lost", .message "m"]).render =
        "error[E9104]: m\n  --> 1..5: here\n  = note: n\n" := by
  decide +kernel

private theorem foldl_lines (lines : List String) (stream : String) :
    lines.foldl (fun written line => written ++ line ++ "\n") stream =
      stream ++ lines.foldl (fun written line => written ++ line ++ "\n") "" := by
  induction lines generalizing stream with
  | nil => simp
  | cons line rest induction =>
      rw [List.foldl_cons, List.foldl_cons, induction,
        induction ("" ++ line ++ "\n")]
      simp [String.append_assoc]

theorem emit_eq_append_render (stream : String) (report : Report) :
    emit stream report = stream ++ render report :=
  foldl_lines report.lines stream

end Report

end StructuralTypes
