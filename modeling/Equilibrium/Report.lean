/-
Validation reports.

A report has categories in the order of their creation, each with errors, warnings and notes. A
report passes if no category has an error; its totals are those at the last time it was finalized.

Main statements:
* `Report.ok_finalize` - a finalized report passes exactly if no category has an error.
-/
import Equilibrium.Document
import Equilibrium.Vocabulary

namespace Equilibrium

/-- The three kinds of messages. -/
inductive Channel
  | errors
  | warnings
  | notes
  deriving Repr, DecidableEq

/-- The messages of one category. -/
structure Findings where
  errors : List String := []
  warnings : List String := []
  notes : List String := []

/-- A validation report. -/
structure Report where
  categories : Table Findings := Table.empty
  ok : Bool := true
  errors : Nat := 0
  warnings : Nat := 0

namespace Channel

/-- The channel with this name. -/
def ofName : String → Option Channel
  | "errors" => some errors
  | "warnings" => some warnings
  | "notes" => some notes
  | _ => none

end Channel

namespace Findings

/-- Adds a message at the end of a channel. -/
def add (f : Findings) (message : String) : Channel → Findings
  | .errors => { f with errors := f.errors ++ [message] }
  | .warnings => { f with warnings := f.warnings ++ [message] }
  | .notes => { f with notes := f.notes ++ [message] }

/-- The findings as a document. -/
def toDocument (f : Findings) : Document :=
  .object [("errors", .texts f.errors), ("warnings", .texts f.warnings), ("notes", .texts f.notes)]

end Findings

namespace Report

/-- The findings in a category, none if it is not there. -/
def findings (r : Report) (c : Category) : Findings := (r.categories.get? c.name).getD {}

/-- Creates a category, unless it is there. -/
def touch (r : Report) (c : Category) : Report :=
  if r.categories.contains c.name then r
  else { r with categories := r.categories.insert c.name {} }

/-- Puts the findings of a category in place. -/
def put (r : Report) (c : Category) (f : Findings) : Report :=
  { r with categories := r.categories.insert c.name f }

/-- Adds a message to a category. -/
def add (r : Report) (c : Category) (channel : Channel) (message : String) : Report :=
  r.put c ((r.findings c).add message channel)

/-- The number of errors in all categories. -/
def errorCount (r : Report) : Nat := (r.categories.values.flatMap fun f => f.errors).length

/-- The number of warnings in all categories. -/
def warningCount (r : Report) : Nat := (r.categories.values.flatMap fun f => f.warnings).length

/-- Computes the totals and the verdict. -/
def finalize (r : Report) : Report :=
  { r with ok := r.errorCount == 0, errors := r.errorCount, warnings := r.warningCount }

/-- The counts of one category, as they stand in the summary. -/
def countText (name : String) (f : Findings) : String :=
  name ++ "=" ++ toString f.warnings.length ++ "w/" ++ toString f.notes.length ++ "n"

/-- The summary line. -/
def summary (r : Report) : String :=
  "Validation " ++ (if r.ok then "PASS" else "FAIL") ++ " | errors=" ++ toString r.errors ++
    " warnings=" ++ toString r.warnings ++ " | " ++
    Text.join " " (r.categories.toList.map fun e => countText e.1 e.2)

/-- The report as a document. -/
def toDocument (r : Report) : Document :=
  .object [("ok", .bool r.ok), ("errors", .int (Int.ofNat r.errors)),
    ("warnings", .int (Int.ofNat r.warnings)),
    ("categories", .object (r.categories.toList.map fun e => (e.1, e.2.toDocument)))]

theorem ok_finalize (r : Report) : r.finalize.ok = true ↔ r.errorCount = 0 := by
  simp [finalize]

end Report

end Equilibrium
