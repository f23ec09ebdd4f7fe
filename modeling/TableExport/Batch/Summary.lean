import TableExport.Numeric.Literal

/-!
# Summaries

A summary counts what became of the files of a run.

* `Summary.record` counts one more file.
* `Summary.result` turns a run with failures into an error.
-/

namespace TableExport

/-- What became of a file: it was written, or it held the same content already. -/
inductive WriteStatus
  | written
  | skipped
  deriving DecidableEq

/-- The counts of a run. -/
structure Summary where
  written : Nat := 0
  skipped : Nat := 0
  failed : Nat := 0
  deriving DecidableEq

/-- Some files of a run failed. -/
structure TablesFailed where
  failed : Nat
  total : Nat
  deriving DecidableEq

/-- What is said when files failed. -/
def TablesFailed.message (error : TablesFailed) : String :=
  toString error.failed ++ " of " ++ toString error.total ++ " tables failed to export"

namespace Summary

/-- The number of all files, in 64 bits. -/
def total (summary : Summary) : Nat :=
  (summary.written + summary.skipped + summary.failed) % (Literal.maxCount + 1)

/-- Counts a file. A file that was not to be written is not counted. -/
def record {ε : Type} (summary : Summary) : Except ε (Option WriteStatus) → Summary
  | .ok (some .written) => { summary with written := summary.written + 1 }
  | .ok (some .skipped) => { summary with skipped := summary.skipped + 1 }
  | .ok none => summary
  | .error _ => { summary with failed := summary.failed + 1 }

/-- The summary of a run without failures. -/
def result (summary : Summary) : Except TablesFailed Summary :=
  if summary.failed = 0 then .ok summary else .error ⟨summary.failed, summary.total⟩

end Summary

end TableExport
