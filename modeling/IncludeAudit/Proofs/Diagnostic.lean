import IncludeAudit.Diagnostic.Log

/-!
# Diagnostics by their codes

What is said of the diagnostics of a log is said of those with one code at a time. `withCode` picks
them, in order, and the lemmas tell it of two logs and of logs all of whose codes are known.
-/

namespace IncludeAudit.DiagnosticLog

variable {log : DiagnosticLog} {code : String}

/-- The diagnostics with a code. -/
def withCode (log : DiagnosticLog) (code : String) : DiagnosticLog :=
  log.filter (·.code == some code)

theorem withCode_append (log log' : DiagnosticLog) (code : String) :
    withCode (log ++ log') code = withCode log code ++ withCode log' code :=
  List.filter_append ..

theorem withCode_eq_self (h : ∀ d ∈ log, d.code = some code) : log.withCode code = log :=
  List.filter_eq_self.2 fun d hd => beq_iff_eq.2 (h d hd)

theorem withCode_eq_nil : log.withCode code = [] ↔ ∀ d ∈ log, d.code ≠ some code := by
  simp only [withCode, List.filter_eq_nil_iff, beq_iff_eq]

end IncludeAudit.DiagnosticLog
