import IncludeAudit.Diagnostic.Basic

/-!
# Diagnostic logs

The diagnostics of a run in the order in which they arose.
-/

namespace IncludeAudit

/-- Diagnostics in the order in which they arose. -/
abbrev DiagnosticLog := List Diagnostic

namespace DiagnosticLog

/-- The diagnostics about a file. -/
def forFile (log : DiagnosticLog) (f : FileName) : DiagnosticLog :=
  log.filter (·.file == some f)

/-- The number of warnings. -/
def warningCount (log : DiagnosticLog) : Nat :=
  log.countP (·.severity == .warning)

end DiagnosticLog

end IncludeAudit
