import IncludeAudit.Diagnostic.Basic

/-!
# Fatal errors

What stops the analysis of a compilation unit, with its wording and its form as a diagnostic. The
life of a file record, whose order an error may break, is here too.
-/

namespace IncludeAudit

/-- The life of a file record. -/
inductive FileState where
  /-- Includes, declarations and uses come in. -/
  | collecting
  /-- Uses are classified and attributed. -/
  | resolving
  /-- The report is made. -/
  | finalized
  deriving DecidableEq, Repr

namespace FileState

/-- The state that follows, if one does. -/
def next? : FileState → Option FileState
  | collecting => some resolving
  | resolving => some finalized
  | finalized => none

/-- The state's name. -/
def describe : FileState → String
  | collecting => "Collecting"
  | resolving => "Resolving"
  | finalized => "Finalized"

end FileState

/-- What stops an analysis. -/
inductive AnalysisError where
  /-- A reported file includes itself through others. -/
  | includeCycle (file : FileName) (cycle : List FileName)
  /-- Two files define one specialization by explicit instantiation. -/
  | doubleInstantiation (symbol specialization : String) (first second : FileName)
  /-- A step of the life of a file record out of order. -/
  | invalidTransition (file : FileName) (source target : FileState)
  /-- A file is entered a second time. -/
  | alreadyAnalyzed (file : FileName)
  /-- Nothing was recorded of the file. -/
  | unknownFile (file : FileName)
  deriving DecidableEq, Repr

namespace AnalysisError

/-- The error in words. -/
def message : AnalysisError → String
  | includeCycle file cycle => "include cycle in " ++ file.text ++ ": " ++ showIncludePath cycle
  | doubleInstantiation symbol specialization first second =>
    "explicit instantiation of " ++ symbol ++ "<" ++ specialization ++ "> attempted twice (in "
      ++ first.text ++ " and " ++ second.text ++ ")"
  | invalidTransition file source target =>
    "invalid transition for " ++ file.text ++ ": " ++ source.describe ++ " -> " ++ target.describe
  | alreadyAnalyzed file => file.text ++ " was already analyzed in this session"
  | unknownFile file => "unknown file: " ++ file.text

/-- The file that the error is about. -/
def file : AnalysisError → FileName
  | includeCycle file _ => file
  | doubleInstantiation _ _ _ second => second
  | invalidTransition file _ _ => file
  | alreadyAnalyzed file => file
  | unknownFile file => file

/-- The code of the error, for the two kinds that have one. -/
def code? : AnalysisError → Option String
  | includeCycle .. => some "E0001"
  | doubleInstantiation .. => some "E0002"
  | _ => none

/-- The error as a diagnostic of its file. -/
def toDiagnostic (e : AnalysisError) : Diagnostic :=
  { severity := .error, message := e.message, file := some e.file, code := e.code? }

end AnalysisError

end IncludeAudit
