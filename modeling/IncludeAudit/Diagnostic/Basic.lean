import IncludeAudit.FileName.Basic

/-!
# Diagnostics

Findings that do not stop an analysis. A diagnostic may be about a file and a line (0 if unknown)
and may have a stable code. Each finding of the analysis has a constructor function here, which
fixes its code and its wording.
-/

namespace IncludeAudit

/-- How grave a diagnostic is. -/
inductive Severity where
  | error
  | warning
  | info
  deriving DecidableEq, Repr

/-- A further place that a diagnostic points to. -/
structure RelatedPlace where
  file : FileName
  line : Nat
  message : String
  deriving DecidableEq, Repr

/-- One finding. -/
structure Diagnostic where
  severity : Severity
  message : String
  file : Option FileName := none
  line : Nat := 0
  code : Option String := none
  related : List RelatedPlace := []
  deriving DecidableEq, Repr

/-- Files joined by arrows, as a path of includes is shown. -/
def showIncludePath (files : List FileName) : String :=
  " -> ".intercalate (files.map FileName.text)

namespace Diagnostic

/-- The place, the code and the message, each of the first two only if there is one. -/
def text (d : Diagnostic) : String :=
  let place := match d.file with
    | some f => f.path ++ ":" ++ toString d.line ++ ": "
    | none => ""
  let code := match d.code with
    | some c => "[" ++ c ++ "] "
    | none => ""
  place ++ code ++ d.message

/-- A warning with a code about a line of a file. -/
def warningAt (file : FileName) (line : Nat) (code message : String) : Diagnostic :=
  { severity := .warning, message, file := some file, line, code := some code }

/-- A pattern that does not compile, so that its entry is skipped. -/
def unresolvablePattern (pattern reason : String) : Diagnostic :=
  { severity := .warning
    code := some "W0001"
    message := "skipping mapping entry: cannot compile pattern '" ++ pattern ++ "': " ++ reason }

/-- A private header that nothing public replaces. -/
def noPublicHeader (header : FileName) : Diagnostic :=
  warningAt header 0 "W0002"
    ("no public header found to replace the private header " ++ header.text)

/-- A symbol whose provider the file does not include itself. -/
def notDirectlyIncluded (file : FileName) (line : Nat) (symbol : String) (provider : FileName) :
    Diagnostic :=
  warningAt file line "W0003"
    (symbol ++ " is defined in " ++ provider.text ++ ", which isn't directly #included")

/-- A symbol that nothing declares. -/
def needsDeclaration (file : FileName) (line : Nat) (symbol : String) : Diagnostic :=
  warningAt file line "W0004"
    (symbol ++ " needs a declaration, but does not provide or directly #include one")

/-- An include cycle that the policy ignores. -/
def cycleIgnored (file : FileName) (cycle : List FileName) : Diagnostic :=
  warningAt file 0 "W0005" ("ignoring include cycle: " ++ showIncludePath cycle)

/-- An export region that is not opened and closed in turn. -/
def unbalancedExports (file : FileName) (line : Nat) (what : String) : Diagnostic :=
  warningAt file line "W0006" ("unbalanced export region: " ++ what)

end Diagnostic

end IncludeAudit
