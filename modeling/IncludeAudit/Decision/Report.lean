import IncludeAudit.Diagnostic.Log
import IncludeAudit.Line.Basic
import IncludeAudit.Use.Classification

/-!
# Reports

What a file should include and declare, and why: the lines to add, the lines to remove, the full
list, and one outcome for each use that needs something.
-/

namespace IncludeAudit

/-- Why a use needs nothing. -/
inductive IgnoreReason where
  /-- The file defines the symbol before the use. -/
  | definedEarlierInFile
  /-- A class inside another, which cannot be declared on its own. -/
  | nestedClass
  | definedInFile
  | builtin
  /-- The declaring file includes this one. -/
  | backwardsInclude
  /-- The policy bans what the file does not reach. -/
  | outsideTransitiveClosure
  /-- Another use of the symbol needs its definition. -/
  | coveredByFullUse
  /-- All providers are source files or banned. -/
  | noUsableProvider
  deriving DecidableEq, Repr

/-- The reason's name. -/
def IgnoreReason.describe : IgnoreReason → String
  | definedEarlierInFile => "DefinedEarlierInFile"
  | nestedClass => "NestedClass"
  | definedInFile => "DefinedInFile"
  | builtin => "Builtin"
  | backwardsInclude => "BackwardsInclude"
  | outsideTransitiveClosure => "OutsideTransitiveClosure"
  | coveredByFullUse => "CoveredByFullUse"
  | noUsableProvider => "NoUsableProvider"

/-- How a use is satisfied. -/
inductive UseStatus where
  | ignored (reason : IgnoreReason)
  /-- By the file itself. -/
  | selfProvided
  /-- By an include of an associated header. -/
  | viaAssociated (file : FileName)
  /-- By an include of the file, present or proposed. -/
  | included (file : FileName)
  /-- By a declaration in the file, present or proposed. -/
  | forwardDeclared
  /-- Not at all: nothing declares the symbol. -/
  | noDeclaration
  deriving DecidableEq, Repr

/-- What was decided on a use. -/
structure UseOutcome where
  symbol : SymbolKey
  line : Nat
  kind : UseKind
  /-- The rule that classified the use. -/
  rule : String
  attributed : Option FileName
  status : UseStatus
  deriving DecidableEq, Repr

/-- What was decided on a file. -/
structure FileReport where
  file : FileName
  /-- The lines to add, in writing order. -/
  add : List OutputLine
  /-- The lines to remove, as they stand in the file. -/
  remove : List OutputLine
  /-- The lines that the file should have, in writing order. -/
  full : List OutputLine
  uses : List UseOutcome
  diagnostics : DiagnosticLog
  deriving DecidableEq, Repr

namespace FileReport

/-- True if nothing has to change. -/
def isClean (r : FileReport) : Bool :=
  r.add.isEmpty && r.remove.isEmpty

/-- The files that a list of lines includes. -/
def includesOf (lines : List OutputLine) : List FileName :=
  lines.filterMap (·.included?)

/-- The texts of the declarations among a list of lines. -/
def declarationsOf (lines : List OutputLine) : List String :=
  (lines.filter (·.isDeclaration)).map (·.text)

/-- The includes that the file should have. -/
def fullIncludes (r : FileReport) : List FileName :=
  includesOf r.full

end FileReport

end IncludeAudit
