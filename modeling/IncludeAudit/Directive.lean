import IncludeAudit.Position

/-!
# Include directives and pragmas

An include directive may carry a pragma of its own. Other pragmas concern the file in which they
stand.
-/

namespace IncludeAudit

/-- A pragma on the line of an include directive. -/
inductive IncludePragma where
  /-- The include is never removed. -/
  | keep
  /-- The includer provides all that the included file provides. -/
  | reexport
  /-- The included file is the header that belongs to the includer. -/
  | associated
  deriving DecidableEq, Repr

/-- One include directive. -/
structure IncludeDirective where
  includer : FileName
  included : FileName
  lines : LineSpan
  pragma : Option IncludePragma := none
  deriving DecidableEq, Repr

namespace IncludeDirective

/-- True of a directive with the keep pragma. -/
def isKeep (d : IncludeDirective) : Bool :=
  d.pragma == some .keep

/-- True of a directive with the export pragma. -/
def isReexport (d : IncludeDirective) : Bool :=
  d.pragma == some .reexport

end IncludeDirective

/-- A pragma that concerns the file in which it stands. -/
inductive FilePragma where
  /-- The file must not be included directly, but `replacement` in its place. -/
  | privateFile (replacement : Option FileName)
  /-- The includes from here on are re-exported. -/
  | beginExports
  | endExports
  /-- Every includer keeps the file. -/
  | alwaysKeep
  /-- The includers that match the pattern may include this private file. -/
  | friend (pattern : String)
  /-- An include of the file is never proposed. -/
  | noInclude (file : FileName)
  /-- The symbol is never declared here. -/
  | noForwardDeclare (symbol : String)
  deriving DecidableEq, Repr

/-- A file pragma and where it stands. -/
structure PragmaNote where
  file : FileName
  line : Nat
  pragma : FilePragma
  deriving DecidableEq, Repr

end IncludeAudit
