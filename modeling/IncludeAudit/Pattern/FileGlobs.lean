import IncludeAudit.Diagnostic.Log
import IncludeAudit.Pattern.Basic

/-!
# Lists of globs over paths

A list of globs selects the files whose path, without its delimiters, one of them matches. Globs
that the engine cannot read are reported and left out.
-/

namespace IncludeAudit

/-- A choice of files by their paths. -/
structure FileGlobs where
  /-- The paths that each glob admits. -/
  globs : List (String → Bool)

namespace FileGlobs

/-- The choice of no file. -/
def none : FileGlobs :=
  ⟨[]⟩

/-- Reads the sources, with a diagnostic for each that is no glob. -/
def compile (engine : PatternEngine) : List String → FileGlobs × DiagnosticLog
  | [] => (none, [])
  | source :: sources =>
    let (rest, log) := compile engine sources
    match engine.readGlob source with
    | .ok admits => (⟨admits :: rest.globs⟩, log)
    | .error e => (rest, .unresolvablePattern source e.reason :: log)

/-- True if one of the globs matches the path. -/
def accepts (globs : FileGlobs) (f : FileName) : Bool :=
  globs.globs.any fun admits => admits f.path

/-- True if there is no glob at all. -/
def isEmpty (globs : FileGlobs) : Bool :=
  globs.globs.isEmpty

end FileGlobs

end IncludeAudit
