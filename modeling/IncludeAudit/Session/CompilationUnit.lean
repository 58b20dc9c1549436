import IncludeAudit.Session.Finish

/-!
# Compilation units

A compilation unit as the list of its facts, and the analysis of many at once. Each unit has a
session of its own, so the failure of one does not touch the others.
-/

namespace IncludeAudit

/-- A main file and the facts of its compilation unit. -/
structure CompilationUnit where
  mainFile : FileName
  events : List Event

namespace CompilationUnit

/-- Analyzes the unit in a session of its own. -/
def analyze (env : Environment) (u : CompilationUnit) : Except AnalysisError SessionReport :=
  match (Session.start env u.mainFile).takeAll u.events with
  | .error e => .error e
  | .ok s => s.finish.1

/-- Analyzes units, one result for each. -/
def analyzeAll (env : Environment) (units : List CompilationUnit) :
    List (Except AnalysisError SessionReport) :=
  units.map (analyze env)

end CompilationUnit

end IncludeAudit
