import IncludeAudit.Decision.Finalize
import IncludeAudit.Session.Basic

/-!
# Finishing sessions

A session is finished once. It then reports on its main file, on the headers associated with it, and
on the further files that the policy asks for. The associated headers are decided first, since the
main file relies on what they include.

A step that fails still leaves a session behind, with what was done before the failure; so each step
gives a result and a session.
-/

namespace IncludeAudit

/-- What was decided on one compilation unit. -/
structure SessionReport where
  mainFile : FileName
  /-- The main file, its associated headers, then further files. -/
  files : List FileReport
  /-- Diagnostics that belong to no report. -/
  diagnostics : DiagnosticLog
  deriving DecidableEq, Repr

namespace SessionReport

/-- The place of the main file among the reports. -/
def mainIndex? (r : SessionReport) : Option Nat :=
  r.files.findIdx? (·.file == r.mainFile)

/-- The diagnostics of the session and of all reports. -/
def allDiagnostics (r : SessionReport) : DiagnosticLog :=
  r.diagnostics ++ r.files.flatMap (·.diagnostics)

end SessionReport

/-- The headers on which the report of a file relies. -/
structure Reliance where
  associated : List FileName := []
  associatedIncludes : OrderedSet FileName := {}
  precompiled : Option FileName := none

namespace Session

/-! ## Which files are reported -/

/-- True of a header that belongs to a source file by its name. -/
def belongsByName (main header : FileName) : Bool :=
  header.isHeader && !header.isInlineDefinitions
    && (header.canonical == main.canonical || header.canonicalBaseName == main.canonicalBaseName)

/-- The headers associated with the main file: those with a pragma and, for a source file, the first
that belongs to it by its name. -/
def associatedHeaders (s : Session) : List FileName :=
  let main := s.recordOf s.mainFile
  let marked := main.pragmas.associated
  if s.mainFile.isHeader then marked.toList
  else
    match (main.includes.map (·.included)).find? (belongsByName s.mainFile) with
    | some header => (marked.insert header).toList
    | none => marked.toList

/-- The further files on which the policy asks for reports. -/
def extraFiles (s : Session) : List FileName :=
  s.graph.files.toList.filter fun f =>
    f != s.mainFile && !s.associatedHeaders.contains f && s.checkAlso.accepts f

/-- The precompiled header of the main file: its first include, if the policy says so. -/
def precompiledHeader? (s : Session) : Option FileName :=
  if s.environment.policy.pchInCode then
    (s.recordOf s.mainFile).includes.head?.map (·.included)
  else none

/-! ## One file -/

/-- Looks for an include cycle through a file, which is fatal or reported. -/
def checkCycle (s : Session) (f : FileName) : Except AnalysisError Session :=
  match s.graph.findCycle f with
  | none => .ok s
  | some cycle =>
    if s.environment.policy.ignoreCycles then .ok (s.report (.cycleIgnored f cycle))
    else .error (.includeCycle f cycle)

/-- Classifies and attributes uses and adds them to a record, up to the first error. -/
def resolveUses (env : Environment) (t : SymbolTable) (reach : Reachability) :
    List Use → Attributor → FileRecord → Except AnalysisError Unit × Attributor × FileRecord
  | [], a, r => (.ok (), a, r)
  | u :: us, a, r =>
    match (t.find? u.symbol).bind (classify env.policy env.oracle u) with
    | none => resolveUses env t reach us a r
    | some verdict =>
      match a.answer t reach u env.policy.usingIsAUse with
      | (.error e, a) => (.error e, a, r)
      | (.ok attribution, a) =>
        match r.addResolved ⟨u, verdict, attribution⟩ with
        | .error e => (.error e, a, r)
        | .ok r => resolveUses env t reach us a r

/-- Resolves the uses of a file with the given distances. -/
def resolveWith (s : Session) (reach : Reachability) (f : FileName) :
    Except AnalysisError Unit × Session :=
  match (s.recordOf f).transition .resolving with
  | .error e => (.error e, s)
  | .ok r =>
    let (result, attributor, r) := resolveUses s.environment s.table reach r.uses s.attributor r
    (result, { s with attributor }.putRecord f r)

/-- Resolves the uses of a file, with the distances from it. -/
def resolve (s : Session) (f : FileName) : Except AnalysisError Unit × Session :=
  s.resolveWith (DistanceMap.ofGraph s.graph f).distance f

/-- What the report of a file depends on beside its record. -/
def context (s : Session) (on : Reliance) : DecisionContext where
  table := s.table
  graph := s.graph
  providers := ⟨s.environment.providers, s.overlay⟩
  policy := s.environment.policy
  keepGlobs := s.keepGlobs
  associated := on.associated
  associatedIncludes := on.associatedIncludes
  precompiled := on.precompiled

/-- Makes the report of a file. -/
def finalizeFile (s : Session) (on : Reliance) (f : FileName) :
    Except AnalysisError FileReport × Session :=
  match s.checkCycle f with
  | .error e => (.error e, s)
  | .ok s =>
    match s.resolve f with
    | (.error e, s) => (.error e, s)
    | (.ok (), s) =>
      match s.record? f with
      | .error e => (.error e, s)
      | .ok r =>
        match finalize (s.context on) r with
        | .error e => (.error e, s)
        | .ok (report, r) => (.ok report, s.putRecord f r)

/-- Makes the reports of files that rely on no other, up to the first error. -/
def finalizeFiles (s : Session) : List FileName → Except AnalysisError (List FileReport) × Session
  | [] => (.ok [], s)
  | f :: fs =>
    match s.finalizeFile {} f with
    | (.error e, s) => (.error e, s)
    | (.ok report, s) =>
      match s.finalizeFiles fs with
      | (.error e, s) => (.error e, s)
      | (.ok reports, s) => (.ok (report :: reports), s)

/-! ## The whole session -/

/-- Reports the export regions that are still open. -/
def closeExports (s : Session) : Session :=
  { s with
    openExports := {}
    log := s.log ++ s.openExports.entries.map fun (f, line) =>
      .unbalancedExports f line "begin_exports without end_exports" }

/-- What the report of the main file relies on. -/
def mainReliance (s : Session) (associated : List FileName) (reports : List FileReport) :
    Reliance where
  associated := associated
  associatedIncludes := .ofList (reports.flatMap (·.fullIncludes))
  precompiled := s.precompiledHeader?

/-- Makes all reports of a session that counts as finished. -/
def makeReports (s : Session) : Except AnalysisError (List FileReport) × Session :=
  let associated := s.associatedHeaders
  let extra := s.extraFiles
  match s.finalizeFiles associated with
  | (.error e, s) => (.error e, s)
  | (.ok associatedReports, s) =>
    match s.finalizeFile (s.mainReliance associated associatedReports) s.mainFile with
    | (.error e, s) => (.error e, s)
    | (.ok mainReport, s) =>
      match s.finalizeFiles extra with
      | (.error e, s) => (.error e, s)
      | (.ok extraReports, s) => (.ok (mainReport :: associatedReports ++ extraReports), s)

/-- Finishes a session: the report or the first error, and the session afterwards. -/
def finish (s : Session) : Except AnalysisError SessionReport × Session :=
  if s.finished then (.error (.invalidTransition s.mainFile .finalized .finalized), s)
  else
    match { s with finished := true }.closeExports.makeReports with
    | (.error e, s) => (.error e, s)
    | (.ok files, s) => (.ok ⟨s.mainFile, files, s.log⟩, { s with log := [] })

/-- The session in brief. -/
def describe (s : Session) : String :=
  "AnalysisSession \x7b main_file: " ++ s.mainFile.text ++ ", files: " ++ toString s.files.size
    ++ ", symbols: " ++ toString s.table.symbolCount ++ ", finished: " ++ toString s.finished
    ++ " \x7d"

end Session

end IncludeAudit
