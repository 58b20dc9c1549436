import IncludeAudit.Session.Finish

/-!
# Calls

A session is driven by calls: one for each fact, and one that finishes it. It may be called again
after a call that was refused. A fact is taken part by part, what concerns the whole compilation
unit before what concerns one file, and what was done before a part that is refused stays. So each
call gives a result and a session, whereas `take` gives no session when it is refused.
-/

namespace IncludeAudit

/-- What a session is asked to do. -/
inductive Call where
  /-- To take a fact. -/
  | fact (e : Event)
  /-- To make the reports. -/
  | finish

namespace Session

/-- Changes the record of a file. If the record refuses the change, it stays as it is. -/
def changeRecord (s : Session) (f : FileName)
    (change : FileRecord → Except AnalysisError FileRecord) : Except AnalysisError Unit × Session :=
  match change (s.recordOf f) with
  | .ok r => (.ok (), s.putRecord f r)
  | .error e => (.error e, s)

/-- An include directive: the graph and the overlay, then the record of the file, then the export
of the include. -/
def offerInclude (s : Session) (d : IncludeDirective) : Except AnalysisError Unit × Session :=
  let seen := { s with
    graph := s.graph.add d
    overlay := s.overlay.observeInclude d.includer d.included }
  match seen.changeRecord d.includer (·.recordInclude d) with
  | (.error e, s') => (.error e, s')
  | (.ok (), s') =>
    if s.isReexported d then
      match s'.changeRecord d.includer (·.markExported d.included) with
      | (.error e, s') => (.error e, s')
      | (.ok (), s') => (.ok (), { s' with overlay := s'.overlay.addExport d.included d.includer })
    else (.ok (), s')

/-- A declaration: the table, then the record of the file if the declaration is written by hand. -/
def offerDeclaration (s : Session) (d : Declaration) : Except AnalysisError Unit × Session :=
  let declared := { s with table := s.table.declare d }
  if d.isForward then
    declared.changeRecord d.file (·.recordForwardDecl s.table.declarationCount)
  else (.ok (), declared)

/-- A pragma that concerns its file. -/
def offerPragma (s : Session) (p : PragmaNote) : Except AnalysisError Unit × Session :=
  match p.pragma with
  | .privateFile replacement =>
    { s with overlay := s.overlay.markPrivate p.file replacement }.changeRecord p.file
      (·.markPrivate)
  | .beginExports => (.ok (), s.beginExports p.file p.line)
  | .endExports => (.ok (), s.endExports p.file p.line)
  | .alwaysKeep => (.ok (), { s with overlay := s.overlay.markAlwaysKeep p.file })
  | .friend pattern => (.ok (), s.addFriend p.file pattern)
  | .noInclude f => s.changeRecord p.file (·.addNoInclude f)
  | .noForwardDeclare symbol => s.changeRecord p.file (·.addNoForwardDeclare symbol)

/-- Takes a fact, unless the session is finished. -/
def offer (s : Session) (e : Event) : Except AnalysisError Unit × Session :=
  if s.finished then (.error (.invalidTransition s.mainFile .finalized .collecting), s)
  else
    match e with
    | .enter f =>
      if f ∈ s.visited then (.error (.alreadyAnalyzed f), s)
      else (.ok (), { s with visited := s.visited.insert f }.putRecord f (s.recordOf f))
    | .directive d => s.offerInclude d
    | .declaration d => s.offerDeclaration d
    | .pragma p => s.offerPragma p
    | .traits k facts => (.ok (), { s with table := s.table.addTraits k facts })
    | .use u =>
      { s with table := s.table.intern u.symbol }.changeRecord u.referencingFile (·.recordUse u)

/-- Does what it is asked to do. Only the call that finishes a session gives a report. -/
def call (s : Session) : Call → Except AnalysisError (Option SessionReport) × Session
  | .fact e =>
    match s.offer e with
    | (result, s) => (result.map fun _ => none, s)
  | .finish =>
    match s.finish with
    | (result, s) => (result.map some, s)

/-- The session after calls. -/
def afterCalls (s : Session) (calls : List Call) : Session :=
  calls.foldl (fun s c => (s.call c).2) s

/-- The session after facts, of which those that are refused are passed over. -/
def afterFacts (s : Session) (es : List Event) : Session :=
  s.afterCalls (es.map .fact)

end Session

end IncludeAudit
