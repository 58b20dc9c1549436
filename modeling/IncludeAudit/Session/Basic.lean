import IncludeAudit.Decision.Context
import IncludeAudit.Graph.IncludeGraph

/-!
# Sessions

A session takes the facts of one compilation unit as they are found: includes, declarations, traits,
uses and pragmas. It keeps one record for each file of which something is known. No fact is taken
after the session is finished, and no file is entered twice.
-/

namespace IncludeAudit

/-- What all sessions of a run share. -/
structure Environment where
  providers : ProviderMap
  policy : Policy
  oracle : CompletenessOracle
  /-- What reads the globs of the policy and the patterns of friend pragmas. -/
  patterns : PatternEngine

/-- One fact about a compilation unit. -/
inductive Event where
  /-- A file other than the main file is entered. -/
  | enter (file : FileName)
  | directive (d : IncludeDirective)
  | declaration (d : Declaration)
  | pragma (p : PragmaNote)
  | traits (symbol : SymbolKey) (facts : SymbolTraits)
  | use (u : Use)

/-- What is known of one compilation unit. -/
structure Session where
  environment : Environment
  mainFile : FileName
  table : SymbolTable
  graph : IncludeGraph := {}
  overlay : Overlay := {}
  attributor : Attributor := {}
  files : OrderedMap FileName FileRecord
  /-- The files that were entered. -/
  visited : OrderedSet FileName
  /-- Files with an open export region and the line where it begins. -/
  openExports : OrderedMap FileName Nat := {}
  keepGlobs : FileGlobs
  checkAlso : FileGlobs
  log : DiagnosticLog
  finished : Bool := false

namespace Session

/-- The session of a compilation unit, whose main file counts as entered. -/
def start (environment : Environment) (mainFile : FileName) : Session :=
  let (keepGlobs, keepLog) := environment.policy.keepGlobs environment.patterns
  let (checkAlso, checkLog) := environment.policy.checkAlsoGlobs environment.patterns
  { environment, mainFile, keepGlobs, checkAlso
    table := .empty environment.policy.systemNamespaces
    files := OrderedMap.empty.set mainFile (.ofFile mainFile)
    visited := OrderedSet.empty.insert mainFile
    log := keepLog ++ checkLog }

/-- The record of a file, if anything is known of it. -/
def record? (s : Session) (f : FileName) : Except AnalysisError FileRecord :=
  match s.files.find? f with
  | some r => .ok r
  | none => .error (.unknownFile f)

/-- The record of a file, new if nothing is known of it. -/
def recordOf (s : Session) (f : FileName) : FileRecord :=
  (s.files.find? f).getD (.ofFile f)

/-- The session with another record of a file. -/
def putRecord (s : Session) (f : FileName) (r : FileRecord) : Session :=
  { s with files := s.files.set f r }

/-- Changes the record of a file. -/
def updateRecord (s : Session) (f : FileName)
    (change : FileRecord → Except AnalysisError FileRecord) : Except AnalysisError Session :=
  (change (s.recordOf f)).map (s.putRecord f)

/-- Goes on with a session that is not finished. -/
def whenOpen (s : Session) (next : Except AnalysisError Session) : Except AnalysisError Session :=
  if s.finished then .error (.invalidTransition s.mainFile .finalized .collecting) else next

/-! ## Facts -/

/-- A file is entered. -/
def enter (s : Session) (f : FileName) : Except AnalysisError Session :=
  s.whenOpen <|
    if f ∈ s.visited then .error (.alreadyAnalyzed f)
    else .ok ({ s with visited := s.visited.insert f }.putRecord f (s.recordOf f))

/-- True of an include that its file re-exports. -/
def isReexported (s : Session) (d : IncludeDirective) : Bool :=
  d.isReexport || s.openExports.contains d.includer

/-- An include directive. -/
def recordInclude (s : Session) (d : IncludeDirective) : Except AnalysisError Session :=
  s.whenOpen <| do
    let seen := { s with
      graph := s.graph.add d
      overlay := s.overlay.observeInclude d.includer d.included }
    let s' ← seen.updateRecord d.includer (·.recordInclude d)
    if s.isReexported d then
      let s' ← s'.updateRecord d.includer (·.markExported d.included)
      return { s' with overlay := s'.overlay.addExport d.included d.includer }
    else return s'

/-- A declaration. One that declares a symbol by hand also belongs to the lines of its file. -/
def recordDeclaration (s : Session) (d : Declaration) : Except AnalysisError Session :=
  s.whenOpen <|
    let id := s.table.declarationCount
    let s := { s with table := s.table.declare d }
    if d.isForward then s.updateRecord d.file (·.recordForwardDecl id) else .ok s

/-- Facts about a symbol. -/
def recordTraits (s : Session) (k : SymbolKey) (facts : SymbolTraits) :
    Except AnalysisError Session :=
  s.whenOpen <| .ok { s with table := s.table.addTraits k facts }

/-- A use. -/
def recordUse (s : Session) (u : Use) : Except AnalysisError Session :=
  s.whenOpen <|
    { s with table := s.table.intern u.symbol }.updateRecord u.referencingFile (·.recordUse u)

/-- The session with a further diagnostic. -/
def report (s : Session) (d : Diagnostic) : Session :=
  { s with log := s.log ++ [d] }

/-- The beginning of an export region, which must not be in one. -/
def beginExports (s : Session) (f : FileName) (line : Nat) : Session :=
  if s.openExports.contains f then
    s.report (.unbalancedExports f line "begin_exports inside an open region")
  else { s with openExports := s.openExports.set f line }

/-- The end of an export region, which has to be open. -/
def endExports (s : Session) (f : FileName) (line : Nat) : Session :=
  if s.openExports.contains f then { s with openExports := s.openExports.erase f }
  else s.report (.unbalancedExports f line "end_exports without begin_exports")

/-- A rule on who may include a private file. One that cannot be read is reported. -/
def addFriend (s : Session) (f : FileName) (pattern : String) : Session :=
  match s.overlay.addFriend s.environment.patterns f pattern with
  | .ok overlay => { s with overlay }
  | .error e => s.report (.unresolvablePattern pattern e.message)

/-- A pragma that concerns its file. -/
def recordPragma (s : Session) (p : PragmaNote) : Except AnalysisError Session :=
  s.whenOpen <|
    match p.pragma with
    | .privateFile replacement =>
      { s with overlay := s.overlay.markPrivate p.file replacement }.updateRecord p.file
        (·.markPrivate)
    | .beginExports => .ok (s.beginExports p.file p.line)
    | .endExports => .ok (s.endExports p.file p.line)
    | .alwaysKeep => .ok { s with overlay := s.overlay.markAlwaysKeep p.file }
    | .friend pattern => .ok (s.addFriend p.file pattern)
    | .noInclude f => s.updateRecord p.file (·.addNoInclude f)
    | .noForwardDeclare symbol => s.updateRecord p.file (·.addNoForwardDeclare symbol)

/-- Takes one fact. -/
def take (s : Session) : Event → Except AnalysisError Session
  | .enter f => s.enter f
  | .directive d => s.recordInclude d
  | .declaration d => s.recordDeclaration d
  | .pragma p => s.recordPragma p
  | .traits k facts => s.recordTraits k facts
  | .use u => s.recordUse u

/-- Takes facts in order, up to the first that is refused. -/
def takeAll (s : Session) : List Event → Except AnalysisError Session
  | [] => .ok s
  | e :: es =>
    match s.take e with
    | .ok s => s.takeAll es
    | .error err => .error err

end Session

end IncludeAudit
