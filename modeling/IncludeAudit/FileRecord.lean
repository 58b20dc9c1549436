import IncludeAudit.Diagnostic.AnalysisError
import IncludeAudit.Directive
import IncludeAudit.Ordered.Map
import IncludeAudit.Ordered.Set
import IncludeAudit.Symbol.Table
import IncludeAudit.Use.Attribution
import IncludeAudit.Use.Classification

/-!
# File records

What is known of one file of a compilation unit. A record is first collecting, then resolving, then
finalized, and never goes back: includes, declarations, uses and pragmas are only taken while it is
collecting, and resolved uses only while it is resolving.
-/

namespace IncludeAudit

/-- The pragmas that concern one file. -/
structure FilePragmas where
  /-- Includes with the keep pragma. -/
  keep : OrderedSet FileName := {}
  /-- Includes with the export pragma or in an export region. -/
  exported : OrderedSet FileName := {}
  /-- Includes with the associated pragma. -/
  associated : OrderedSet FileName := {}
  /-- Files whose include is never proposed. -/
  noInclude : OrderedSet FileName := {}
  /-- Symbols that are never declared here. -/
  noForwardDeclare : OrderedSet String := {}
  isPrivate : Bool := false

/-- A use with what it needs and where that is. -/
structure ResolvedUse where
  use : Use
  verdict : Verdict
  attribution : Option Attribution

/-- What is known of one file. -/
structure FileRecord where
  file : FileName
  state : FileState := .collecting
  /-- The include directives, as they stand in the file. -/
  includes : List IncludeDirective := []
  /-- The forward declarations, as they stand in the file. -/
  forwardDecls : List DeclId := []
  uses : List Use := []
  resolved : List ResolvedUse := []
  pragmas : FilePragmas := {}

namespace FileRecord

/-- The record of a file of which nothing is known. -/
def ofFile (f : FileName) : FileRecord :=
  { file := f }

/-- The included files, each once. -/
def present (r : FileRecord) : OrderedSet FileName :=
  .ofList (r.includes.map (·.included))

/-! ## Recording -/

/-- Changes a record that is in the given state. -/
def whenIn (r : FileRecord) (state : FileState) (change : FileRecord → FileRecord) :
    Except AnalysisError FileRecord :=
  if r.state = state then .ok (change r) else .error (.invalidTransition r.file r.state state)

/-- Changes a record that is collecting. -/
def collect (r : FileRecord) (change : FileRecord → FileRecord) : Except AnalysisError FileRecord :=
  r.whenIn .collecting change

/-- The pragmas after an include with a pragma of its own. -/
def pragmasAfter (d : IncludeDirective) (p : FilePragmas) : FilePragmas :=
  match d.pragma with
  | some .keep => { p with keep := p.keep.insert d.included }
  | some .reexport => { p with exported := p.exported.insert d.included }
  | some .associated => { p with associated := p.associated.insert d.included }
  | none => p

/-- An include directive. -/
def recordInclude (r : FileRecord) (d : IncludeDirective) : Except AnalysisError FileRecord :=
  r.collect fun r => { r with includes := r.includes ++ [d], pragmas := pragmasAfter d r.pragmas }

/-- An include in an export region. -/
def markExported (r : FileRecord) (f : FileName) : Except AnalysisError FileRecord :=
  r.collect fun r =>
    { r with pragmas := { r.pragmas with exported := r.pragmas.exported.insert f } }

/-- A forward declaration. -/
def recordForwardDecl (r : FileRecord) (id : DeclId) : Except AnalysisError FileRecord :=
  r.collect fun r => { r with forwardDecls := r.forwardDecls ++ [id] }

/-- A use. -/
def recordUse (r : FileRecord) (u : Use) : Except AnalysisError FileRecord :=
  r.collect fun r => { r with uses := r.uses ++ [u] }

/-- A file whose include is never proposed. -/
def addNoInclude (r : FileRecord) (f : FileName) : Except AnalysisError FileRecord :=
  r.collect fun r =>
    { r with pragmas := { r.pragmas with noInclude := r.pragmas.noInclude.insert f } }

/-- A symbol that is never declared here. Its name may begin with `::`. -/
def addNoForwardDeclare (r : FileRecord) (symbol : String) : Except AnalysisError FileRecord :=
  r.collect fun r =>
    let banned := r.pragmas.noForwardDeclare.insert (SymbolKey.dropGlobalScope symbol)
    { r with pragmas := { r.pragmas with noForwardDeclare := banned } }

/-- The file says that it is private. -/
def markPrivate (r : FileRecord) : Except AnalysisError FileRecord :=
  r.collect fun r => { r with pragmas := { r.pragmas with isPrivate := true } }

/-! ## Later states -/

/-- Moves to the next state, and to no other. -/
def transition (r : FileRecord) (target : FileState) : Except AnalysisError FileRecord :=
  if r.state.next? = some target then .ok { r with state := target }
  else .error (.invalidTransition r.file r.state target)

/-- A resolved use. -/
def addResolved (r : FileRecord) (u : ResolvedUse) : Except AnalysisError FileRecord :=
  r.whenIn .resolving fun r => { r with resolved := r.resolved ++ [u] }

/-- The file of each symbol with an attributed use of the given kind, by its first such use. -/
def required (r : FileRecord) (kind : UseKind) : OrderedMap SymbolKey FileName :=
  r.resolved.foldl (fun m u =>
    match u.attribution with
    | some a => if u.verdict.kind = kind then m.setIfAbsent u.use.symbol a.file else m
    | none => m) {}

end FileRecord

end IncludeAudit
