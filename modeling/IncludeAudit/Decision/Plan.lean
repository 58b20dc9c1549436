import IncludeAudit.Decision.Cover
import IncludeAudit.Decision.Triage

/-!
# Plans

A plan has the course of each use of a file, the includes chosen for those that need one, and the
present includes that stay in any case. Everything else in a report is read off the plan: the status
of each use, the symbols that need a declaration, and the diagnostics.
-/

namespace IncludeAudit

/-- What was decided on the uses and the includes of a file. -/
structure Plan where
  file : FileName
  present : OrderedSet FileName
  /-- One for each use, in the order of the uses. -/
  drafts : List Draft
  /-- The chosen includes, with one assignment for each draft. -/
  cover : Cover
  /-- Present includes that stay whether they are used or not. -/
  held : OrderedSet FileName

namespace Plan

/-- Makes the plan of a file. A use that needs no file is a need without candidates. -/
def make (ctx : DecisionContext) (r : FileRecord) : Plan :=
  let drafts := r.resolved.map (ctx.triage r)
  { file := r.file
    present := r.present
    drafts
    cover := Cover.choose ⟨r.file, r.present, ctx.associatedIncludes⟩ (drafts.map (·.candidates))
    held := ctx.protectedIncludes r }

/-- The drafts with their assignments. -/
def assigned (p : Plan) : List (Draft × Option Assignment) :=
  p.drafts.zip p.cover.assignments

/-- The includes that the file has in the end. -/
def kept (p : Plan) : OrderedSet FileName :=
  p.cover.desired.union p.held

/-- The symbols of which some use needs a file. -/
def fullSymbols (p : Plan) : List SymbolKey :=
  (p.drafts.filter (·.isNeed)).map (·.symbol)

/-- The symbols that an include provides to the uses that it was chosen for. -/
def servedBy (p : Plan) (f : FileName) : List SymbolKey :=
  ((p.assigned.filter fun e => e.2 == some (.chosen f)).map (·.1.symbol)).eraseDups

/-! ## Statuses -/

/-- The status of a use that needs a file. -/
def needStatus : Option Assignment → UseStatus
  | some .itself => .selfProvided
  | some (.associated f) => .viaAssociated f
  | some (.chosen f) => .included f
  | none => .ignored .noUsableProvider

/-- The status of a use that needs a declaration. -/
def forwardStatus (p : Plan) (ctx : DecisionContext) (r : FileRecord) (k : SymbolKey) : UseStatus :=
  if p.fullSymbols.contains k then .ignored .coveredByFullUse
  else
    match ctx.visibleDeclaration? r p.kept k with
    | some via => .included via
    | none => .forwardDeclared

/-- The status of a use. -/
def status (p : Plan) (ctx : DecisionContext) (r : FileRecord) (d : Draft) (a : Option Assignment) :
    UseStatus :=
  match d.course with
  | .settled status => status
  | .need _ => needStatus a
  | .forward => p.forwardStatus ctx r d.symbol

/-- What was decided on each use. -/
def outcomes (p : Plan) (ctx : DecisionContext) (r : FileRecord) : List UseOutcome :=
  p.assigned.map fun (d, a) =>
    { symbol := d.symbol, line := d.line, kind := d.kind, rule := d.rule, attributed := d.attributed
      status := p.status ctx r d a }

/-- The symbols that need a declaration in the file. -/
def forwardNeeded (p : Plan) (ctx : DecisionContext) (r : FileRecord) : OrderedSet SymbolKey :=
  .ofList (((p.drafts.filter (·.isForward)).map (·.symbol)).filter fun k =>
    p.forwardStatus ctx r k == .forwardDeclared)

/-! ## Diagnostics -/

/-- Private headers without a public one in their place, each once, and symbols that nothing
declares, in the order of the uses. -/
def triageLog (file : FileName) (warned : List FileName) : List Draft → DiagnosticLog
  | [] => []
  | d :: ds =>
    match d.privateHeader with
    | some h =>
      if warned.contains h then triageLog file warned ds
      else .noPublicHeader h :: triageLog file (h :: warned) ds
    | none =>
      if d.course = .settled .noDeclaration then
        .needsDeclaration file d.line d.symbol.name :: triageLog file warned ds
      else triageLog file warned ds

/-- The provider of a use that needs the definition and does not find it in a present include. -/
def missing? (p : Plan) (e : Draft × Option Assignment) : Option Diagnostic :=
  match e.2 with
  | some (.chosen f) =>
    if e.1.kind = .full ∧ f ∉ p.present then
      some (.notDirectlyIncluded p.file e.1.line e.1.symbol.name f)
    else none
  | _ => none

/-- The diagnostics of the plan: those of the courses, then those of the chosen includes. -/
def log (p : Plan) : DiagnosticLog :=
  triageLog p.file [] p.drafts ++ p.assigned.filterMap p.missing?

end Plan

end IncludeAudit
