import IncludeAudit.Decision.Plan
import IncludeAudit.Line.Order

/-!
# Making reports

Turns a plan into lines. Of the present lines the first one of each wanted include and of each
needed declaration stays and the others go; what is wanted and not present is added. `finalize`
makes the report of a record that is resolving and moves the record on.
-/

namespace IncludeAudit

/-- Splits elements into those that are wanted and the first with their key, and the others. The
keys in `seen` count as met. -/
def splitFirst {α κ : Type} [DecidableEq κ] (key : α → κ) (wanted : κ → Bool) (seen : List κ) :
    List α → List α × List α
  | [] => ([], [])
  | a :: as =>
    let (first, others) := splitFirst key wanted (key a :: seen) as
    if wanted (key a) && !seen.contains (key a) then (a :: first, others) else (first, a :: others)

namespace Plan

/-- The lines of present includes that stay and that go. -/
def presentIncludeLines (p : Plan) (r : FileRecord) : List OutputLine × List OutputLine :=
  let line (d : IncludeDirective) :=
    OutputLine.ofFile d.included (some d.lines) (p.servedBy d.included)
  let (stay, go) := splitFirst (·.included) p.kept.contains [] r.includes
  (stay.map line, go.map line)

/-- The lines of chosen includes that are not present. -/
def addedIncludeLines (p : Plan) : List OutputLine :=
  (p.cover.desired.toList.filter fun f => !p.present.contains f).map fun f =>
    .ofFile f none (p.servedBy f)

/-- The forward declarations in the file with their symbols. -/
def presentDeclarations (ctx : DecisionContext) (r : FileRecord) : List (Declaration × Symbol) :=
  r.forwardDecls.filterMap fun id => do
    let d ← ctx.table.declaration? id
    let s ← ctx.table.find? d.symbol
    some (d, s)

/-- The lines of present declarations that stay and that go. -/
def presentDeclarationLines (p : Plan) (ctx : DecisionContext) (r : FileRecord) :
    List OutputLine × List OutputLine :=
  let line (e : Declaration × Symbol) := OutputLine.ofSymbol e.2 (some e.1.lines)
  let (stay, go) :=
    splitFirst (·.1.symbol) (p.forwardNeeded ctx r).contains [] (presentDeclarations ctx r)
  (stay.map line, go.map line)

/-- The lines of needed declarations that are not present. -/
def addedDeclarationLines (p : Plan) (ctx : DecisionContext) (r : FileRecord) : List OutputLine :=
  let declared := (presentDeclarations ctx r).map (·.1.symbol)
  ((p.forwardNeeded ctx r).toList.filter fun k => !declared.contains k).filterMap fun k =>
    (ctx.table.find? k).map fun s => .ofSymbol s none

/-- The order in which the lines of the file are written. -/
def lineOrder (ctx : DecisionContext) (r : FileRecord) : LineOrder where
  precompiled := ctx.precompiled
  associated := ctx.associated
  canonical := r.file.canonical
  quotedFirst := ctx.policy.quotedIncludesFirst

/-- The report that the plan makes. -/
def report (p : Plan) (ctx : DecisionContext) (r : FileRecord) : FileReport :=
  let (includesKept, includesGone) := p.presentIncludeLines r
  let (declarationsKept, declarationsGone) := p.presentDeclarationLines ctx r
  let includesAdded := p.addedIncludeLines
  let declarationsAdded := p.addedDeclarationLines ctx r
  let order := lineOrder ctx r
  { file := r.file
    add := order.sort (includesAdded ++ declarationsAdded)
    remove := (includesGone ++ declarationsGone).mergeSort OutputLine.standsBefore
    full := order.sort (includesKept ++ includesAdded ++ declarationsKept ++ declarationsAdded)
    uses := p.outcomes ctx r
    diagnostics := p.log }

end Plan

/-- Makes the report of a record that is resolving, and the finalized record. -/
def finalize (ctx : DecisionContext) (r : FileRecord) :
    Except AnalysisError (FileReport × FileRecord) :=
  match r.transition .finalized with
  | .ok done => .ok ((Plan.make ctx r).report ctx r, done)
  | .error e => .error e

end IncludeAudit
