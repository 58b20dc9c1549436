import IncludeAudit.FileName.Canonical
import IncludeAudit.FileRecord
import IncludeAudit.Graph.IncludeGraph
import IncludeAudit.Policy
import IncludeAudit.Provider.View

/-!
# What a decision depends on

Everything beside the record of a file that its report depends on, and the questions that the rules
of the decision ask of it.
-/

namespace IncludeAudit

/-- What the report of a file depends on beside its record. -/
structure DecisionContext where
  table : SymbolTable
  graph : IncludeGraph
  providers : ProviderView
  policy : Policy
  keepGlobs : FileGlobs
  /-- The associated headers of the file. -/
  associated : List FileName
  /-- What the associated headers include in the end. -/
  associatedIncludes : OrderedSet FileName
  /-- The precompiled header of the file. -/
  precompiled : Option FileName

namespace DecisionContext

/-- The declarations of a symbol in a file. -/
def declarationsIn (ctx : DecisionContext) (f : FileName) (k : SymbolKey) : List Declaration :=
  ((ctx.table.candidates k).map (·.2)).filter (·.file == f)

/-- The files of the candidates that the file may include: headers, or files that it includes
already, unless a pragma bans them. The file itself is always one. -/
def usable (r : FileRecord) (candidates : List FileName) : List FileName :=
  candidates.filter fun c =>
    c == r.file || ((c.isHeader || r.present.contains c) && !r.pragmas.noInclude.contains c)

/-- True of a present include that stays whether it is used or not. -/
def isProtected (ctx : DecisionContext) (r : FileRecord) (f : FileName) : Bool :=
  r.pragmas.keep.contains f || r.pragmas.exported.contains f || r.pragmas.associated.contains f
    || f.isOpaque || ctx.associated.contains f || ctx.providers.overlay.isAlwaysKeep f
    || ctx.keepGlobs.accepts f || ctx.precompiled == some f

/-- The present includes that stay whether they are used or not. -/
def protectedIncludes (ctx : DecisionContext) (r : FileRecord) : OrderedSet FileName :=
  r.present.filter (ctx.isProtected r)

/-- The first present include that reaches a candidate, unless a candidate is present itself. -/
def transitiveVia? (ctx : DecisionContext) (r : FileRecord) (candidates : List FileName) :
    Option FileName :=
  if candidates.any fun c => c == r.file || r.present.contains c then none
  else r.present.toList.find? fun f => (ctx.graph.closure f).any candidates.contains

/-- True of a file that is included in the end, by the file itself or for it. -/
def isProvided (ctx : DecisionContext) (kept : OrderedSet FileName) (f : FileName) : Bool :=
  kept.contains f || ctx.associated.contains f || ctx.associatedIncludes.contains f

/-- The include through which one declaration is visible: its own file, the file that replaces it,
or, if the policy tolerates this, a kept include that reaches it. -/
def visibleThrough? (ctx : DecisionContext) (r : FileRecord) (kept : OrderedSet FileName)
    (d : Declaration) : Option FileName :=
  if d.file = r.file then none
  else
    ([d.file, (ctx.providers.resolveFor d.file r.file).file].find? (ctx.isProvided kept)).or <|
      if ctx.policy.tolerateTransitive then
        kept.toList.find? fun f => (ctx.graph.closure f).contains d.file
      else none

/-- The include through which a declaration of a symbol is visible already. -/
def visibleDeclaration? (ctx : DecisionContext) (r : FileRecord) (kept : OrderedSet FileName)
    (k : SymbolKey) : Option FileName :=
  (ctx.table.candidates k).findSome? fun e => ctx.visibleThrough? r kept e.2

end DecisionContext

end IncludeAudit
