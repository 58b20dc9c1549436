import IncludeAudit.Decision.Context
import IncludeAudit.Decision.Report

/-!
# Sorting uses

Each resolved use of a file takes one of three courses: it is settled at once, it needs one of a
list of files, or it needs a declaration. What a use needs is first made stricter where a pragma or
the policy bans declarations, and less strict where a declaration in the file precedes the
definition in the file.
-/

namespace IncludeAudit

/-- What happens to a use. -/
inductive Course where
  | settled (status : UseStatus)
  /-- One of these files satisfies it, the best first. -/
  | need (candidates : List FileName)
  /-- A declaration satisfies it. -/
  | forward
  deriving DecidableEq, Repr

/-- A use whose course is known. -/
structure Draft where
  symbol : SymbolKey
  line : Nat
  kind : UseKind
  rule : String
  attributed : Option FileName
  course : Course
  /-- The private file, without a public one in its place, to which the use leads. -/
  privateHeader : Option FileName := none
  deriving DecidableEq, Repr

namespace Draft

/-- The files of which one satisfies the use; none if it takes another course. -/
def candidates (d : Draft) : List FileName :=
  match d.course with
  | .need candidates => candidates
  | _ => []

/-- True of a use that needs a file. -/
def isNeed (d : Draft) : Bool :=
  match d.course with
  | .need _ => true
  | _ => false

/-- True of a use that needs a declaration. -/
def isForward (d : Draft) : Bool :=
  d.course == .forward

end Draft

namespace DecisionContext

/-- What a use needs once declarations may be banned. -/
def strictKind (ctx : DecisionContext) (r : FileRecord) (u : ResolvedUse) : UseKind :=
  if ctx.policy.noForwardDecls || r.pragmas.noForwardDeclare.contains u.use.symbol.name then .full
  else u.verdict.kind

/-- Why a use that a declaration satisfies needs none. -/
def forwardIgnored? (ctx : DecisionContext) (r : FileRecord) (u : ResolvedUse) :
    Option IgnoreReason :=
  match ctx.table.find? u.use.symbol with
  | none => none
  | some s =>
    let here := ctx.declarationsIn r.file s.key
    if here.any fun d => d.isDefinition && d.lines.first ≤ u.use.line then
      some .definedEarlierInFile
    else if s.traits.enclosingClass.isSome && here.isEmpty then some .nestedClass
    else none

/-- True if the file defines the symbol after the use only and declares it before the use. -/
def hasLocalDeclaration (ctx : DecisionContext) (r : FileRecord) (u : ResolvedUse) : Bool :=
  let here := ctx.declarationsIn r.file u.use.symbol
  let definitions := here.filter (·.isDefinition)
  !definitions.isEmpty && definitions.all (fun d => u.use.line < d.lines.first)
    && here.any fun d => !d.isDefinition && d.lines.first < u.use.line

/-- Why a use that needs the definition needs no include. -/
def fullIgnored? (ctx : DecisionContext) (r : FileRecord) (attributed : FileName)
    (u : ResolvedUse) : Option IgnoreReason :=
  match ctx.table.find? u.use.symbol with
  | none => none
  | some s =>
    if s.traits.isBuiltin then some .builtin
    else if attributed = r.file || (ctx.declarationsIn r.file s.key).any (·.isDefinition) then
      some .definedInFile
    else if ctx.graph.reaches attributed r.file then some .backwardsInclude
    else none

/-- The public candidates for a file that the policy allows. -/
def allowedCandidates (ctx : DecisionContext) (r : FileRecord) (attributed : FileName) :
    List FileName :=
  let candidates := ctx.providers.publicCandidates attributed r.file
  if ctx.policy.transitiveIncludesOnly then candidates.filter (ctx.graph.reaches r.file)
  else candidates

/-- The candidates with the present include in front that reaches one of them, if the policy
tolerates this. -/
def withTransitive (ctx : DecisionContext) (r : FileRecord) (candidates : List FileName) :
    List FileName :=
  if ctx.policy.tolerateTransitive then
    (ctx.transitiveVia? r candidates).toList ++ candidates
  else candidates

/-- The course of a use that needs the definition from a file. -/
def providerCourse (ctx : DecisionContext) (r : FileRecord) (attributed : FileName) : Course :=
  let allowed := ctx.allowedCandidates r attributed
  if allowed.isEmpty then .settled (.ignored .outsideTransitiveClosure)
  else
    let candidates := usable r allowed
    if candidates.isEmpty then .settled (.ignored .noUsableProvider)
    else .need (ctx.withTransitive r candidates)

/-- The course of a use of a symbol that is declared nowhere: the headers known for its name. -/
def nameCourse (ctx : DecisionContext) (r : FileRecord) (u : ResolvedUse) : Course :=
  let candidates := usable r (ctx.providers.symbolProviders u.use.symbol.name)
  if candidates.isEmpty then .settled .noDeclaration else .need candidates

/-- The course of a use that a declaration satisfies. -/
def forwardCourse (ctx : DecisionContext) (r : FileRecord) (u : ResolvedUse) : Course :=
  match ctx.forwardIgnored? r u with
  | some reason => .settled (.ignored reason)
  | none => .forward

/-- The private file without a public one in its place to which a file leads. -/
def deadEnd? (ctx : DecisionContext) (r : FileRecord) (attributed : FileName) : Option FileName :=
  let resolved := ctx.providers.resolveFor attributed r.file
  if resolved.isPublic then none else some resolved.file

/-- A use with its kind and course. -/
def draft (u : ResolvedUse) (kind : UseKind) (course : Course) : Draft where
  symbol := u.use.symbol
  line := u.use.line
  kind := kind
  rule := u.verdict.rule
  attributed := u.attribution.map (·.file)
  course := course

/-- Finds the course of a use. -/
def triage (ctx : DecisionContext) (r : FileRecord) (u : ResolvedUse) : Draft :=
  let kind := ctx.strictKind r u
  match u.attribution with
  | none => draft u kind (ctx.nameCourse r u)
  | some a =>
    match kind with
    | .forwardDeclarable => draft u kind (ctx.forwardCourse r u)
    | .full =>
      if ctx.hasLocalDeclaration r u then draft u .forwardDeclarable .forward
      else
        match ctx.fullIgnored? r a.file u with
        | some reason => draft u kind (.settled (.ignored reason))
        | none =>
          { draft u kind (ctx.providerCourse r a.file) with
            privateHeader := ctx.deadEnd? r a.file }

end DecisionContext

end IncludeAudit
