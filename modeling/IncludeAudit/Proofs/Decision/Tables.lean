import IncludeAudit.Decision.Finalize

/-!
# What is read of a table

Attributions and decisions ask a table for declarations and for symbols. They do not see in which
order the symbols were entered, so two tables that answer alike (`SymbolTable.Alike`) lead to the
same results:

* `answer_alike`: attributions;
* `finalize_alike`: reports.
-/

namespace IncludeAudit

/-- Two tables with the same declarations in the same order, and the same symbols in any order. -/
structure SymbolTable.Alike (t t' : SymbolTable) : Prop where
  declarations : t.declarations = t'.declarations
  find? : ∀ k, t.find? k = t'.find? k

namespace SymbolTable.Alike

variable {t t' : SymbolTable}

theorem declaration? (h : t.Alike t') (i : DeclId) : t.declaration? i = t'.declaration? i := by
  rw [SymbolTable.declaration?, SymbolTable.declaration?, h.declarations]

theorem candidates (h : t.Alike t') (k : SymbolKey) : t.candidates k = t'.candidates k := by
  simp only [SymbolTable.candidates, declarationsWhere, h.declarations]

end SymbolTable.Alike

/-! ## Attributions -/

namespace Attributor

variable {t t' : SymbolTable}

theorem register_alike (h : t.Alike t') (a : Attributor) (id : DeclId) :
    a.register t id = a.register t' id := by
  have hdeclaration : t.declaration? = t'.declaration? := funext h.declaration?
  rw [register, register, hdeclaration]

theorem registerAll_alike (h : t.Alike t') (a : Attributor) (ids : List DeclId) :
    a.registerAll t ids = a.registerAll t' ids := by
  induction ids generalizing a with
  | nil => rfl
  | cons id ids ih => simp only [registerAll, register_alike h, ih]

theorem answer_alike (h : t.Alike t') (a : Attributor) (reach : Reachability) (u : Use)
    (usingIsAUse : Bool) : a.answer t reach u usingIsAUse = a.answer t' reach u usingIsAUse := by
  simp only [answer, choose, Question.ofUse, Candidate.ofUse, Candidate.ofSymbol, h.candidates,
    registerAll_alike h]

end Attributor

/-! ## Decisions -/

namespace DecisionContext

variable {ctx : DecisionContext} {t : SymbolTable} {r : FileRecord}

/-- The context with another table. -/
def withTable (ctx : DecisionContext) (t : SymbolTable) : DecisionContext :=
  { ctx with table := t }

theorem declarationsIn_alike (h : ctx.table.Alike t) (f : FileName) (k : SymbolKey) :
    (ctx.withTable t).declarationsIn f k = ctx.declarationsIn f k := by
  rw [declarationsIn, declarationsIn, h.candidates]
  rfl

theorem visibleDeclaration?_alike (h : ctx.table.Alike t) (kept : OrderedSet FileName)
    (k : SymbolKey) :
    (ctx.withTable t).visibleDeclaration? r kept k = ctx.visibleDeclaration? r kept k := by
  rw [visibleDeclaration?, visibleDeclaration?, h.candidates]
  rfl

theorem forwardIgnored?_alike (h : ctx.table.Alike t) (u : ResolvedUse) :
    (ctx.withTable t).forwardIgnored? r u = ctx.forwardIgnored? r u := by
  simp only [forwardIgnored?, declarationsIn_alike h, h.find?]
  rfl

theorem fullIgnored?_alike (h : ctx.table.Alike t) (attributed : FileName) (u : ResolvedUse) :
    (ctx.withTable t).fullIgnored? r attributed u = ctx.fullIgnored? r attributed u := by
  simp only [fullIgnored?, declarationsIn_alike h, h.find?]
  rfl

theorem triage_alike (h : ctx.table.Alike t) (u : ResolvedUse) :
    (ctx.withTable t).triage r u = ctx.triage r u := by
  simp only [triage, forwardCourse, hasLocalDeclaration, declarationsIn_alike h,
    forwardIgnored?_alike h, fullIgnored?_alike h]
  rfl

end DecisionContext

namespace Plan

variable {ctx : DecisionContext} {t : SymbolTable} {r : FileRecord}

theorem make_alike (h : ctx.table.Alike t) : make (ctx.withTable t) r = make ctx r := by
  have hdrafts : r.resolved.map ((ctx.withTable t).triage r) = r.resolved.map (ctx.triage r) :=
    List.map_congr_left fun u _ => DecisionContext.triage_alike h u
  rw [make, make, hdrafts]
  rfl

theorem forwardStatus_alike (h : ctx.table.Alike t) (p : Plan) (k : SymbolKey) :
    p.forwardStatus (ctx.withTable t) r k = p.forwardStatus ctx r k := by
  rw [forwardStatus, forwardStatus, DecisionContext.visibleDeclaration?_alike h]

theorem presentDeclarations_alike (h : ctx.table.Alike t) :
    presentDeclarations (ctx.withTable t) r = presentDeclarations ctx r := by
  have htable : (ctx.withTable t).table = t := rfl
  simp only [presentDeclarations, htable, h.declaration?, h.find?]

theorem report_alike (h : ctx.table.Alike t) (p : Plan) :
    p.report (ctx.withTable t) r = p.report ctx r := by
  have htable : (ctx.withTable t).table = t := rfl
  simp only [report, presentDeclarationLines, addedDeclarationLines, forwardNeeded, outcomes,
    status, forwardStatus_alike h, presentDeclarations_alike h, htable, h.find?]
  rfl

end Plan

theorem finalize_alike {ctx : DecisionContext} {t : SymbolTable} (h : ctx.table.Alike t)
    (r : FileRecord) : finalize (ctx.withTable t) r = finalize ctx r := by
  rw [finalize, finalize, Plan.make_alike h, Plan.report_alike h]

end IncludeAudit
