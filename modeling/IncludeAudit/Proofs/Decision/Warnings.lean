import IncludeAudit.Proofs.Decision.Outcomes
import IncludeAudit.Proofs.Diagnostic

/-!
# Warnings about uses

A report warns of a use whose symbol nothing declares, and of a use of a definition that comes from
an include which is not present. The first warnings arise while the uses are sorted, the others once
the includes are chosen, so they are not in the order of the uses:

* `withCode_triageLog`, `withCode_log`: the warnings as they arise, by their code;
* `undeclared?_outcomeOf`, `missing?_outcomeOf`: the warning of one use;
* `withCode_undeclared`, `withCode_missing`, `aboutUses_log_perm`: they are those of the uses.
-/

namespace IncludeAudit

namespace UseOutcome

/-- The warning that nothing declares the symbol of a use. It names the symbol and the line. -/
def undeclared? (o : UseOutcome) (file : FileName) : Option Diagnostic :=
  if o.status = .noDeclaration then
    some {
      severity := .warning
      message := o.symbol.name ++
        " needs a declaration, but does not provide or directly #include one"
      file := some file
      line := o.line
      code := some "W0004" }
  else none

/-- The include that is not present from which a use needs a definition. -/
def lacks? (o : UseOutcome) (present : OrderedSet FileName) : Option FileName :=
  match o.status with
  | .included f => if o.kind = .full ∧ f ∉ present then some f else none
  | _ => none

/-- The warning that a use needs a definition from an include that is not present. It names the
symbol, the line and the include. -/
def missing? (o : UseOutcome) (file : FileName) (present : OrderedSet FileName) :
    Option Diagnostic :=
  (o.lacks? present).map fun f => {
    severity := .warning
    message := o.symbol.name ++ " is defined in " ++ f.text ++ ", which isn't directly #included"
    file := some file
    line := o.line
    code := some "W0003" }

/-- The warning that a use gives, which is one of the two. -/
def warning? (o : UseOutcome) (file : FileName) (present : OrderedSet FileName) :
    Option Diagnostic :=
  (o.undeclared? file).or (o.missing? file present)

variable {o : UseOutcome} {file f : FileName} {present : OrderedSet FileName}

theorem lacks?_eq_some :
    o.lacks? present = some f ↔ o.status = .included f ∧ o.kind = .full ∧ f ∉ present := by
  unfold lacks?
  cases o.status with
  | included g =>
    rw [Option.ite_none_right_eq_some, Option.some.injEq, UseStatus.included.injEq, and_comm]
    refine and_congr_right ?_
    rintro rfl
    rfl
  | _ => simp

theorem missing?_eq (o : UseOutcome) (file : FileName) (present : OrderedSet FileName) :
    o.missing? file present = match o.status with
      | .included f =>
        if o.kind = .full ∧ f ∉ present then some (.notDirectlyIncluded file o.line o.symbol.name f)
        else none
      | _ => none := by
  rw [missing?, lacks?]
  cases o.status with
  | included f => exact apply_ite (Option.map _) _ _ _
  | _ => rfl

/-- A use of which nothing declares the symbol lacks no include. -/
theorem undeclared?_or_missing? (o : UseOutcome) (file : FileName)
    (present : OrderedSet FileName) :
    o.undeclared? file = none ∨ o.missing? file present = none := by
  unfold undeclared? missing? lacks?
  cases o.status <;> simp

/-- When a use gives a warning. -/
theorem warning?_ne_none : o.warning? file present ≠ none ↔ o.status = .noDeclaration ∨
    ∃ f, o.status = .included f ∧ o.kind = .full ∧ f ∉ present := by
  by_cases hstatus : o.status = .noDeclaration
  · simp [warning?, undeclared?, hstatus]
  · rw [warning?, undeclared?, if_neg hstatus, Option.none_or, missing?, Ne,
      Option.map_eq_none_iff, or_iff_right hstatus, ← Ne, Option.ne_none_iff_exists']
    exact exists_congr fun f => lacks?_eq_some

end UseOutcome

/-- The diagnostics about single uses. -/
def DiagnosticLog.aboutUses (log : DiagnosticLog) : DiagnosticLog :=
  log.withCode "W0004" ++ log.withCode "W0003"

open DiagnosticLog

namespace Plan

variable {ctx : DecisionContext} {r : FileRecord} {u : ResolvedUse} {slot : Slot}

/-- The warning of a use that nothing declares. -/
def undeclared? (file : FileName) (d : Draft) : Option Diagnostic :=
  if d.course = .settled .noDeclaration then some (.needsDeclaration file d.line d.symbol.name)
  else none

/-! ## Warnings as they arise -/

/-- The induction is on the uses. -/
theorem code_of_mem_triageLog {file : FileName} {warned : List FileName} {ds : List Draft} :
    ∀ d ∈ triageLog file warned ds, d.code = some "W0002" ∨ d.code = some "W0004" := by
  induction ds generalizing warned with
  | nil => exact List.forall_mem_nil _
  | cons d ds ih =>
    rw [triageLog]
    split
    · split
      · exact ih
      · exact List.forall_mem_cons.2 ⟨.inl rfl, ih⟩
    · split
      · exact List.forall_mem_cons.2 ⟨.inr rfl, ih⟩
      · exact ih

theorem code_of_mem_missing (p : Plan) :
    ∀ d ∈ p.assigned.filterMap p.missing?, d.code = some "W0003" := by
  intro d hd
  obtain ⟨e, -, he⟩ := List.mem_filterMap.1 hd
  unfold missing? at he
  split at he
  · split at he
    · cases he
      rfl
    · cases he
  · cases he

/-- The diagnostics of a plan are about its uses. -/
theorem code_of_mem_log (p : Plan) : ∀ d ∈ p.log,
    d.code = some "W0002" ∨ d.code = some "W0003" ∨ d.code = some "W0004" := by
  rw [log, List.forall_mem_append]
  exact ⟨fun d hd => (code_of_mem_triageLog d hd).imp_right .inr,
    fun d hd => .inr (.inl (code_of_mem_missing p d hd))⟩

/-- A use with a private header is never one of a symbol that nothing declares. -/
theorem undeclared?_of_privateHeader {file : FileName}
    (h : (ctx.triage r u).privateHeader ≠ none) : undeclared? file (ctx.triage r u) = none := by
  refine if_neg fun hcourse => ?_
  rcases DecisionContext.settled_cases hcourse with ⟨reason, hr⟩ | ⟨-, ha, -⟩
  · cases hr
  · refine h ?_
    simp only [DecisionContext.triage, ha, DecisionContext.draft]

/-- The induction is on the uses; warnings about private headers are passed over. -/
theorem withCode_triageLog {file : FileName} {warned : List FileName} {ds : List Draft}
    (h : ∀ d ∈ ds, d.privateHeader ≠ none → undeclared? file d = none) :
    (triageLog file warned ds).withCode "W0004" = ds.filterMap (undeclared? file) := by
  induction ds generalizing warned with
  | nil => rfl
  | cons d ds ih =>
    obtain ⟨hd, hds⟩ := List.forall_mem_cons.1 h
    rw [triageLog]
    cases hp : d.privateHeader with
    | some header =>
      rw [List.filterMap_cons_none (hd (by rw [hp]; exact Option.some_ne_none header))]
      dsimp only
      split
      · exact ih hds
      · exact ih hds
    | none =>
      dsimp only
      split
      · rename_i hcourse
        have hwarning : undeclared? file d = some _ := if_pos hcourse
        rw [List.filterMap_cons_some hwarning, ← ih hds]
        rfl
      · rename_i hcourse
        have hwarning : undeclared? file d = none := if_neg hcourse
        rw [List.filterMap_cons_none hwarning]
        exact ih hds

/-- The chosen includes give diagnostics of one code only. -/
theorem withCode_log {code : String} (p : Plan) (hcode : code ≠ "W0003") :
    p.log.withCode code = (triageLog p.file [] p.drafts).withCode code := by
  have hmissing : DiagnosticLog.withCode (p.assigned.filterMap p.missing?) code = [] :=
    withCode_eq_nil.2 fun d hd hd' => hcode <|
      Option.some.inj (hd'.symm.trans (code_of_mem_missing p d hd))
  rw [log, withCode_append, hmissing, List.append_nil]

/-! ## The warning of a use -/

theorem missing?_of_unchosen {d : Draft} {a : Option Assignment} (h : ∀ f, a ≠ some (.chosen f)) :
    (make ctx r).missing? (d, a) = none := by
  unfold missing?
  split
  · rename_i f hf
    exact absurd hf (h f)
  · rfl

theorem status_eq_noDeclaration (ctx : DecisionContext) (r : FileRecord) (u : ResolvedUse)
    (a : Option Assignment) : (make ctx r).status ctx r (ctx.triage r u) a = .noDeclaration ↔
      (ctx.triage r u).course = .settled .noDeclaration := by
  unfold status
  cases (ctx.triage r u).course with
  | settled status => exact (Course.settled.injEq ..).symm.to_iff
  | need candidates =>
    refine iff_of_false ?_ (by simp)
    rcases a with - | - | f | f <;> simp [needStatus]
  | forward =>
    refine iff_of_false ?_ (by simp)
    dsimp only
    rcases forwardStatus_cases (make ctx r) ctx r (ctx.triage r u).symbol with hs | ⟨f, hs⟩ | hs <;>
      rw [hs] <;> simp

theorem undeclared?_outcomeOf (ctx : DecisionContext) (r : FileRecord) (u : ResolvedUse)
    (a : Option Assignment) :
    (outcomeOf ctx r u a).undeclared? r.file = undeclared? r.file (ctx.triage r u) := by
  simp only [UseOutcome.undeclared?, outcomeOf, undeclared?, status_eq_noDeclaration,
    DecisionContext.triage_line, DecisionContext.triage_symbol, Diagnostic.needsDeclaration,
    Diagnostic.warningAt]

/-- A use that waits for a declaration does not need the definition, whatever its status. -/
theorem missing?_outcomeOf (h : Decides ctx r u slot (outcomeOf ctx r u slot.assignment)) :
    (outcomeOf ctx r u slot.assignment).missing? r.file r.present =
      (make ctx r).missing? (ctx.triage r u, slot.assignment) := by
  have hunchosen (hc : ∀ need, (ctx.triage r u).course ≠ .need need) :
      (make ctx r).missing? (ctx.triage r u, slot.assignment) = none :=
    missing?_of_unchosen fun f hf => hc _ (h.of_chosen hf).1
  simp only [UseOutcome.missing?_eq, outcomeOf, status]
  cases hc : (ctx.triage r u).course with
  | settled status =>
    rw [hunchosen fun need hneed => by rw [hc] at hneed; cases hneed]
    rcases DecisionContext.settled_cases hc with ⟨reason, rfl⟩ | ⟨rfl, -⟩ <;> rfl
  | need candidates =>
    rcases slot.assignment with - | - | f | f <;>
      simp only [needStatus, missing?, DecisionContext.triage_line, DecisionContext.triage_symbol]
    rfl
  | forward =>
    rw [hunchosen fun need hneed => by rw [hc] at hneed; cases hneed]
    have hkind : (ctx.triage r u).kind ≠ .full := by
      rw [(DecisionContext.forward_cases hc).1]
      decide
    dsimp only
    rcases forwardStatus_cases (make ctx r) ctx r (ctx.triage r u).symbol with hs | ⟨f, hs⟩ | hs <;>
      rw [hs]
    exact if_neg fun hfull => hkind hfull.1

/-! ## The warnings of a plan -/

/-- The uses that nothing declares. -/
theorem withCode_undeclared (ctx : DecisionContext) (r : FileRecord) :
    (make ctx r).log.withCode "W0004" =
      ((make ctx r).outcomes ctx r).filterMap (·.undeclared? r.file) := by
  obtain ⟨rows, hresolved, houtcomes, -, -⟩ := exists_rows ctx r
  rw [withCode_log _ (by decide), withCode_triageLog, drafts_eq hresolved, houtcomes,
    List.filterMap_map, List.filterMap_map]
  · exact List.filterMap_congr fun e _ => (undeclared?_outcomeOf ctx r e.1 e.2.assignment).symm
  · intro d hd
    obtain ⟨u, -, rfl⟩ := List.mem_map.1 hd
    exact undeclared?_of_privateHeader

/-- The uses that need the definition from an include that is not present. -/
theorem withCode_missing (ctx : DecisionContext) (r : FileRecord) :
    (make ctx r).log.withCode "W0003" =
      ((make ctx r).outcomes ctx r).filterMap (·.missing? r.file r.present) := by
  obtain ⟨rows, hresolved, houtcomes, hdecides, hslots⟩ := exists_rows ctx r
  rw [log, withCode_append, withCode_eq_nil.2, withCode_eq_self (code_of_mem_missing _),
    List.nil_append, assigned_eq hresolved hslots, houtcomes, List.filterMap_map,
    List.filterMap_map]
  · exact List.filterMap_congr fun e he => (missing?_outcomeOf (hdecides e he)).symm
  · intro d hd
    rcases code_of_mem_triageLog d hd with hcode | hcode <;> rw [hcode] <;> decide

/-- A report warns of each use that gives a warning, and of no other. -/
theorem aboutUses_log_perm (ctx : DecisionContext) (r : FileRecord) :
    (aboutUses (make ctx r).log).Perm
      (((make ctx r).outcomes ctx r).filterMap (·.warning? r.file r.present)) := by
  rw [aboutUses, withCode_undeclared, withCode_missing]
  exact filterMap_append_perm fun o _ => o.undeclared?_or_missing? r.file r.present

end Plan

end IncludeAudit
