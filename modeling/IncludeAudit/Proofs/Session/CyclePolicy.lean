import IncludeAudit.Proofs.Decision.Warnings
import IncludeAudit.Proofs.Session.Results

/-!
# The policy on include cycles

If cycles are fatal, no file that is reported lies on one, and the error shows one. If they are
ignored, there is one diagnostic for each file that is reported and lies on one. No other step of a
session has diagnostics with the code of these, so they are all told by the log of the reports
(`EndsAll.log`).

* `textual_closed`, `Reports.code_of_mem`: facts and reports have no diagnostics about cycles;
* `cycleFiles_eq`: those of a session;
* `finish_cycles`: both policies.
-/

namespace IncludeAudit

/-- The files of the diagnostics about include cycles, of the session and of all reports. -/
def SessionReport.cycleFiles (rep : SessionReport) : List (Option FileName) :=
  (rep.allDiagnostics.withCode "W0005").map (·.file)

/-- The file lies on an include cycle. -/
def OnCycle (es : List Event) (f : FileName) : Prop :=
  Relation.TransGen (Includes es) f f

/-- A path of includes from a file back to itself. -/
def IsCycle (es : List Event) (f : FileName) (path : List FileName) : Prop :=
  (∃ middle, path = f :: (middle ++ [f])) ∧ path.IsChain (Includes es)

open DiagnosticLog (withCode withCode_append withCode_eq_nil)

namespace Session

variable {env : Environment} {main f : FileName} {es : List Event} {s t : Session}
  {rep : SessionReport}

/-- Until reports are made, a session has diagnostics about faults in the text only. -/
theorem textual_closed (env : Environment) (main : FileName) (es : List Event) :
    ∀ d ∈ ((start env main).afterFacts es).closed.log, d.IsTextual := by
  refine List.forall_mem_append.2 ⟨log_afterFacts env main es, fun d hd => ?_⟩
  obtain ⟨e, -, rfl⟩ := List.mem_map.1 hd
  exact .inr rfl

/-- Faults in the text are no cycles. -/
theorem withCode_cycle_closed (env : Environment) (main : FileName) (es : List Event) :
    ((start env main).afterFacts es).closed.log.withCode "W0005" = [] := by
  refine withCode_eq_nil.2 fun d hd hcycle => ?_
  rcases textual_closed env main es d hd with hcode | hcode <;> simp [hcycle] at hcode

theorem code_of_mem_cycleLog {g : IncludeGraph} {f : FileName} :
    ∀ d ∈ cycleLog g f, d.code = some "W0005" := by
  intro d hd
  obtain ⟨path, -, rfl⟩ := Option.map_eq_some_iff.1 (Option.mem_toList.1 hd)
  rfl

/-- The diagnostics that belong to no report are about faults in the text and about cycles. -/
theorem code_of_mem_finish (env : Environment) (main : FileName) (es : List Event)
    (hr : ((start env main).afterFacts es).finish.1 = .ok rep) :
    ∀ d ∈ rep.diagnostics, d.IsTextual ∨ d.code = some "W0005" := by
  obtain ⟨taken, hrec, -, -⟩ := exists_recorded env main es
  obtain ⟨t, hends, -, -, hlog⟩ := finish_ends hrec.finished
  rw [hr] at hends
  rw [hlog rep hr, hends.log, List.forall_mem_append]
  refine ⟨fun d hd => .inl (textual_closed env main es d hd), fun d hd => .inr ?_⟩
  obtain ⟨f, -, hd⟩ := List.mem_flatMap.1 hd
  exact code_of_mem_cycleLog d hd

theorem map_file_cycleLog (g : IncludeGraph) (fs : List FileName) :
    (withCode (fs.flatMap (cycleLog g)) "W0005").map (·.file) =
      (fs.filter fun f => (g.findCycle f).isSome).map some := by
  induction fs with
  | nil => rfl
  | cons f fs ih =>
    rw [List.flatMap_cons, withCode_append, List.map_append, ih, List.filter_cons, cycleLog]
    cases g.findCycle f <;> rfl

/-- The diagnostics of reports are about uses. -/
theorem Reports.code_of_mem {files : List FileReport} {mainReport : FileReport}
    {associated extra : List FileReport} (h : Reports s files mainReport associated extra) :
    ∀ d ∈ files.flatMap (·.diagnostics),
      d.code = some "W0002" ∨ d.code = some "W0003" ∨ d.code = some "W0004" := by
  intro d hd
  obtain ⟨report, hreport, hd⟩ := List.mem_flatMap.1 hd
  obtain ⟨on, f, ⟨resolved, -, rfl⟩, -⟩ := h.exists_reported report hreport
  exact Plan.code_of_mem_log _ d hd

theorem Reports.withCode_eq_nil {files : List FileReport} {mainReport : FileReport}
    {associated extra : List FileReport} (h : Reports s files mainReport associated extra)
    {code : String} (hcode : code ∉ ["W0002", "W0003", "W0004"]) :
    withCode (files.flatMap (·.diagnostics)) code = [] := by
  refine DiagnosticLog.withCode_eq_nil.2 fun d hd hd' => hcode ?_
  rcases h.code_of_mem d hd with h | h | h <;> cases hd'.symm.trans h <;> simp

/-- What a session says of cycles, if it has reports. -/
theorem cycleFiles_eq {mainReport : FileReport} {associated extra : List FileReport}
    (hends : EndsAll s.closed s.reportOrder none t)
    (hlog : rep.diagnostics = t.log) (hquiet : s.closed.log.withCode "W0005" = [])
    (hreports : Reports s rep.files mainReport associated extra) :
    rep.cycleFiles = (s.reportOrder.filter fun f => (s.graph.findCycle f).isSome).map some := by
  rw [SessionReport.cycleFiles, SessionReport.allDiagnostics, withCode_append,
    hreports.withCode_eq_nil (by decide), List.append_nil, hlog, hends.log, withCode_append,
    hquiet, List.nil_append]
  exact map_file_cycleLog _ _

/-- If cycles are fatal, no reported file lies on one, and an error about a cycle has a path of
includes from its file back to itself. If they are ignored, there is no such error. In both cases
there is one diagnostic about a cycle for each reported file on one, and for no other. -/
theorem finish_cycles (env : Environment) (main : FileName) (es : List Event) :
    match ((start env main).afterFacts es).finish.1 with
    | .ok rep =>
      (env.policy.ignoreCycles = true ∨ ∀ report ∈ rep.files, ¬ OnCycle es report.file) ∧
        rep.cycleFiles.Nodup ∧ ∀ f, f ∈ rep.cycleFiles ↔
          ∃ report ∈ rep.files, some report.file = f ∧ OnCycle es report.file
    | .error (.includeCycle f path) => env.policy.ignoreCycles = false ∧ IsCycle es f path
    | .error _ => True := by
  obtain ⟨taken, hrec, -, -⟩ := exists_recorded env main es
  have hincludes : ((start env main).afterFacts es).graph.Includes = Includes es :=
    funext₂ fun a b => propext (includes_afterFacts env main es a b)
  have hquiet := withCode_cycle_closed env main es
  generalize (start env main).afterFacts es = s at hrec hincludes hquiet
  have hcycle (f : FileName) : s.graph.OnCycle f ↔ OnCycle es f := by
    rw [IncludeGraph.OnCycle, hincludes, OnCycle]
  obtain ⟨t, hends, -, -, hlog⟩ := finish_ends hrec.finished
  split
  · rename_i rep hrep
    rw [hrep] at hends
    obtain ⟨-, mainReport, associated, extra, hreports⟩ := finish_ok hrep hrec.resolved
    have hmem (f : FileName) : f ∈ s.reportOrder ↔ ∃ report ∈ rep.files, report.file = f := by
      rw [← List.mem_map]
      exact (hreports.map_file_perm hrec.file).mem_iff.symm
    have hfound (f : FileName) : (s.graph.findCycle f).isSome = true ↔ OnCycle es f := by
      rw [← hcycle, Option.isSome_iff_ne_none, Ne, IncludeGraph.findCycle_eq_none, not_not]
    rw [cycleFiles_eq hends (hlog rep hrep) hquiet hreports]
    refine ⟨?_, ?_, fun f => ?_⟩
    · rw [← hrec.environment]
      refine (Bool.eq_false_or_eq_true _).imp id fun hfatal report hreport => ?_
      rw [← hcycle, ← IncludeGraph.findCycle_eq_none]
      exact hends.acyclic hfatal _ ((hmem _).2 ⟨report, hreport, rfl⟩)
    · exact (((hends.disjoint hrec.haveReports).1).filter _).map fun _ _ h => Option.some.inj h
    · simp only [List.mem_map, List.mem_filter, hmem, hfound]
      constructor
      · rintro ⟨_, ⟨⟨report, hreport, rfl⟩, hon⟩, rfl⟩
        exact ⟨report, hreport, rfl, hon⟩
      · rintro ⟨report, hreport, rfl, hon⟩
        exact ⟨_, ⟨⟨report, hreport, rfl⟩, hon⟩, rfl⟩
  · rename_i f path he
    rw [he] at hends
    obtain ⟨before, g, after, -, -, hcause⟩ := hends.error hrec.haveReports
    rcases hcause with ⟨hfatal, path', hpath, heq⟩ | ⟨_, _, _, _, heq⟩ | ⟨-, heq⟩ <;> cases heq
    rw [← hrec.environment]
    obtain ⟨hloop, hchain⟩ := IncludeGraph.isCycle_of_findCycle hpath
    exact ⟨hfatal, hloop, hincludes ▸ hchain⟩
  · trivial

/-- A source file and a header that include each other. -/
def mutualIncludes : List Event :=
  [ .directive ⟨.quoted "f.cc", .quoted "a.h", .line 1, none⟩,
    .directive ⟨.quoted "a.h", .quoted "f.cc", .line 1, none⟩ ]

example : ((start (plainEnvironment {}) (.quoted "f.cc")).afterFacts mutualIncludes).finish.1 =
    .error (.includeCycle (.quoted "f.cc") [.quoted "f.cc", .quoted "a.h", .quoted "f.cc"]) := by
  decide +kernel

/-- The header lies on the cycle too, but is not reported. -/
example : ((start (plainEnvironment { ignoreCycles := true }) (.quoted "f.cc")).afterFacts
    mutualIncludes).finish.1.toOption.map (·.cycleFiles) = some [some (.quoted "f.cc")] := by
  decide +kernel

end Session

end IncludeAudit
