import IncludeAudit.Proofs.Decision.Declarations
import IncludeAudit.Proofs.Session.Recording
import IncludeAudit.Proofs.Use.Claims
import IncludeAudit.Session.Finish

/-!
# What a session reports

Reports are made one file after another, and each depends on the session as it was when it was
finished, and on the headers on which the file relies (`Reported`): what the reports before it leave
behind are the records of their files, which are never looked at again.

* `resolveUses_ok`: the uses of a file that are not skipped are resolved in order;
* `finalizeFile_ok`: one report;
* `finish_made`, `finish_ok`: all reports;
* `Reported.forall₂_decided`: the outcomes of a report, one for each use that is not skipped.
-/

namespace IncludeAudit

/-- The report of the main file. -/
def SessionReport.mainReport? (r : SessionReport) : Option FileReport :=
  r.files.find? (·.file == r.mainFile)

namespace Session

open FileRecord (addResolved_ok transition_ok)

variable {s t t' : Session} {on : Reliance} {f : FileName} {report : FileReport}

/-- The uses that are not skipped, with what they need. -/
def classified (env : Environment) (t : SymbolTable) (us : List Use) : List (Use × Verdict) :=
  us.filterMap fun u =>
    ((t.find? u.symbol).bind (classify env.policy env.oracle u)).map (u, ·)

/-- A resolved use is that of a classified use. -/
def Resolves (c : Use × Verdict) (u : ResolvedUse) : Prop :=
  u.use = c.1 ∧ u.verdict = c.2

/-- An outcome is about a classified use. -/
def Concerns (c : Use × Verdict) (o : UseOutcome) : Prop :=
  o.symbol = c.1.symbol ∧ o.line = c.1.line ∧ o.rule = c.2.rule

/-- The record of a file when its report is made. -/
def resolvedRecord (s : Session) (f : FileName) (resolved : List ResolvedUse) : FileRecord :=
  { s.recordOf f with state := .resolving, resolved }

/-- The report is that of a file which relies on the given headers, as far as the session knows when
it is finished. -/
def Reported (s : Session) (on : Reliance) (f : FileName) (report : FileReport) : Prop :=
  ∃ resolved, List.Forall₂ Resolves (classified s.environment s.table (s.recordOf f).uses) resolved ∧
    report = (Plan.make (s.context on) (s.resolvedRecord f resolved)).report (s.context on)
      (s.resolvedRecord f resolved)

/-- A use is attributed to a file if anything declares its symbol. -/
def Attributed (t : SymbolTable) (u : ResolvedUse) : Prop :=
  u.attribution = none → t.candidates u.use.symbol = []

/-- The report is made for a file that relies on the given headers, and each of its uses is
attributed if anything declares its symbol. -/
structure Made (s : Session) (on : Reliance) (f : FileName) (report : FileReport) : Prop where
  reported : Reported s on f report
  attributed : ∀ o ∈ report.uses, o.attributed = none → s.table.candidates o.symbol = []

/-! ## Resolving uses -/

theorem candidates_of_answer {a : Attributor} {table : SymbolTable} {reach : Reachability}
    {u : Use} {usingIsAUse : Bool} (h : (a.answer table reach u usingIsAUse).1 = .ok none) :
    table.candidates u.symbol = [] := by
  have hgives := Attributor.gives a table reach u usingIsAUse
  generalize a.answer table reach u usingIsAUse = out at hgives h
  cases hgives with
  | nothing _ hnone => exact Candidate.ofUse_eq_nil.1 (Candidate.select_eq_none.1 hnone)
  | _ => cases h

/-- The induction is on the uses; the record has those that were resolved before. -/
theorem resolveUses_ok {env : Environment} {t : SymbolTable} {reach : Reachability} {us : List Use}
    {a a' : Attributor} {r r' : FileRecord}
    (h : resolveUses env t reach us a r = (.ok (), a', r')) :
    ∃ resolved, List.Forall₂ Resolves (classified env t us) resolved ∧
      (∀ u ∈ resolved, Attributed t u) ∧
      r' = { r with resolved := r.resolved ++ resolved } := by
  induction us generalizing a r with
  | nil =>
    cases h
    exact ⟨[], .nil, List.forall_mem_nil _, by rw [List.append_nil]⟩
  | cons u us ih =>
    rw [resolveUses] at h
    cases hc : (t.find? u.symbol).bind (classify env.policy env.oracle u) with
    | none =>
      simp only [hc] at h
      obtain ⟨resolved, hall, hattributed, hr⟩ := ih h
      refine ⟨resolved, ?_, hattributed, hr⟩
      simp only [classified, List.filterMap_cons, hc, Option.map_none]
      exact hall
    | some verdict =>
      simp only [hc] at h
      split at h
      · cases h
      · rename_i attribution a₁ hanswer
        split at h
        · cases h
        · rename_i r₁ hr₁
          obtain rfl := addResolved_ok hr₁
          obtain ⟨resolved, hall, hattributed, rfl⟩ := ih h
          have hfirst : Attributed t ⟨u, verdict, attribution⟩ := by
            rintro rfl
            exact candidates_of_answer (congrArg Prod.fst hanswer)
          refine ⟨⟨u, verdict, attribution⟩ :: resolved, ?_, ?_, ?_⟩
          · simp only [classified, List.filterMap_cons, hc, Option.map_some]
            exact .cons ⟨rfl, rfl⟩ hall
          · exact List.forall_mem_cons.2 ⟨hfirst, hattributed⟩
          · simp only [List.append_assoc, List.singleton_append]

/-! ## One report -/

/-- The second session comes after the first while reports are made: only the records of files that
are reported already differ. -/
structure Progress (s t : Session) : Prop where
  environment : t.environment = s.environment
  mainFile : t.mainFile = s.mainFile
  table : t.table = s.table
  graph : t.graph = s.graph
  overlay : t.overlay = s.overlay
  keepGlobs : t.keepGlobs = s.keepGlobs
  records : ∀ f, (t.recordOf f).state = .collecting → t.recordOf f = s.recordOf f

namespace Progress

theorem refl (s : Session) : Progress s s :=
  ⟨rfl, rfl, rfl, rfl, rfl, rfl, fun _ _ => rfl⟩

theorem context_eq (h : Progress s t) (on : Reliance) : t.context on = s.context on := by
  simp only [context, h.environment, h.table, h.graph, h.overlay, h.keepGlobs]

/-- A report leaves a record that is not collecting. -/
theorem putRecord (h : Progress s t) {r : FileRecord} (hr : r.state ≠ .collecting) :
    Progress s (t.putRecord f r) where
  environment := h.environment
  mainFile := h.mainFile
  table := h.table
  graph := h.graph
  overlay := h.overlay
  keepGlobs := h.keepGlobs
  records g hg := by
    rw [recordOf_putRecord] at hg ⊢
    split at hg
    · exact absurd hg hr
    · rename_i hne
      rw [if_neg hne]
      exact h.records g hg

end Progress

theorem checkCycle_ok (h : t.checkCycle f = .ok t') (hp : Progress s t) :
    Progress s t' ∧ t'.recordOf f = t.recordOf f := by
  unfold checkCycle at h
  split at h
  · cases h
    exact ⟨hp, rfl⟩
  · split at h
    · cases h
      exact ⟨⟨hp.environment, hp.mainFile, hp.table, hp.graph, hp.overlay, hp.keepGlobs,
        hp.records⟩, rfl⟩
    · cases h

/-- A file is resolved only once, from what the session knew of it when it was finished. -/
theorem resolve_ok (h : t.resolve f = (.ok (), t')) (hp : Progress s t)
    (hs : (s.recordOf f).resolved = []) :
    t.recordOf f = s.recordOf f ∧ Progress s t' ∧ ∃ resolved,
      List.Forall₂ Resolves (classified s.environment s.table (s.recordOf f).uses) resolved ∧
      (∀ u ∈ resolved, Attributed s.table u) ∧
      t'.recordOf f = s.resolvedRecord f resolved := by
  unfold resolve resolveWith at h
  split at h
  · cases h
  · rename_i r hr
    obtain ⟨hstate, rfl⟩ := transition_ok hr
    have hrecord : t.recordOf f = s.recordOf f := hp.records f (by
      cases hst : (t.recordOf f).state <;> simp_all [FileState.next?])
    dsimp only at h
    generalize hres : resolveUses _ _ _ _ _ _ = out at h
    obtain ⟨result, a', r'⟩ := out
    obtain ⟨rfl, rfl⟩ := Prod.mk.inj h
    rw [hrecord, hp.environment, hp.table] at hres
    obtain ⟨resolved, hall, hattributed, rfl⟩ := resolveUses_ok hres
    have hlater : Progress s { t with attributor := a' } :=
      ⟨hp.environment, hp.mainFile, hp.table, hp.graph, hp.overlay, hp.keepGlobs, hp.records⟩
    refine ⟨hrecord, hlater.putRecord nofun, resolved, hall, hattributed, ?_⟩
    rw [recordOf_putRecord, if_pos rfl, hs, List.nil_append]
    rfl

/-- A use is attributed in a report as it is resolved. -/
theorem made_of_resolved {resolved : List ResolvedUse}
    (hall : List.Forall₂ Resolves (classified s.environment s.table (s.recordOf f).uses) resolved)
    (hattributed : ∀ u ∈ resolved, Attributed s.table u) :
    Made s on f ((Plan.make (s.context on) (s.resolvedRecord f resolved)).report (s.context on)
      (s.resolvedRecord f resolved)) where
  reported := ⟨resolved, hall, rfl⟩
  attributed o ho hnone := by
    obtain ⟨u, hu, slot, hd⟩ := forall₂_exists_left (Plan.forall₂_decided _ _) o ho
    rw [hd.attributed_eq] at hnone
    rw [hd.symbol_eq]
    exact hattributed u hu (Option.map_eq_none_iff.1 hnone)

/-- A report depends on what the session knew when it was finished, and leaves the rest to the
reports after it. -/
theorem finalizeFile_ok (h : t.finalizeFile on f = (.ok report, t')) (hp : Progress s t)
    (hs : (s.recordOf f).resolved = []) :
    t.recordOf f = s.recordOf f ∧ Made s on f report ∧ Progress s t' := by
  unfold finalizeFile at h
  split at h
  · cases h
  · rename_i t₁ ht₁
    obtain ⟨hp₁, hsame⟩ := checkCycle_ok ht₁ hp
    split at h
    · cases h
    · rename_i t₂ ht₂
      obtain ⟨hknown, hp₂, resolved, hall, hattributed, hrecord⟩ := resolve_ok ht₂ hp₁ hs
      split at h
      · cases h
      · rename_i r₂ hr₂
        obtain rfl := (recordOf_of_record? hr₂).symm.trans hrecord
        rw [hp₂.context_eq] at h
        unfold finalize at h
        split at h
        · cases h
        · rename_i _ r hr
          split at hr
          · rename_i done hdone
            obtain ⟨-, rfl⟩ := transition_ok hdone
            cases hr
            cases h
            exact ⟨hsame.symm.trans hknown, made_of_resolved hall hattributed, hp₂.putRecord nofun⟩
          · cases hr

/-- The reports of files that rely on no other. -/
theorem finalizeFiles_ok {fs : List FileName} {reports : List FileReport}
    (h : t.finalizeFiles fs = (.ok reports, t')) (hp : Progress s t)
    (hs : ∀ f, (s.recordOf f).resolved = []) :
    List.Forall₂ (Made s {}) fs reports ∧ Progress s t' := by
  induction fs generalizing t reports with
  | nil =>
    cases h
    exact ⟨.nil, hp⟩
  | cons f fs ih =>
    rw [finalizeFiles] at h
    split at h
    · cases h
    · rename_i report t₁ ht₁
      obtain ⟨-, hreport, hp₁⟩ := finalizeFile_ok ht₁ hp (hs f)
      split at h
      · cases h
      · rename_i reports' t₂ ht₂
        cases h
        obtain ⟨hreports, hp₂⟩ := ih ht₂ hp₁
        exact ⟨.cons hreport hreports, hp₂⟩

/-! ## All reports -/

/-- The reports on the main file, on its associated headers and on further files. -/
structure Reports (s : Session) (files : List FileReport) (main : FileReport)
    (associated extra : List FileReport) : Prop where
  files : files = main :: associated ++ extra
  main : Reported s (s.mainReliance s.associatedHeaders associated) s.mainFile main
  associated : List.Forall₂ (Reported s {}) s.associatedHeaders associated
  extra : List.Forall₂ (Reported s {}) s.extraFiles extra

theorem makeReports_ok {files : List FileReport}
    (h : { s with finished := true }.closeExports.makeReports = (.ok files, t))
    (hs : ∀ f, (s.recordOf f).resolved = []) :
    t.mainFile = s.mainFile ∧ ∃ main associated extra, files = main :: associated ++ extra ∧
      Made s (s.mainReliance s.associatedHeaders associated) s.mainFile main ∧
      List.Forall₂ (Made s {}) s.associatedHeaders associated ∧
      List.Forall₂ (Made s {}) s.extraFiles extra := by
  have hclosed : Progress s { s with finished := true }.closeExports :=
    ⟨rfl, rfl, rfl, rfl, rfl, rfl, fun _ _ => rfl⟩
  unfold makeReports at h
  dsimp only at h
  split at h
  · cases h
  · rename_i associated t₁ ht₁
    obtain ⟨hassociated, hp₁⟩ := finalizeFiles_ok ht₁ hclosed hs
    split at h
    · cases h
    · rename_i main t₂ ht₂
      rw [hp₁.mainFile] at ht₂
      obtain ⟨hrecord, hmain, hp₂⟩ := finalizeFile_ok ht₂ hp₁ (hs _)
      have hreliance : t₁.mainReliance s.associatedHeaders associated =
          s.mainReliance s.associatedHeaders associated := by
        simp only [mainReliance, precompiledHeader?, hp₁.environment, hp₁.mainFile, hrecord]
      split at h
      · cases h
      · rename_i extra t₃ ht₃
        cases h
        obtain ⟨hextra, hp₃⟩ := finalizeFiles_ok ht₃ hp₂ hs
        exact ⟨hp₃.mainFile, main, associated, extra, rfl, hreliance ▸ hmain, hassociated, hextra⟩

theorem finish_made {rep : SessionReport} (h : s.finish.1 = .ok rep)
    (hs : ∀ f, (s.recordOf f).resolved = []) :
    rep.mainFile = s.mainFile ∧ ∃ main associated extra, rep.files = main :: associated ++ extra ∧
      Made s (s.mainReliance s.associatedHeaders associated) s.mainFile main ∧
      List.Forall₂ (Made s {}) s.associatedHeaders associated ∧
      List.Forall₂ (Made s {}) s.extraFiles extra := by
  unfold finish at h
  split at h
  · cases h
  · split at h
    · cases h
    · rename_i files t ht
      cases h
      exact makeReports_ok ht hs

theorem finish_ok {rep : SessionReport} (h : s.finish.1 = .ok rep)
    (hs : ∀ f, (s.recordOf f).resolved = []) :
    rep.mainFile = s.mainFile ∧
      ∃ main associated extra, Reports s rep.files main associated extra := by
  obtain ⟨hmainFile, main, associated, extra, hfiles, hmain, hassociated, hextra⟩ :=
    finish_made h hs
  exact ⟨hmainFile, main, associated, extra, hfiles, hmain.reported,
    hassociated.imp fun _ _ hm => hm.reported, hextra.imp fun _ _ hm => hm.reported⟩

/-- A use without attribution is one of a symbol that nothing declares. -/
theorem candidates_of_unattributed {rep : SessionReport} {o : UseOutcome} (h : s.finish.1 = .ok rep)
    (hs : ∀ f, (s.recordOf f).resolved = []) (hreport : report ∈ rep.files)
    (ho : o ∈ report.uses) (hnone : o.attributed = none) : s.table.candidates o.symbol = [] := by
  obtain ⟨-, main, associated, extra, hfiles, hmain, hassociated, hextra⟩ := finish_made h hs
  rw [hfiles, List.mem_append, List.mem_cons] at hreport
  rcases hreport with (rfl | hreport) | hreport
  · exact hmain.attributed o ho hnone
  · obtain ⟨f, -, hm⟩ := forall₂_exists_left hassociated report hreport
    exact hm.attributed o ho hnone
  · obtain ⟨f, -, hm⟩ := forall₂_exists_left hextra report hreport
    exact hm.attributed o ho hnone

/-- The main file is reported first. -/
theorem Reports.mainReport?_eq {rep : SessionReport} {main : FileReport}
    {associated extra : List FileReport} (h : Reports s rep.files main associated extra)
    (hmain : rep.mainFile = s.mainFile) (hfile : (s.recordOf s.mainFile).file = s.mainFile) :
    rep.mainReport? = some main := by
  have hreport : main.file = s.mainFile := by
    obtain ⟨resolved, -, rfl⟩ := h.main
    exact hfile
  rw [SessionReport.mainReport?, h.files, List.cons_append]
  exact List.find?_cons_of_pos (by rw [hmain, hreport, beq_self_eq_true])

/-! ## What a report is about -/

theorem Reported.file (h : Reported s on f report) : report.file = (s.recordOf f).file := by
  obtain ⟨resolved, -, rfl⟩ := h
  rfl

theorem Reported.forall₂_decided (h : Reported s on f report) :
    ∃ resolved, report = (Plan.make (s.context on) (s.resolvedRecord f resolved)).report
        (s.context on) (s.resolvedRecord f resolved) ∧
      List.Forall₂ (fun c o => ∃ u, Resolves c u ∧
          ∃ slot, Plan.Decides (s.context on) (s.resolvedRecord f resolved) u slot o)
        (classified s.environment s.table (s.recordOf f).uses) report.uses := by
  obtain ⟨resolved, hall, rfl⟩ := h
  exact ⟨resolved, rfl, forall₂_comp hall (Plan.forall₂_decided _ _)⟩

theorem concerns_of_decides {c : Use × Verdict} {u : ResolvedUse} {ctx : DecisionContext}
    {r : FileRecord} {slot : Slot} {o : UseOutcome} (hu : Resolves c u)
    (hd : Plan.Decides ctx r u slot o) : Concerns c o := by
  rw [Concerns, hd.outcome, ← hu.1, ← hu.2]
  exact ⟨rfl, rfl, rfl⟩

/-- Only uses of known symbols are classified. -/
theorem find?_of_classified {env : Environment} {t : SymbolTable} {us : List Use}
    {c : Use × Verdict} (hc : c ∈ classified env t us) :
    c.1 ∈ us ∧ (t.find? c.1.symbol).isSome = true := by
  obtain ⟨u, hu, h⟩ := List.mem_filterMap.1 hc
  obtain ⟨verdict, hv, rfl⟩ := Option.map_eq_some_iff.1 h
  obtain ⟨symbol, hs, -⟩ := Option.bind_eq_some_iff.1 hv
  exact ⟨hu, by rw [hs]; rfl⟩

/-- Only symbols that the session knows have outcomes. -/
theorem find?_of_mem_uses (h : Reported s on f report) {o : UseOutcome} (ho : o ∈ report.uses) :
    (s.table.find? o.symbol).isSome = true := by
  obtain ⟨resolved, -, hall⟩ := h.forall₂_decided
  obtain ⟨c, hc, u, hu, slot, hdec⟩ := forall₂_exists_left hall o ho
  rw [(concerns_of_decides hu hdec).1]
  exact (find?_of_classified hc).2

/-- Each report is that of the main file, or of a file that relies on no header. -/
theorem Reports.reported_cases {files : List FileReport} {main : FileReport}
    {associated extra : List FileReport} (h : Reports s files main associated extra) :
    ∀ report ∈ files,
      Reported s (s.mainReliance s.associatedHeaders associated) s.mainFile report ∨
        ∃ f, Reported s {} f report := by
  rw [h.files]
  intro report hreport
  rcases List.mem_append.1 hreport with hreport | hreport
  · rcases List.mem_cons.1 hreport with rfl | hreport
    · exact .inl h.main
    · obtain ⟨f, -, hf⟩ := forall₂_exists_left h.associated report hreport
      exact .inr ⟨f, hf⟩
  · obtain ⟨f, -, hf⟩ := forall₂_exists_left h.extra report hreport
    exact .inr ⟨f, hf⟩

/-- Each report is about some file that relies on some headers. -/
theorem Reports.exists_reported {files : List FileReport} {main : FileReport}
    {associated extra : List FileReport} (h : Reports s files main associated extra) :
    ∀ report ∈ files, ∃ on f, Reported s on f report ∧
      (on = {} ∨ on = s.mainReliance s.associatedHeaders associated) := by
  intro report hreport
  rcases h.reported_cases report hreport with hmain | ⟨f, hf⟩
  · exact ⟨_, _, hmain, .inr rfl⟩
  · exact ⟨_, f, hf, .inl rfl⟩

theorem reported_of_mem {env : Environment} {main : FileName} {es : List Event}
    {rep : SessionReport} (hrec : Recorded env main es s) (hr : s.finish.1 = .ok rep)
    (hreport : report ∈ rep.files) : ∃ on, Reported s on report.file report := by
  obtain ⟨-, mainReport, associated, extra, h⟩ := finish_ok hr hrec.resolved
  obtain ⟨on, f, hreported, -⟩ := h.exists_reported report hreport
  have hfile : report.file = f := hreported.file.trans (hrec.file f)
  exact ⟨on, hfile ▸ hreported⟩

/-! ## The declarations of a file -/

/-- The symbols that the file declares by hand. -/
theorem Recorded.declaredSymbols {env : Environment} {main : FileName} {es : List Event}
    {resolved : List ResolvedUse} (hrec : Recorded env main es s) :
    Plan.declaredSymbols (s.context on) (s.resolvedRecord f resolved) =
      (forwardsIn f es).map (·.symbol) := by
  rw [Plan.declaredSymbols_eq, ← hrec.forward f]
  rfl

end Session

end IncludeAudit
