import IncludeAudit.Proofs.Decision.Tables
import IncludeAudit.Proofs.Session.Taking
import IncludeAudit.Session.Finish

/-!
# What finishing depends on

Sessions that are alike finish alike: their tables may have the symbols in different orders, and the
records of their files may have come up in different orders. Each step towards the reports gives the
same result for both and leaves sessions that are alike (`SameStep`).

* `finalizeFile_alike`: one report;
* `finish_alike`: the whole session.
-/

namespace IncludeAudit

namespace Session

variable {s t : Session} {f : FileName}

/-- Sessions that differ at most in the order of their symbols, in that of their files, and in which
files were entered. -/
structure Alike (s t : Session) : Prop where
  environment : s.environment = t.environment
  mainFile : s.mainFile = t.mainFile
  table : s.table.Alike t.table
  graph : s.graph = t.graph
  overlay : s.overlay = t.overlay
  attributor : s.attributor = t.attributor
  records : ∀ f, s.recordOf f = t.recordOf f
  openExports : s.openExports = t.openExports
  keepGlobs : s.keepGlobs = t.keepGlobs
  checkAlso : s.checkAlso = t.checkAlso
  log : s.log = t.log
  finished : s.finished = t.finished

/-- Two steps have the same result and leave sessions that are alike. -/
structure SameStep {α : Type} (x y : α × Session) : Prop where
  result : x.1 = y.1
  session : x.2.Alike y.2

theorem SameStep.exists_eq {α : Type} {x y : α × Session} (h : SameStep x y) :
    ∃ a s t, x = (a, s) ∧ y = (a, t) ∧ s.Alike t :=
  ⟨x.1, x.2, y.2, rfl, Prod.ext h.result.symm rfl, h.session⟩

/-! ## What is read of a session -/

theorem Alike.putRecord (h : s.Alike t) (f : FileName) (r : FileRecord) :
    (s.putRecord f r).Alike (t.putRecord f r) :=
  { h with
    records := fun g => by rw [recordOf_putRecord, recordOf_putRecord, h.records] }

theorem Alike.report (h : s.Alike t) (d : Diagnostic) : (s.report d).Alike (t.report d) :=
  { h with
    log := by rw [Session.report, Session.report, h.log] }

theorem Alike.context (h : s.Alike t) (on : Reliance) :
    t.context on = (s.context on).withTable t.table := by
  simp only [Session.context, DecisionContext.withTable, h.environment, h.graph, h.overlay,
    h.keepGlobs]

theorem Alike.associatedHeaders (h : s.Alike t) : s.associatedHeaders = t.associatedHeaders := by
  simp only [Session.associatedHeaders, h.mainFile, h.records]

theorem Alike.extraFiles (h : s.Alike t) : s.extraFiles = t.extraFiles := by
  simp only [Session.extraFiles, h.mainFile, h.graph, h.checkAlso, h.associatedHeaders]

theorem Alike.mainReliance (h : s.Alike t) (associated : List FileName)
    (reports : List FileReport) :
    s.mainReliance associated reports = t.mainReliance associated reports := by
  simp only [Session.mainReliance, precompiledHeader?, h.environment, h.mainFile, h.records]

/-! ## One report -/

theorem checkCycle_alike (h : s.Alike t) (f : FileName) :
    (∃ e, s.checkCycle f = .error e ∧ t.checkCycle f = .error e) ∨
      ∃ s' t', s.checkCycle f = .ok s' ∧ t.checkCycle f = .ok t' ∧ s'.Alike t' := by
  unfold checkCycle
  rw [← h.graph, ← h.environment]
  split
  · exact .inr ⟨s, t, rfl, rfl, h⟩
  · split
    · exact .inr ⟨_, _, rfl, rfl, h.report _⟩
    · exact .inl ⟨_, rfl, rfl⟩

theorem resolveUses_alike {t t' : SymbolTable} (h : t.Alike t') (env : Environment)
    (reach : Reachability) (us : List Use) (a : Attributor) (r : FileRecord) :
    resolveUses env t reach us a r = resolveUses env t' reach us a r := by
  induction us generalizing a r with
  | nil => rfl
  | cons u us ih => simp only [resolveUses, h.find?, Attributor.answer_alike h, ih]

theorem resolve_alike (h : s.Alike t) (f : FileName) : SameStep (s.resolve f) (t.resolve f) := by
  unfold resolve resolveWith
  rw [← h.records f]
  split
  · exact ⟨rfl, h⟩
  · rename_i r _
    dsimp only
    have hsame : resolveUses t.environment t.table (DistanceMap.ofGraph t.graph f).distance r.uses
        t.attributor r = resolveUses s.environment s.table (DistanceMap.ofGraph s.graph f).distance
        r.uses s.attributor r := by
      rw [resolveUses_alike h.table, h.environment, h.graph, h.attributor]
    rw [hsame]
    have hlater (a : Attributor) : Alike { s with attributor := a } { t with attributor := a } :=
      { h with attributor := rfl }
    exact ⟨rfl, (hlater _).putRecord f _⟩

/-- A file has a record once its uses are resolved. -/
theorem record?_of_resolve (h : s.resolve f = (.ok (), t)) : t.record? f = .ok (t.recordOf f) := by
  unfold resolve resolveWith at h
  split at h
  · cases h
  · obtain ⟨-, rfl⟩ := Prod.mk.inj h
    rw [record?_putRecord, recordOf_putRecord, if_pos rfl]

theorem finalizeFile_alike (h : s.Alike t) (on : Reliance) (f : FileName) :
    SameStep (s.finalizeFile on f) (t.finalizeFile on f) := by
  unfold finalizeFile
  rcases checkCycle_alike h f with ⟨e, hs, ht⟩ | ⟨s₁, t₁, hs, ht, h₁⟩
  · rw [hs, ht]
    exact ⟨rfl, h⟩
  · rw [hs, ht]
    obtain ⟨result, s₂, t₂, hs, ht, h₂⟩ := (resolve_alike h₁ f).exists_eq
    dsimp only
    rw [hs, ht]
    cases result with
    | error e => exact ⟨rfl, h₂⟩
    | ok =>
      dsimp only
      rw [h₂.context on, record?_of_resolve hs, record?_of_resolve ht]
      dsimp only
      rw [finalize_alike h₂.table, ← h₂.records f]
      split
      · exact ⟨rfl, h₂⟩
      · exact ⟨rfl, h₂.putRecord f _⟩

theorem finalizeFiles_alike (h : s.Alike t) (fs : List FileName) :
    SameStep (s.finalizeFiles fs) (t.finalizeFiles fs) := by
  induction fs generalizing s t with
  | nil => exact ⟨rfl, h⟩
  | cons f fs ih =>
    obtain ⟨first, s₁, t₁, hs, ht, h₁⟩ := (finalizeFile_alike h {} f).exists_eq
    rw [finalizeFiles, finalizeFiles, hs, ht]
    cases first with
    | error e => exact ⟨rfl, h₁⟩
    | ok report =>
      obtain ⟨rest, s₂, t₂, hs, ht, h₂⟩ := (ih h₁).exists_eq
      dsimp only
      rw [hs, ht]
      cases rest <;> exact ⟨rfl, h₂⟩

/-! ## All reports -/

theorem makeReports_alike (h : s.Alike t) : SameStep s.makeReports t.makeReports := by
  unfold makeReports
  dsimp only
  rw [← h.associatedHeaders, ← h.extraFiles]
  obtain ⟨associated, s₁, t₁, hs, ht, h₁⟩ := (finalizeFiles_alike h s.associatedHeaders).exists_eq
  rw [hs, ht]
  cases associated with
  | error e => exact ⟨rfl, h₁⟩
  | ok associated =>
    dsimp only
    rw [← h₁.mainReliance, ← h₁.mainFile]
    obtain ⟨main, s₂, t₂, hs, ht, h₂⟩ := (finalizeFile_alike h₁
      (s₁.mainReliance s.associatedHeaders associated) s₁.mainFile).exists_eq
    rw [hs, ht]
    cases main with
    | error e => exact ⟨rfl, h₂⟩
    | ok main =>
      obtain ⟨extra, s₃, t₃, hs, ht, h₃⟩ := (finalizeFiles_alike h₂ s.extraFiles).exists_eq
      dsimp only
      rw [hs, ht]
      cases extra <;> exact ⟨rfl, h₃⟩

theorem finish_alike (h : s.Alike t) : s.finish.1 = t.finish.1 := by
  unfold finish
  rw [← h.finished]
  split
  · rw [h.mainFile]
  · have hclosed : { s with finished := true }.closeExports.Alike
        { t with finished := true }.closeExports :=
      { h with
        openExports := rfl
        finished := rfl
        log := by simp only [closeExports, h.log, h.openExports] }
    obtain ⟨files, s₁, t₁, hs, ht, h₁⟩ := (makeReports_alike hclosed).exists_eq
    rw [hs, ht]
    cases files with
    | error e => rfl
    | ok files =>
      dsimp only
      rw [h₁.mainFile, h₁.log]

end Session

end IncludeAudit
