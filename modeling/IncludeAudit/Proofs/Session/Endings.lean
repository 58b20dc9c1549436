import IncludeAudit.Proofs.Session.Taking
import IncludeAudit.Proofs.Use.Registration
import IncludeAudit.Session.Finish

/-!
# How a session ends

Reports are made of one file after another, up to the first error. What can happen to a file is said
once: its report moves its record from collecting to finalized and leaves the other records alone
(`Leaves`), or there is none for one of three reasons (`Fails`). What a whole session does follows by
induction on the files that it reports (`EndsAll`):

* `finalizeFile_ends`, `finish_ends`: one file, and the whole session;
* `EndsAll.disjoint`, `EndsAll.split`, `EndsAll.error`: which files have reports, and what stops a
  session;
* `EndsAll.log`, `EndsAll.acyclic`: what is said of include cycles.
-/

namespace IncludeAudit

/-- The error of a result, if it is one. -/
def error? {ε α : Type} : Except ε α → Option ε
  | .ok _ => none
  | .error e => some e

/-- An error because of a specialization that two files instantiate. -/
def AnalysisError.IsInstantiation (e : AnalysisError) : Prop :=
  ∃ symbol specialization first second,
    e = .doubleInstantiation symbol specialization first second

namespace Session

variable {s t t' t'' : Session} {on : Reliance} {f : FileName} {fs gs done : List FileName}
  {e : AnalysisError} {failure : Option AnalysisError}

/-! ## What may happen to a file -/

/-- What no step towards the reports changes. -/
structure SameUnit (t t' : Session) : Prop where
  environment : t'.environment = t.environment
  mainFile : t'.mainFile = t.mainFile
  graph : t'.graph = t.graph
  finished : t'.finished = t.finished

theorem SameUnit.refl (t : Session) : SameUnit t t :=
  ⟨rfl, rfl, rfl, rfl⟩

theorem SameUnit.trans (h : SameUnit t t') (h' : SameUnit t' t'') : SameUnit t t'' where
  environment := h'.environment.trans h.environment
  mainFile := h'.mainFile.trans h.mainFile
  graph := h'.graph.trans h.graph
  finished := h'.finished.trans h.finished

/-- The diagnostic about the include cycle through a file, if there is one. -/
def cycleLog (g : IncludeGraph) (f : FileName) : DiagnosticLog :=
  ((g.findCycle f).map (.cycleIgnored f)).toList

/-- What the report of a file leaves behind. -/
structure Leaves (t : Session) (f : FileName) (t' : Session) : Prop where
  unit : SameUnit t t'
  collecting : (t.recordOf f).state = .collecting
  finalized : (t'.recordOf f).state = .finalized
  file : (t'.recordOf f).file = (t.recordOf f).file
  others : ∀ g, g ≠ f → t'.recordOf g = t.recordOf g
  log : t'.log = t.log ++ cycleLog t.graph f
  acyclic : t.environment.policy.ignoreCycles = false → t.graph.findCycle f = none

/-- Why a file has no report. -/
inductive Fails (t : Session) (f : FileName) : AnalysisError → Prop where
  | cycle {path : List FileName} (fatal : t.environment.policy.ignoreCycles = false)
    (found : t.graph.findCycle f = some path) : Fails t f (.includeCycle f path)
  | instantiation {e : AnalysisError} (h : e.IsInstantiation) : Fails t f e
  /-- The file has its report already. -/
  | again (h : (t.recordOf f).state ≠ .collecting) :
    Fails t f (.invalidTransition (t.recordOf f).file (t.recordOf f).state .resolving)

/-- How making the report of a file ends. -/
def Ends (t : Session) (f : FileName) : Except AnalysisError FileReport × Session → Prop
  | (.ok _, t') => Leaves t f t'
  | (.error e, t') => Fails t f e ∧ SameUnit t t'

/-! ## One file -/

theorem checkCycle_cases (t : Session) (f : FileName) :
    (∃ path, t.environment.policy.ignoreCycles = false ∧ t.graph.findCycle f = some path ∧
        t.checkCycle f = .error (.includeCycle f path)) ∨
      (t.environment.policy.ignoreCycles = false → t.graph.findCycle f = none) ∧
        t.checkCycle f = .ok { t with log := t.log ++ cycleLog t.graph f } := by
  unfold checkCycle
  cases hfound : t.graph.findCycle f with
  | none =>
    refine .inr ⟨fun _ => rfl, ?_⟩
    simp only [cycleLog, hfound, Option.map_none, Option.toList_none, List.append_nil]
  | some path =>
    cases hpolicy : t.environment.policy.ignoreCycles with
    | false => exact .inl ⟨path, rfl, rfl, rfl⟩
    | true =>
      refine .inr ⟨nofun, ?_⟩
      simp only [cycleLog, hfound, Option.map_some, Option.toList_some]
      rfl

theorem isInstantiation_of_answer {a : Attributor} {table : SymbolTable} {reach : Reachability}
    {u : Use} {usingIsAUse : Bool} (h : (a.answer table reach u usingIsAUse).1 = .error e) :
    e.IsInstantiation := by
  have hgives := Attributor.gives a table reach u usingIsAUse
  generalize a.answer table reach u usingIsAUse = out at hgives h
  cases hgives with
  | refused _ _ hregistered =>
    cases h
    obtain ⟨d, first, -, -, he⟩ :=
      Attributor.conflict_of_registerAll (congrArg Prod.fst hregistered)
    exact ⟨_, _, _, _, he⟩
  | _ => cases h

/-- A record that is resolving takes all resolved uses, so only an attribution stops it. The
induction is on the uses. -/
theorem resolveUses_cases (env : Environment) (table : SymbolTable) (reach : Reachability)
    (us : List Use) (a : Attributor) {r : FileRecord} (hr : r.state = .resolving) :
    (resolveUses env table reach us a r).2.2.state = .resolving ∧
      (resolveUses env table reach us a r).2.2.file = r.file ∧
      ∀ e, (resolveUses env table reach us a r).1 = .error e → e.IsInstantiation := by
  induction us generalizing a r with
  | nil => exact ⟨hr, rfl, nofun⟩
  | cons u us ih =>
    rw [resolveUses]
    split
    · exact ih a hr
    · split
      · rename_i e a' hanswer
        refine ⟨hr, rfl, fun e' he' => ?_⟩
        cases he'
        exact isInstantiation_of_answer (congrArg Prod.fst hanswer)
      · have hadd (v : ResolvedUse) :
            r.addResolved v = .ok { r with resolved := r.resolved ++ [v] } := if_pos hr
        simp only [hadd]
        exact ih _ hr

theorem transition_resolving {r : FileRecord} :
    r.transition .resolving =
      if r.state = .collecting then .ok { r with state := .resolving }
      else .error (.invalidTransition r.file r.state .resolving) := by
  unfold FileRecord.transition
  cases r.state <;> rfl

/-- Resolving the uses of a file begins only if its record is collecting. -/
theorem resolve_cases (t : Session) (f : FileName) :
    ((t.recordOf f).state ≠ .collecting ∧ t.resolve f =
        (.error (.invalidTransition (t.recordOf f).file (t.recordOf f).state .resolving), t)) ∨
      (t.recordOf f).state = .collecting ∧ ∃ result attributor r,
        t.resolve f = (result, { t with attributor }.putRecord f r) ∧
        r.state = .resolving ∧ r.file = (t.recordOf f).file ∧
        ∀ e, result = .error e → e.IsInstantiation := by
  unfold resolve resolveWith
  rw [transition_resolving]
  by_cases h : (t.recordOf f).state = .collecting
  · rw [if_pos h]
    obtain ⟨hstate, hfile, herror⟩ := resolveUses_cases t.environment t.table
      (DistanceMap.ofGraph t.graph f).distance (t.recordOf f).uses t.attributor
      (r := { t.recordOf f with state := .resolving }) rfl
    exact .inr ⟨h, _, _, _, rfl, hstate, hfile, herror⟩
  · rw [if_neg h]
    exact .inl ⟨h, rfl⟩

theorem finalizeFile_ends (t : Session) (on : Reliance) (f : FileName) :
    Ends t f (t.finalizeFile on f) := by
  unfold finalizeFile
  rcases checkCycle_cases t f with ⟨path, hfatal, hfound, hcheck⟩ | ⟨hacyclic, hcheck⟩
  · rw [hcheck]
    exact ⟨.cycle hfatal hfound, .refl t⟩
  · rw [hcheck]
    dsimp only
    rcases resolve_cases { t with log := t.log ++ cycleLog t.graph f } f with
      ⟨hstate, hresolve⟩ | ⟨hstate, result, attributor, r, hresolve, hresolving, hfile, herror⟩
    · rw [hresolve]
      exact ⟨.again hstate, ⟨rfl, rfl, rfl, rfl⟩⟩
    · rw [hresolve]
      cases result with
      | error e => exact ⟨.instantiation (herror e rfl), ⟨rfl, rfl, rfl, rfl⟩⟩
      | ok =>
        have hdone : r.transition .finalized = .ok { r with state := .finalized } := by
          rw [FileRecord.transition, hresolving]
          rfl
        dsimp only
        rw [record?_putRecord]
        simp only [finalize, hdone]
        refine ⟨⟨rfl, rfl, rfl, rfl⟩, hstate, ?_, ?_, fun g hg => ?_, rfl, hacyclic⟩
        · rw [recordOf_putRecord, if_pos rfl]
        · rw [recordOf_putRecord, if_pos rfl]
          exact hfile
        · rw [recordOf_putRecord, if_neg hg, recordOf_putRecord, if_neg hg]
          rfl

/-! ## One file after another -/

/-- How making the reports of files ends that are taken one after another. -/
inductive EndsAll : Session → List FileName → Option AnalysisError → Session → Prop where
  | done (t : Session) : EndsAll t [] none t
  | next {t t' t'' : Session} {f : FileName} {fs : List FileName} {failure : Option AnalysisError}
    (head : Leaves t f t') (tail : EndsAll t' fs failure t'') : EndsAll t (f :: fs) failure t''
  | stop {t t' : Session} {f : FileName} {fs : List FileName} {e : AnalysisError}
    (head : Fails t f e) (unit : SameUnit t t') : EndsAll t (f :: fs) (some e) t'

namespace EndsAll

theorem append (h : EndsAll t fs none t') (h' : EndsAll t' gs failure t'') :
    EndsAll t (fs ++ gs) failure t'' := by
  generalize hnone : none = start at h
  induction h with
  | done => exact h'
  | next head _ ih => exact .next head (ih h' hnone)
  | stop => cases hnone

theorem append_of_some (h : EndsAll t fs (some e) t') (gs : List FileName) :
    EndsAll t (fs ++ gs) (some e) t' := by
  generalize hsome : some e = failure at h
  induction h with
  | done => cases hsome
  | next head _ ih => exact .next head (ih hsome)
  | stop head unit => exact .stop head unit

theorem sameUnit (h : EndsAll t fs failure t') : SameUnit t t' := by
  induction h with
  | done t => exact .refl t
  | next head _ ih => exact head.unit.trans ih
  | stop _ unit => exact unit

/-- If all files have reports, there is one diagnostic for each that lies on a cycle. -/
theorem log (h : EndsAll t fs none t') : t'.log = t.log ++ fs.flatMap (cycleLog t.graph) := by
  generalize hnone : none = failure at h
  induction h with
  | done => exact (List.append_nil _).symm
  | next head _ ih =>
    rw [ih hnone, head.log, head.unit.graph, List.append_assoc, List.flatMap_cons]
  | stop => cases hnone

/-- If cycles are fatal, no file that has a report lies on one. -/
theorem acyclic (h : EndsAll t fs none t') (hfatal : t.environment.policy.ignoreCycles = false) :
    ∀ f ∈ fs, t.graph.findCycle f = none := by
  generalize hnone : none = failure at h
  induction h with
  | done => exact List.forall_mem_nil _
  | next head _ ih =>
    rw [List.forall_mem_cons]
    rw [head.unit.environment, head.unit.graph] at ih
    exact ⟨head.acyclic hfatal, ih hfatal hnone⟩
  | stop => cases hnone

end EndsAll

/-! ## Which files have reports -/

/-- The given files have reports and the others are still collecting. -/
def HaveReports (done : List FileName) (t : Session) : Prop :=
  ∀ f, (t.recordOf f).file = f ∧
    (t.recordOf f).state = if f ∈ done then .finalized else .collecting

theorem HaveReports.leaves (h : HaveReports done t) (hl : Leaves t f t') :
    f ∉ done ∧ HaveReports (f :: done) t' := by
  constructor
  · intro hf
    have hstate := (h f).2
    rw [if_pos hf, hl.collecting] at hstate
    cases hstate
  · intro g
    by_cases hg : g = f
    · subst hg
      exact ⟨hl.file.trans (h g).1, by rw [hl.finalized, if_pos List.mem_cons_self]⟩
    · rw [hl.others g hg]
      simpa [hg] using h g

namespace EndsAll

theorem haveReports (h : EndsAll t fs none t') (hd : HaveReports done t) :
    HaveReports (fs.reverse ++ done) t' := by
  generalize hnone : none = failure at h
  induction h generalizing done with
  | done => exact hd
  | next head _ ih =>
    rw [List.reverse_cons, List.append_assoc]
    exact ih (hd.leaves head).2 hnone
  | stop => cases hnone

/-- A file has one report only. -/
theorem disjoint (h : EndsAll t fs none t') (hd : HaveReports done t) :
    fs.Nodup ∧ ∀ f ∈ fs, f ∉ done := by
  generalize hnone : none = failure at h
  induction h generalizing done with
  | done => exact ⟨List.nodup_nil, List.forall_mem_nil _⟩
  | next head _ ih =>
    obtain ⟨hnew, hd'⟩ := hd.leaves head
    obtain ⟨hnodup, hrest⟩ := ih hd' hnone
    rw [List.nodup_cons, List.forall_mem_cons]
    refine ⟨⟨fun hmem => hrest _ hmem List.mem_cons_self, hnodup⟩, hnew, fun g hg => ?_⟩
    exact fun hmem => hrest g hg (List.mem_cons_of_mem _ hmem)
  | stop => cases hnone

/-- The files before the one that has no report have theirs. -/
theorem split (h : EndsAll t fs (some e) t') : ∃ before f after t₁,
    fs = before ++ f :: after ∧ EndsAll t before none t₁ ∧ Fails t₁ f e := by
  generalize hsome : some e = failure at h
  induction h with
  | done => cases hsome
  | @next t _ _ f _ _ head _ ih =>
    obtain ⟨before, g, after, t₁, hfs, hbefore, hfails⟩ := ih hsome
    exact ⟨f :: before, g, after, t₁, by rw [hfs, List.cons_append], .next head hbefore, hfails⟩
  | @stop t _ f fs _ head _ =>
    cases hsome
    exact ⟨[], f, fs, t, rfl, .done t, head⟩

/-- What stops a session is a cycle, an instantiation, or a file that comes a second time. -/
theorem error (h : EndsAll t fs (some e) t') (hd : HaveReports [] t) :
    ∃ before f after, fs = before ++ f :: after ∧
      (t.environment.policy.ignoreCycles = false → ∀ g ∈ before, t.graph.findCycle g = none) ∧
      ((t.environment.policy.ignoreCycles = false ∧
          ∃ path, t.graph.findCycle f = some path ∧ e = .includeCycle f path) ∨
        e.IsInstantiation ∨ f ∈ before ∧ e = .invalidTransition f .finalized .resolving) := by
  obtain ⟨before, f, after, t₁, hfs, hbefore, hfails⟩ := h.split
  refine ⟨before, f, after, hfs, hbefore.acyclic, ?_⟩
  rw [← hbefore.sameUnit.environment, ← hbefore.sameUnit.graph]
  cases hfails with
  | cycle hfatal hfound => exact .inl ⟨hfatal, _, hfound, rfl⟩
  | instantiation h => exact .inr (.inl h)
  | again hstate =>
    have hdone := (hbefore.haveReports hd) f
    have hf : f ∈ before := Decidable.byContradiction fun hf =>
      hstate (hdone.2.trans (if_neg (by simpa using hf)))
    refine .inr (.inr ⟨hf, ?_⟩)
    rw [hdone.1, hdone.2, if_pos (by simpa using hf)]

end EndsAll

/-! ## The whole session -/

/-- A session when its reports are made: it counts as finished and has closed its export regions. -/
def closed (s : Session) : Session :=
  { s with finished := true }.closeExports

/-- The files that are reported, in the order in which their reports are made. -/
def reportOrder (s : Session) : List FileName :=
  s.associatedHeaders ++ s.mainFile :: s.extraFiles

theorem finalizeFiles_ends (t : Session) (fs : List FileName) :
    EndsAll t fs (error? (t.finalizeFiles fs).1) (t.finalizeFiles fs).2 := by
  induction fs generalizing t with
  | nil => exact .done t
  | cons f fs ih =>
    rw [finalizeFiles]
    have hfirst := finalizeFile_ends t {} f
    split
    · rename_i e t' hfile
      rw [hfile] at hfirst
      exact .stop hfirst.1 hfirst.2
    · rename_i report t' hfile
      rw [hfile] at hfirst
      have hrest := ih t'
      split
      · rename_i hfiles
        rw [hfiles] at hrest
        exact .next hfirst hrest
      · rename_i hfiles
        rw [hfiles] at hrest
        exact .next hfirst hrest

theorem makeReports_ends (t : Session) :
    EndsAll t t.reportOrder (error? t.makeReports.1) t.makeReports.2 := by
  unfold makeReports reportOrder
  dsimp only
  have hassociated := finalizeFiles_ends t t.associatedHeaders
  split
  · rename_i hfiles
    rw [hfiles] at hassociated
    exact hassociated.append_of_some _
  · rename_i reports t₁ hfiles
    rw [hfiles] at hassociated
    have hsame : t₁.mainFile = t.mainFile := hassociated.sameUnit.mainFile
    have hmain := finalizeFile_ends t₁ (t₁.mainReliance t.associatedHeaders reports) t₁.mainFile
    refine hassociated.append ?_
    rw [hsame] at hmain ⊢
    split
    · rename_i hfile
      rw [hfile] at hmain
      exact .stop hmain.1 hmain.2
    · rename_i t₂ hfile
      rw [hfile] at hmain
      have hextra := finalizeFiles_ends t₂ t.extraFiles
      split
      · rename_i hfiles
        rw [hfiles] at hextra
        exact .next hmain hextra
      · rename_i hfiles
        rw [hfiles] at hextra
        exact .next hmain hextra

/-- A session that is not finished yet makes its reports in order and is finished then, whether
they are made or not. -/
theorem finish_ends (h : s.finished = false) :
    ∃ t, EndsAll s.closed s.reportOrder (error? s.finish.1) t ∧
      s.finish.2.finished = true ∧ s.finish.2.mainFile = s.mainFile ∧
      ∀ rep, s.finish.1 = .ok rep → rep.diagnostics = t.log := by
  have hends : EndsAll s.closed s.reportOrder
      (error? { s with finished := true }.closeExports.makeReports.1)
      { s with finished := true }.closeExports.makeReports.2 := makeReports_ends s.closed
  rw [finish, if_neg (by simp [h])]
  split
  · rename_i e t ht
    rw [ht] at hends
    exact ⟨t, hends, hends.sameUnit.finished, hends.sameUnit.mainFile, nofun⟩
  · rename_i files t ht
    rw [ht] at hends
    refine ⟨t, hends, hends.sameUnit.finished, hends.sameUnit.mainFile, fun rep hrep => ?_⟩
    cases hrep
    rfl

end Session

end IncludeAudit
