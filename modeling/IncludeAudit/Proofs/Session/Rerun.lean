import IncludeAudit.Proofs.Decision.Cleanness
import IncludeAudit.Proofs.Line.Order
import IncludeAudit.Proofs.Session.Reporting
import IncludeAudit.Session.CompilationUnit

/-!
# Running on the result of a run

A main file that has the includes of its full list should need no further change. It may need one
still: another order of the same includes may associate another header with the file, and another
choice may be made among includes that stay in any case. `rerun_isClean_iff` says what the second
run has to find for the file to be clean (`Reproduces`), and that it finds this if it asks for the
same as the first run and each include is the only one on the list for some use (`Stable`).

* `Rerun`: the facts of the second run;
* `mainReport_isClean_iff`: when a main file without declarations is clean;
* `reproduces_of_stable`: when the second run finds what the first one did.
-/

namespace IncludeAudit

/-- The pragma of the first directive by which the facts include a file. -/
def firstPragma? (includer : FileName) (es : List Event) (f : FileName) : Option IncludePragma :=
  ((directivesIn includer es).find? (·.included == f)).bind (·.pragma)

/-- True of a fact that is no include directive of the file. -/
def Event.isOther (includer : FileName) (e : Event) : Bool :=
  (e.directiveIn? includer).isNone

/-- The second facts are the first ones, except that the main file has one directive for each of the
given files, with the pragma of the first directive that it had for that file. -/
structure Rerun (main : FileName) (fs : List FileName) (es es' : List Event) : Prop where
  others : es'.filter (·.isOther main) = es.filter (·.isOther main)
  directives : (directivesIn main es').map (fun d => (d.included, d.pragma)) =
    fs.map fun f => (f, firstPragma? main es f)

namespace Session

variable {env : Environment} {main f : FileName} {es es' : List Event} {s s' : Session}
  {rep rep' : SessionReport} {report report' : FileReport} {on : Reliance}

/-- The candidate providers of a use in the main file that the file may include. -/
def offered (s : Session) (o : UseOutcome) : List FileName :=
  (s.context {}).offered (s.recordOf s.mainFile) o

/-- True of an include that the main file keeps whether it is used or not. -/
def protects (s : Session) (f : FileName) : Bool :=
  (s.context { associated := s.associatedHeaders }).isProtected (s.recordOf s.mainFile) f

/-- The session finds that the given includes are what its main file needs: each use that an include
serves has a usable candidate among them, each of them is protected or serves a use, and no
declaration is proposed. -/
structure Reproduces (s : Session) (fs : List FileName) (report : FileReport) : Prop where
  enough : ∀ o ∈ report.uses, ∀ f, Plan.ServedBy o f → ∃ c ∈ s.offered o, c ∈ fs
  useful : ∀ f ∈ fs, s.protects f = true ∨ ∃ o ∈ report.uses, Plan.ServedBy o f
  undeclared : ∀ o ∈ report.uses, o.status ≠ .forwardDeclared

/-- Two sessions ask for the same with one outcome each: an include serves both uses or neither, the
same files are offered for them, and a declaration is proposed for both or for neither. -/
structure AskAlike (s s' : Session) (o o' : UseOutcome) : Prop where
  served : (∃ f, Plan.ServedBy o f) ↔ ∃ f, Plan.ServedBy o' f
  offered : ∀ f, f ∈ s.offered o ↔ f ∈ s'.offered o'
  declared : o.status = .forwardDeclared ↔ o'.status = .forwardDeclared

/-- The second session asks for the same as the first, and each include on the full list of the
first is protected in the second or the only one on the list that some use can do with. -/
structure Stable (s s' : Session) (report report' : FileReport) : Prop where
  alike : List.Forall₂ (AskAlike s s') report.uses report'.uses
  needed : ∀ f ∈ report.fullIncludes, s'.protects f = true ∨ ∃ o ∈ report.uses,
    Plan.ServedBy o f ∧ ∀ g ∈ s.offered o, g ∈ report.fullIncludes → g = f

/-! ## Forward declarations -/

/-- A file has no hand-written declarations exactly if no fact is one. -/
theorem Recorded.presentDeclarations_eq_nil (hrec : Recorded env main es s)
    {resolved : List ResolvedUse} :
    Plan.presentDeclarations (s.context on) (s.resolvedRecord f resolved) = [] ↔
      ∀ e ∈ es, e.declaresIn f = false := by
  calc Plan.presentDeclarations (s.context on) (s.resolvedRecord f resolved) = []
      ↔ Plan.declaredSymbols (s.context on) (s.resolvedRecord f resolved) = [] :=
        List.map_eq_nil_iff.symm
    _ ↔ forwardsIn f es = [] := by rw [hrec.declaredSymbols, List.map_eq_nil_iff]
    _ ↔ ∀ e ∈ es, e.forwardIn? f = none := List.filterMap_eq_nil_iff
    _ ↔ ∀ e ∈ es, e.declaresIn f = false :=
        forall₂_congr fun _ _ => Event.forwardIn?_eq_none

theorem declaresIn_of_rerun {fs : List FileName} (hre : Rerun main fs es es')
    (h : ∀ e ∈ es, e.declaresIn main = false) : ∀ e ∈ es', e.declaresIn main = false := by
  intro e he
  cases e with
  | declaration d =>
    have hmem : .declaration d ∈ es'.filter (·.isOther main) := List.mem_filter.2 ⟨he, rfl⟩
    rw [hre.others] at hmem
    exact h _ (List.mem_filter.1 hmem).1
  | _ => rfl

/-! ## Clean main files -/

/-- The report of the main file, and the headers on which the main file relies. -/
theorem reported_of_mainReport (hrec : Recorded env main es s) (hr : s.finish.1 = .ok rep)
    (hm : rep.mainReport? = some report) :
    ∃ associated, Reported s (s.mainReliance s.associatedHeaders associated) s.mainFile report := by
  obtain ⟨hmain, mainReport, associated, extra, h⟩ := finish_ok hr hrec.resolved
  rw [h.mainReport?_eq hmain (hrec.file _)] at hm
  obtain rfl := Option.some.inj hm
  exact ⟨associated, h.main⟩

theorem Recorded.includes_main (hrec : Recorded env main es s) {resolved : List ResolvedUse} :
    (s.resolvedRecord s.mainFile resolved).includes = directivesIn main es := by
  rw [← hrec.mainFile]
  exact hrec.includes _

theorem Recorded.mem_present_main (hrec : Recorded env main es s) {resolved : List ResolvedUse} :
    f ∈ (s.resolvedRecord s.mainFile resolved).present ↔
      f ∈ (directivesIn main es).map (·.included) := by
  rw [Plan.mem_present, hrec.includes_main]

theorem mainReport_isClean_iff (hrec : Recorded env main es s) (hp : env.policy = {})
    (hr : s.finish.1 = .ok rep) (hm : rep.mainReport? = some report)
    (hnodup : ((directivesIn main es).map (·.included)).Nodup)
    (hd : ∀ e ∈ es, e.declaresIn main = false) :
    report.isClean = true ↔ s.Reproduces ((directivesIn main es).map (·.included)) report := by
  obtain ⟨associated, hreported⟩ := reported_of_mainReport hrec hr hm
  have hknown := fun o ho => find?_of_mem_uses hreported (o := o) ho
  obtain ⟨resolved, -, rfl⟩ := hreported
  have hprotected : ∀ f, (s.context (s.mainReliance s.associatedHeaders associated)).isProtected
      (s.resolvedRecord s.mainFile resolved) f = s.protects f := by
    have hpch : (s.mainReliance s.associatedHeaders associated).precompiled = none := by
      simp [mainReliance, precompiledHeader?, hrec.environment, hp]
    intro f
    simp only [protects, DecisionContext.isProtected, context, hpch]
    rfl
  rw [Plan.isClean_iff (by simp [context, hrec.environment, hp]) (hrec.includes_main ▸ hnodup)
    (hrec.presentDeclarations_eq_nil.2 (hrec.mainFile ▸ hd)) hknown]
  simp only [hrec.mem_present_main, hprotected]
  exact ⟨fun h => ⟨h.1, h.2.1, h.2.2⟩, fun h => ⟨h.enough, h.useful, h.undeclared⟩⟩

/-! ## The second run -/

theorem analyze_of_session (hs : (start env main).takeAll es = .ok s) (hr : s.finish.1 = .ok rep) :
    CompilationUnit.analyze env ⟨main, es⟩ = .ok rep := by
  rw [CompilationUnit.analyze, hs]
  exact hr

theorem analyze_ok (h : CompilationUnit.analyze env ⟨main, es⟩ = .ok rep) :
    ∃ s, (start env main).takeAll es = .ok s ∧ s.finish.1 = .ok rep := by
  unfold CompilationUnit.analyze at h
  dsimp only at h
  split at h
  · cases h
  · rename_i s hs
    exact ⟨s, hs, h⟩

/-- If the report of the main file has only include lines, the main file declares nothing. -/
theorem declaresIn_of_lines (hrec : Recorded env main es s) (hr : s.finish.1 = .ok rep)
    (hm : rep.mainReport? = some report)
    (hl : ∀ l ∈ report.full ++ report.remove, l.isDeclaration = false) :
    ∀ e ∈ es, e.declaresIn main = false := by
  obtain ⟨associated, resolved, -, rfl⟩ := reported_of_mainReport hrec hr hm
  rw [← hrec.mainFile]
  exact hrec.presentDeclarations_eq_nil.1 (Plan.presentDeclarations_eq_nil
    (fun l hl' => hl l (List.mem_append_left _ hl'))
    fun l hl' => hl l (List.mem_append_right _ hl'))

theorem nodup_of_mainReport (hrec : Recorded env main es s) (hr : s.finish.1 = .ok rep)
    (hm : rep.mainReport? = some report) : report.fullIncludes.Nodup := by
  obtain ⟨associated, resolved, -, rfl⟩ := reported_of_mainReport hrec hr hm
  exact Plan.nodup_fullIncludes

/-! ## Finding the same again -/

/-- An include that serves a use is offered for it, and it is on the full list. -/
theorem offered_of_servedBy (hrec : Recorded env main es s) (hp : env.policy = {})
    (hr : s.finish.1 = .ok rep) (hm : rep.mainReport? = some report) {o : UseOutcome}
    (ho : o ∈ report.uses) (hs : Plan.ServedBy o f) :
    f ∈ s.offered o ∧ f ∈ report.fullIncludes := by
  obtain ⟨associated, resolved, -, rfl⟩ := reported_of_mainReport hrec hr hm
  have hoffered : f ∈ (s.context (s.mainReliance s.associatedHeaders associated)).offered
      (s.resolvedRecord s.mainFile resolved) o :=
    Plan.mem_offered_of_servedBy (by simp [context, hrec.environment, hp]) ho hs
  refine ⟨hoffered, ?_⟩
  exact Plan.mem_fullIncludes.2 (OrderedSet.mem_union.2 (.inl (Plan.mem_chosen_iff.2 ⟨o, ho, hs⟩)))

/-- If the includes of the main file are enough, no other serves a use. -/
theorem present_of_servedBy (hrec : Recorded env main es s) (hp : env.policy = {})
    (hr : s.finish.1 = .ok rep) (hm : rep.mainReport? = some report)
    (henough : ∀ o ∈ report.uses, ∀ f, Plan.ServedBy o f →
      ∃ c ∈ s.offered o, c ∈ (directivesIn main es).map (·.included))
    {o : UseOutcome} (ho : o ∈ report.uses) (hs : Plan.ServedBy o f) :
    f ∈ (directivesIn main es).map (·.included) := by
  obtain ⟨associated, resolved, -, rfl⟩ := reported_of_mainReport hrec hr hm
  refine hrec.mem_present_main.1 ((Plan.chosen_present_iff
    (by simp [context, hrec.environment, hp])).2 (fun o ho f hs => ?_) f
    (Plan.mem_chosen_iff.2 ⟨o, ho, hs⟩))
  obtain ⟨c, hc, hmem⟩ := henough o ho f hs
  exact ⟨c, hc, hrec.mem_present_main.2 hmem⟩

/-- If the report of the main file has only include lines, no declaration is proposed. -/
theorem undeclared_of_lines (hrec : Recorded env main es s) (hr : s.finish.1 = .ok rep)
    (hm : rep.mainReport? = some report)
    (hl : ∀ l ∈ report.full ++ report.add ++ report.remove, l.isDeclaration = false) :
    ∀ o ∈ report.uses, o.status ≠ .forwardDeclared := by
  obtain ⟨associated, hreported⟩ := reported_of_mainReport hrec hr hm
  have hknown := fun o ho => find?_of_mem_uses hreported (o := o) ho
  obtain ⟨resolved, -, rfl⟩ := hreported
  simp only [List.mem_append] at hl
  have hnone : Plan.presentDeclarations (s.context (s.mainReliance s.associatedHeaders associated))
      (s.resolvedRecord s.mainFile resolved) = [] :=
    Plan.presentDeclarations_eq_nil (fun l h => hl l (.inl (.inl h))) fun l h => hl l (.inr h)
  exact (Plan.addedDeclarationLines_eq_nil_iff hnone hknown).1
    (Plan.addedDeclarationLines_eq_nil_of_lines fun l h => hl l (.inl (.inr h)))

/-- A second session that has the includes of the full list of the first and asks for the same finds
them to be what it needs. What serves a use in the second is on the list, since what served it in
the first is; so an include that is the only one for a use serves it again. -/
theorem reproduces_of_stable (hp : env.policy = {}) (hrec : Recorded env main es s)
    (hr : s.finish.1 = .ok rep) (hm : rep.mainReport? = some report)
    (hl : ∀ l ∈ report.full ++ report.add ++ report.remove, l.isDeclaration = false)
    (hrec' : Recorded env main es' s') (hr' : s'.finish.1 = .ok rep')
    (hm' : rep'.mainReport? = some report')
    (hincluded : (directivesIn main es').map (·.included) = report.fullIncludes)
    (h : Stable s s' report report') : s'.Reproduces report.fullIncludes report' := by
  have henough : ∀ o' ∈ report'.uses, ∀ f, Plan.ServedBy o' f →
      ∃ c ∈ s'.offered o', c ∈ report.fullIncludes := by
    intro o' ho' f hs'
    obtain ⟨o, ho, halike⟩ := forall₂_exists_left h.alike o' ho'
    obtain ⟨g, hs⟩ := halike.served.2 ⟨f, hs'⟩
    obtain ⟨hoffered, hlisted⟩ := offered_of_servedBy hrec hp hr hm ho hs
    exact ⟨g, (halike.offered g).1 hoffered, hlisted⟩
  refine ⟨henough, fun f hf => ?_, fun o' ho' hs' => ?_⟩
  · rcases h.needed f hf with hprotected | ⟨o, ho, hs, hsole⟩
    · exact .inl hprotected
    · obtain ⟨o', ho', halike⟩ := forall₂_exists_right h.alike o ho
      obtain ⟨g, hs'⟩ := halike.served.1 ⟨f, hs⟩
      have hlisted : g ∈ report.fullIncludes := by
        rw [← hincluded] at henough ⊢
        exact present_of_servedBy hrec' hp hr' hm' henough ho' hs'
      have hoffered := (halike.offered g).2 (offered_of_servedBy hrec' hp hr' hm' ho' hs').1
      exact .inr ⟨o', ho', hsole g hoffered hlisted ▸ hs'⟩
  · obtain ⟨o, ho, halike⟩ := forall₂_exists_left h.alike o' ho'
    exact undeclared_of_lines hrec hr hm hl o ho (halike.declared.2 hs')

/-! ## Main result -/

/-- A second run on the full list of the first gives a clean report on the main file exactly if it
succeeds and finds that these includes are what the file needs. It finds this if it asks for the
same as the first run and each include is protected or the only one on the list for some use. -/
theorem rerun_isClean_iff (hp : env.policy = {})
    (h : CompilationUnit.analyze env ⟨main, es⟩ = .ok rep) (hm : rep.mainReport? = some report)
    (hl : ∀ l ∈ report.full ++ report.add ++ report.remove, l.isDeclaration = false)
    (hre : Rerun main report.fullIncludes es es') :
    ((∃ rep' report', CompilationUnit.analyze env ⟨main, es'⟩ = .ok rep' ∧
        rep'.mainReport? = some report' ∧ report'.add = [] ∧ report'.remove = []) ↔
      ∃ s' rep' report', (start env main).takeAll es' = .ok s' ∧ s'.finish.1 = .ok rep' ∧
        rep'.mainReport? = some report' ∧ s'.Reproduces report.fullIncludes report') ∧
    ∀ s s' rep' report', (start env main).takeAll es = .ok s →
      (start env main).takeAll es' = .ok s' → s'.finish.1 = .ok rep' →
      rep'.mainReport? = some report' → Stable s s' report report' →
        s'.Reproduces report.fullIncludes report' := by
  obtain ⟨s, hs, hr⟩ := analyze_ok h
  have hrec := recorded_of_takeAll hs
  have hincluded : (directivesIn main es').map (·.included) = report.fullIncludes := by
    simpa [Function.comp_def] using congrArg (List.map Prod.fst) hre.directives
  have hdeclares := declaresIn_of_rerun hre (declaresIn_of_lines hrec hr hm fun l hl' =>
    hl l (by simp only [List.mem_append] at hl' ⊢; exact hl'.imp .inl id))
  have hclean : ∀ {s' rep' report'}, (start env main).takeAll es' = .ok s' →
      s'.finish.1 = .ok rep' → rep'.mainReport? = some report' →
      (report'.add = [] ∧ report'.remove = [] ↔ s'.Reproduces report.fullIncludes report') := by
    intro s' rep' report' hs' hr' hm'
    rw [← hincluded, ← mainReport_isClean_iff (recorded_of_takeAll hs') hp hr' hm'
      (hincluded ▸ nodup_of_mainReport hrec hr hm) hdeclares, FileReport.isClean, Bool.and_eq_true,
      List.isEmpty_iff, List.isEmpty_iff]
  refine ⟨⟨?_, ?_⟩, ?_⟩
  · rintro ⟨rep', report', h', hm', hempty⟩
    obtain ⟨s', hs', hr'⟩ := analyze_ok h'
    exact ⟨s', rep', report', hs', hr', hm', (hclean hs' hr' hm').1 hempty⟩
  · rintro ⟨s', rep', report', hs', hr', hm', hreproduces⟩
    exact ⟨rep', report', analyze_of_session hs' hr', hm', (hclean hs' hr' hm').2 hreproduces⟩
  · intro s₁ s' rep' report' hs₁ hs' hr' hm' hstable
    obtain rfl := Except.ok.inj (hs.symm.trans hs₁)
    exact reproduces_of_stable hp hrec hr hm hl (recorded_of_takeAll hs') hr' hm' hincluded hstable

/-! ## A use that a header serves -/

/-- A session that reports on its main file, with what is checked of the report. -/
theorem exists_mainReport {q : Session → FileReport → Bool}
    (h : ((start env main).takeAll es).toOption.any (fun s =>
      s.finish.1.toOption.any fun rep => rep.mainReport?.any (q s)) = true) :
    ∃ s rep report, (start env main).takeAll es = .ok s ∧ s.finish.1 = .ok rep ∧
      rep.mainReport? = some report ∧ q s report = true := by
  obtain ⟨s, hs, h⟩ := exists_ok h
  obtain ⟨rep, hr, h⟩ := exists_ok h
  obtain ⟨report, hm, hq⟩ := (Option.any_eq_true ..).1 h
  exact ⟨s, rep, report, hs, hr, hm, hq⟩

/-- A directive of the source file `x.cc`. -/
def sourceDirective (header : String) (line : Nat) (pragma : Option IncludePragma) :
    IncludeDirective :=
  ⟨.quoted "x.cc", .quoted header, .line line, pragma⟩

/-- The source file uses the class `S` of `s.h`. -/
def memberUse : List Event :=
  [ .declaration { symbol := ⟨"S", .record⟩, location := .plain ⟨.quoted "s.h", 3, 1⟩
                   isDefinition := true },
    .use { symbol := ⟨"S", .record⟩, location := .plain ⟨.quoted "x.cc", 4, 1⟩
           referencingFile := .quoted "x.cc", hints := { memberAccess := true } } ]

/-- It includes another header before that one. -/
def idleBefore : List Event :=
  .directive (sourceDirective "a.h" 1 none) :: .directive (sourceDirective "s.h" 2 none) ::
    memberUse

/-- It includes that header only. -/
def servingOnly : List Event :=
  .directive (sourceDirective "s.h" 1 none) :: memberUse

/-- What is decided on the use in both runs. -/
def servedUse : UseOutcome where
  symbol := ⟨"S", .record⟩
  line := 4
  kind := .full
  rule := "complete_type_context"
  attributed := some (.quoted "s.h")
  status := .included (.quoted "s.h")

/-- The header that serves the use stays and is the only one that is offered for it; the other goes,
and then nothing more has to change. -/
theorem clean_after_idleBefore :
    ∃ rep report, CompilationUnit.analyze (plainEnvironment {}) ⟨.quoted "x.cc", idleBefore⟩ =
        .ok rep ∧ rep.mainReport? = some report ∧ report.uses = [servedUse] ∧
      Rerun (.quoted "x.cc") report.fullIncludes idleBefore servingOnly ∧
      ∃ rep' report', CompilationUnit.analyze (plainEnvironment {}) ⟨.quoted "x.cc", servingOnly⟩ =
        .ok rep' ∧ rep'.mainReport? = some report' ∧ report'.add = [] ∧ report'.remove = [] := by
  obtain ⟨s, rep, report, hs, hr, hm, hq⟩ :=
    exists_mainReport (q := fun s report => decide (report.uses = [servedUse] ∧
        report.fullIncludes = [.quoted "s.h"] ∧ s.offered servedUse = [.quoted "s.h"] ∧
        ∀ l ∈ report.full ++ report.add ++ report.remove, l.isDeclaration = false))
      (by decide +kernel : ((start (plainEnvironment {}) (.quoted "x.cc")).takeAll
        idleBefore).toOption.any _ = true)
  obtain ⟨s', rep', report', hs', hr', hm', hq'⟩ :=
    exists_mainReport (q := fun s report => decide (report.uses = [servedUse] ∧
        s.offered servedUse = [.quoted "s.h"]))
      (by decide +kernel : ((start (plainEnvironment {}) (.quoted "x.cc")).takeAll
        servingOnly).toOption.any _ = true)
  obtain ⟨huses, hincludes, hoffered, hlines⟩ := of_decide_eq_true hq
  obtain ⟨huses', hoffered'⟩ := of_decide_eq_true hq'
  have hre : Rerun (.quoted "x.cc") report.fullIncludes idleBefore servingOnly := by
    rw [hincludes]
    exact ⟨rfl, rfl⟩
  obtain ⟨hiff, hstable⟩ := rerun_isClean_iff rfl (analyze_of_session hs hr) hm hlines hre
  have halike : AskAlike s s' servedUse servedUse :=
    ⟨Iff.rfl, fun f => by rw [hoffered, hoffered'], Iff.rfl⟩
  have hneeded : ∀ f ∈ report.fullIncludes, s'.protects f = true ∨ ∃ o ∈ report.uses,
      Plan.ServedBy o f ∧ ∀ g ∈ s.offered o, g ∈ report.fullIncludes → g = f := by
    intro f hf
    rw [hincludes] at hf
    obtain rfl := List.mem_singleton.1 hf
    rw [huses]
    refine .inr ⟨servedUse, List.mem_cons_self, ⟨rfl, .inl rfl⟩, fun g hg _ => ?_⟩
    rw [hoffered] at hg
    exact List.mem_singleton.1 hg
  refine ⟨rep, report, analyze_of_session hs hr, hm, huses, hre, hiff.2 ⟨s', rep', report', hs',
    hr', hm', hstable s s' rep' report' hs hs' hr' hm' ⟨?_, hneeded⟩⟩⟩
  rw [huses, huses']
  exact .cons halike .nil

/-! ## Main files without uses -/

/-- What the main file relies on if nothing was reported on its associated headers. -/
def bareReliance (s : Session) : Reliance where
  associated := s.associatedHeaders
  precompiled := s.precompiledHeader?

/-- The includes of the main file that stay because they are protected, and the others. -/
def splitProtected (s : Session) : List IncludeDirective × List IncludeDirective :=
  splitFirst (·.included)
    ((s.context s.bareReliance).protectedIncludes (s.recordOf s.mainFile)).contains []
    (s.recordOf s.mainFile).includes

/-- A main file without uses and declarations keeps what is protected. -/
theorem mainReport_of_no_uses (hrec : Recorded env main es s) (hr : s.finish.1 = .ok rep)
    (hm : rep.mainReport? = some report) (hu : usesIn main es = [])
    (hd : ∀ e ∈ es, e.declaresIn main = false) :
    report.add = [] ∧
      report.remove =
        (s.splitProtected.2.map Plan.unusedLine).mergeSort OutputLine.standsBefore ∧
      report.full = (Plan.lineOrder (s.context s.bareReliance) (s.recordOf s.mainFile)).sort
        (s.splitProtected.1.map Plan.unusedLine) := by
  obtain ⟨associated, resolved, hall, rfl⟩ := reported_of_mainReport hrec hr hm
  rw [hrec.uses, hrec.mainFile, hu] at hall
  cases hall
  exact Plan.report_of_no_uses rfl (hrec.presentDeclarations_eq_nil.2 (hrec.mainFile ▸ hd)) rfl

/-! ## Two headers of one name -/

/-- A source file that includes two headers of its name, of which the second has the pragma. -/
def namesakes : List Event :=
  [ .directive (sourceDirective "b/x.h" 1 none),
    .directive (sourceDirective "a/x.h" 2 (some .associated)) ]

/-- The same file with the headers in writing order. -/
def sortedNamesakes : List Event :=
  [ .directive (sourceDirective "a/x.h" 1 (some .associated)),
    .directive (sourceDirective "b/x.h" 2 none) ]

/-- Out of that order both headers belong to the file and stay, so the list that is written loses
one of them in the next run. -/
theorem unclean_after_namesakes :
    ∃ rep report, CompilationUnit.analyze (plainEnvironment {}) ⟨.quoted "x.cc", namesakes⟩ =
        .ok rep ∧ rep.mainReport? = some report ∧
      (∀ l ∈ report.full ++ report.add ++ report.remove, l.isDeclaration = false) ∧
      Rerun (.quoted "x.cc") report.fullIncludes namesakes sortedNamesakes ∧
      ¬ ∃ rep' report', CompilationUnit.analyze (plainEnvironment {})
          ⟨.quoted "x.cc", sortedNamesakes⟩ = .ok rep' ∧ rep'.mainReport? = some report' ∧
        report'.add = [] ∧ report'.remove = [] := by
  obtain ⟨s, rep, report, hs, hr, hm, hq⟩ :=
    exists_mainReport (q := fun s _ => decide (s.splitProtected =
        ([sourceDirective "b/x.h" 1 none, sourceDirective "a/x.h" 2 (some .associated)], []) ∧
        (Plan.lineOrder (s.context s.bareReliance) (s.recordOf s.mainFile)).le
          (Plan.unusedLine (sourceDirective "b/x.h" 1 none))
          (Plan.unusedLine (sourceDirective "a/x.h" 2 (some .associated))) = false))
      (by decide +kernel : ((start (plainEnvironment {}) (.quoted "x.cc")).takeAll
        namesakes).toOption.any _ = true)
  obtain ⟨s', rep', report', hs', hr', hm', hq'⟩ :=
    exists_mainReport (q := fun _ report => decide (report.remove ≠ []))
      (by decide +kernel : ((start (plainEnvironment {}) (.quoted "x.cc")).takeAll
        sortedNamesakes).toOption.any _ = true)
  obtain ⟨hsplit, hle⟩ := of_decide_eq_true hq
  obtain ⟨hadd, hremove, hfull⟩ :=
    mainReport_of_no_uses (recorded_of_takeAll hs) hr hm rfl (by decide)
  simp only [hsplit, List.map_cons, List.map_nil, List.mergeSort_nil,
    LineOrder.sort_pair hle] at hremove hfull
  have hincludes : report.fullIncludes = [.quoted "a/x.h", .quoted "b/x.h"] := by
    rw [FileReport.fullIncludes, hfull]
    rfl
  refine ⟨rep, report, analyze_of_session hs hr, hm, ?_, ?_, ?_⟩
  · rw [hadd, hremove, hfull]
    decide
  · rw [hincludes]
    exact ⟨rfl, rfl⟩
  · rintro ⟨rep₂, report₂, h₂, hm₂, -, hempty⟩
    obtain rfl := Except.ok.inj ((analyze_of_session hs' hr').symm.trans h₂)
    obtain rfl := Option.some.inj (hm'.symm.trans hm₂)
    exact of_decide_eq_true hq' hempty

end Session

end IncludeAudit
