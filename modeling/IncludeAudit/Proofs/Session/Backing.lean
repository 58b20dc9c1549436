import IncludeAudit.Proofs.Decision.Providers
import IncludeAudit.Proofs.Session.Reporting

/-!
# What backs an outcome

Each use that is not skipped has one outcome, and a file that provides its symbol stands behind each
outcome that is not ignored (`Backed`). The one exception is a use that the policy lets a present
include satisfy which reaches a provider: if that include is the file itself, the use counts as
provided by the file, which does not provide it. `backed_iff` says that there is no other.

* `Provides`: what may stand behind an outcome;
* `mem_need_provides`: what a use needs provides it;
* `mem_present_of_associated`: associated headers are included.
-/

namespace IncludeAudit

namespace Session

open DecisionContext (usable)

/-- An include provides a use if it is one of the candidate providers or, if the policy tolerates
this, a present include that reaches one. -/
def Provides (ctx : DecisionContext) (r : FileRecord) (o : UseOutcome) (x : FileName) : Prop :=
  x ∈ ctx.candidateProviders r.file o ∨
    ctx.policy.tolerateTransitive = true ∧ x ∈ r.present ∧
      ∃ c ∈ ctx.candidateProviders r.file o, c ∈ ctx.graph.closure x

/-- An associated header has an include in its report and is itself included by the main file. -/
def AssociatedHas (s : Session) (rep : SessionReport) (x : FileName) : Prop :=
  ∃ header ∈ rep.files, header.file ∈ s.associatedHeaders ∧ x ∈ header.fullIncludes ∧
    ∃ main ∈ rep.mainReport?, header.file ∈ main.fullIncludes

/-- What has to stand behind the outcome of a use in a file, by its status. -/
def Backed (s : Session) (rep : SessionReport) (report : FileReport) (o : UseOutcome) : Prop :=
  match o.status with
  | .ignored _ => True
  | .selfProvided => report.file ∈ (s.context {}).candidateProviders report.file o
  | .included x => x ∈ report.fullIncludes ∧ Provides (s.context {}) (s.recordOf report.file) o x
  | .viaAssociated x =>
    Provides (s.context {}) (s.recordOf report.file) o x ∧ s.AssociatedHas rep x
  | .noDeclaration => o.attributed = none ∧
    usable (s.recordOf report.file) ((s.context {}).providers.symbolProviders o.symbol.name) = []
  | .forwardDeclared => False

variable {env : Environment} {main f x : FileName} {es : List Event} {s : Session}
  {rep : SessionReport} {report mainReport : FileReport} {associated extra : List FileReport}
  {on : Reliance} {o : UseOutcome}

/-- What a use needs provides it. -/
theorem mem_need_provides {ctx : DecisionContext} {r : FileRecord} {u : ResolvedUse} {slot : Slot}
    (h : Plan.Decides ctx r u slot o) (hn : (ctx.triage r u).course = .need slot.need)
    (hx : x ∈ slot.need) : Provides ctx r o x := by
  rw [h.need_eq hn, List.mem_append, Option.mem_toList] at hx
  rcases hx with hx | hx
  · obtain ⟨ht, hp, -, c, hc, hreach⟩ := DecisionContext.bridge?_spec hx
    exact .inr ⟨ht, hp, c, DecisionContext.mem_candidateProviders_of_offered hc, hreach⟩
  · exact .inl (DecisionContext.mem_candidateProviders_of_offered hx)

/-- The file itself is among what a use needs exactly if it is a candidate provider or a present
include that is tolerated as one. -/
theorem self_mem_need {ctx : DecisionContext} {r : FileRecord} {u : ResolvedUse} {slot : Slot}
    (h : Plan.Decides ctx r u slot o) (hn : (ctx.triage r u).course = .need slot.need) :
    r.file ∈ slot.need ↔
      ctx.bridge? r o = some r.file ∨ r.file ∈ ctx.candidateProviders r.file o := by
  rw [h.need_eq hn, List.mem_append, Option.mem_toList, DecisionContext.self_mem_offered]

/-! ## Associated headers -/

theorem mem_present_of_associated (hrec : Recorded env main es s) (hf : f ∈ s.associatedHeaders) :
    f ∈ (s.recordOf s.mainFile).present := by
  have hmarked := hrec.associated s.mainFile f
  unfold associatedHeaders at hf
  dsimp only at hf
  split at hf
  · exact hmarked hf
  · split at hf
    · rename_i header hheader
      rcases OrderedSet.mem_insert.1 (OrderedSet.mem_def.2 hf) with hf | rfl
      · exact hmarked hf
      · exact OrderedSet.mem_ofList.2 (List.mem_of_find?_eq_some hheader)
    · exact hmarked hf

/-- The main file keeps the headers associated with it. -/
theorem mem_fullIncludes_of_associated (hrec : Recorded env main es s)
    (h : Reported s (s.mainReliance s.associatedHeaders associated) s.mainFile mainReport)
    (hf : f ∈ s.associatedHeaders) : f ∈ mainReport.fullIncludes := by
  obtain ⟨resolved, -, rfl⟩ := h
  refine Plan.mem_fullIncludes.2 (Plan.mem_kept_of_isProtected ?_ ?_)
  · exact mem_present_of_associated hrec hf
  · have hc : (s.associatedHeaders.contains f) = true := by simpa using hf
    simp only [DecisionContext.isProtected, context, mainReliance, hc, Bool.or_true, Bool.true_or]

/-- What a file relies on beside its own includes, an associated header includes. -/
theorem associatedHas_of_mem (hrec : Recorded env main es s) (hmain : rep.mainFile = s.mainFile)
    (h : Reports s rep.files mainReport associated extra)
    (hon : on = {} ∨ on = s.mainReliance s.associatedHeaders associated)
    (hx : x ∈ on.associatedIncludes) : s.AssociatedHas rep x := by
  rcases hon with rfl | rfl
  · exact absurd hx OrderedSet.not_mem_empty
  · obtain ⟨header, hheader, hmem⟩ := List.mem_flatMap.1 (OrderedSet.mem_ofList.1 hx)
    obtain ⟨f, hf, hreported⟩ := forall₂_exists_left h.associated header hheader
    have hfile : header.file = f := hreported.file.trans (hrec.file f)
    refine ⟨header, ?_, hfile ▸ hf, hmem, mainReport, h.mainReport?_eq hmain (hrec.file _),
      mem_fullIncludes_of_associated hrec h.main (hfile ▸ hf)⟩
    rw [h.files]
    exact List.mem_append_left _ (List.mem_cons_of_mem _ hheader)

/-! ## Outcomes -/

/-- A use that waits for a file, with its slot, is backed unless the file itself is tolerated as its
provider. -/
theorem backed_iff_of_decides {resolved : List ResolvedUse} {u : ResolvedUse} {slot : Slot}
    (hrec : Recorded env main es s) (hmain : rep.mainFile = s.mainFile)
    (h : Reports s rep.files mainReport associated extra)
    (hon : on = {} ∨ on = s.mainReliance s.associatedHeaders associated)
    (hreport : report = (Plan.make (s.context on) (s.resolvedRecord f resolved)).report
      (s.context on) (s.resolvedRecord f resolved))
    (hd : Plan.Decides (s.context on) (s.resolvedRecord f resolved) u slot o)
    (hfull : o.kind = .full) (hignored : ∀ reason, o.status ≠ .ignored reason) :
    Backed s rep report o ↔
      (s.context {}).bridge? (s.recordOf report.file) o ≠ some report.file := by
  have hfile : report.file = f := by
    rw [hreport]
    exact hrec.file f
  have hself : (s.resolvedRecord f resolved).file = f := hrec.file f
  have hbridge : (s.context {}).bridge? (s.recordOf f) o =
    (s.context on).bridge? (s.resolvedRecord f resolved) o := rfl
  have hb := hd.basis
  rw [hfull] at hb
  unfold Backed
  rw [hfile, hbridge]
  generalize hstatus : o.status = status at hb hignored
  cases hb with
  | ignored _ reason => exact absurd rfl (hignored reason)
  | noDeclaration _ ha hc =>
    have hattributed : o.attributed = none := by rw [hd.attributed_eq, ha]; rfl
    refine iff_of_true ⟨hattributed, hd.symbol_eq ▸ hc⟩ ?_
    simp [DecisionContext.bridge?, hattributed]
  | itself _ hn hf =>
    have hself_need := (self_mem_need hd hn).1 hf
    rw [hself] at hself_need
    refine ⟨fun hc hbr => ?_, fun hbr => hself_need.resolve_left hbr⟩
    refine (DecisionContext.bridge?_spec hbr).2.2.1 (DecisionContext.self_mem_offered.2 ?_)
    rw [hself]
    exact hc
  | associated _ hn hr hf hi =>
    rw [self_mem_need hd hn, hself, not_or] at hr
    have hp : Provides (s.context on) (s.resolvedRecord f resolved) o _ := mem_need_provides hd hn hf
    exact iff_of_true ⟨hp, associatedHas_of_mem hrec hmain h hon hi⟩ hr.1
  | chosen _ hn ha hf hc hs =>
    have hr : (s.resolvedRecord f resolved).file ∉ slot.need := ha.1
    rw [self_mem_need hd hn, hself, not_or] at hr
    have hp : Provides (s.context on) (s.resolvedRecord f resolved) o _ := mem_need_provides hd hn hf
    refine iff_of_true ⟨?_, hp⟩ hr.1
    rw [hreport]
    exact Plan.mem_fullIncludes.2 (OrderedSet.mem_union.2 (.inl hc))

/-- Each use that is not skipped has one outcome, in order. An outcome of a use that needs the
definition is backed, unless it is ignored or the file itself is tolerated as the provider. -/
theorem backed_iff (hs : (start env main).takeAll es = .ok s) (hr : s.finish.1 = .ok rep) :
    ∀ report ∈ rep.files,
      List.Forall₂ Concerns (classified env s.table (usesIn report.file es)) report.uses ∧
      ∀ o ∈ report.uses, o.kind = .full → (∀ reason, o.status ≠ .ignored reason) →
        (Backed s rep report o ↔
          (s.context {}).bridge? (s.recordOf report.file) o ≠ some report.file) := by
  have hrec := recorded_of_takeAll hs
  obtain ⟨hmain, mainReport, associated, extra, h⟩ := finish_ok hr hrec.resolved
  intro report hreport
  obtain ⟨on, f, hreported, hon⟩ := h.exists_reported report hreport
  obtain ⟨resolved, hplan, hall⟩ := hreported.forall₂_decided
  have hfile : report.file = f := hreported.file.trans (hrec.file f)
  rw [hrec.environment, hrec.uses] at hall
  rw [hfile]
  refine ⟨hall.imp ?_, fun o ho hfull hignored => ?_⟩
  · rintro c o ⟨u, hu, slot, hd⟩
    exact concerns_of_decides hu hd
  · obtain ⟨c, -, u, -, slot, hd⟩ := forall₂_exists_left hall o ho
    rw [← hfile]
    exact backed_iff_of_decides hrec hmain h hon hplan hd hfull hignored

/-! ## A file that includes itself -/

/-- A source file that includes itself and a header, through which it reaches the definition that it
uses. -/
def selfIncluder : List Event :=
  [ .directive ⟨.quoted "f.cc", .quoted "f.cc", .line 1, none⟩,
    .directive ⟨.quoted "f.cc", .quoted "mid.h", .line 2, none⟩,
    .directive ⟨.quoted "mid.h", .quoted "c.h", .line 1, none⟩,
    .declaration { symbol := ⟨"C", .record⟩, location := .plain ⟨.quoted "c.h", 3, 1⟩
                   isDefinition := true },
    .use { symbol := ⟨"C", .record⟩, location := .plain ⟨.quoted "f.cc", 9, 1⟩
           hints := { memberAccess := true } } ]

/-- If the policy does not tolerate what is reached, all outcomes are backed. -/
theorem backed_of_selfIncluder :
    ∃ s rep, (start (plainEnvironment { ignoreCycles := true }) (.quoted "f.cc")).takeAll
        selfIncluder = .ok s ∧ s.finish.1 = .ok rep ∧
      ∀ report ∈ rep.files, ∀ o ∈ report.uses, o.kind = .full →
        (∀ reason, o.status ≠ .ignored reason) → Backed s rep report o := by
  obtain ⟨s, hs, h⟩ := exists_ok (p := fun s => s.finish.1.toOption.any fun _ => true)
    (by decide +kernel : ((start (plainEnvironment { ignoreCycles := true })
      (.quoted "f.cc")).takeAll selfIncluder).toOption.any _ = true)
  obtain ⟨rep, hr, -⟩ := exists_ok h
  refine ⟨s, rep, hs, hr, fun report hreport o ho hfull hignored => ?_⟩
  refine (((backed_iff hs hr) report hreport).2 o ho hfull hignored).2 ?_
  simp [DecisionContext.bridge?, context, (recorded_of_takeAll hs).environment, plainEnvironment]

/-- If it does, the use counts as provided by the file, which does not provide it. -/
theorem unbacked_of_selfIncluder :
    ∃ s rep, (start (plainEnvironment { tolerateTransitive := true, ignoreCycles := true })
        (.quoted "f.cc")).takeAll selfIncluder = .ok s ∧ s.finish.1 = .ok rep ∧
      ∃ report ∈ rep.files, ∃ o ∈ report.uses, o.kind = .full ∧
        (∀ reason, o.status ≠ .ignored reason) ∧ ¬ Backed s rep report o := by
  obtain ⟨s, hs, h⟩ := exists_ok (p := fun s => s.finish.1.toOption.any fun rep =>
      rep.files.any fun report => report.uses.any fun o => o.kind == .full &&
        o.status == .selfProvided &&
        !((s.context {}).candidateProviders report.file o).contains report.file)
    (by decide +kernel : ((start (plainEnvironment
      { tolerateTransitive := true, ignoreCycles := true }) (.quoted "f.cc")).takeAll
      selfIncluder).toOption.any _ = true)
  obtain ⟨rep, hr, h⟩ := exists_ok h
  simp only [List.any_eq_true, Bool.and_eq_true, beq_iff_eq, Bool.not_eq_true',
    List.contains_eq_mem, decide_eq_false_iff_not] at h
  obtain ⟨report, hreport, o, ho, ⟨hfull, hstatus⟩, hself⟩ := h
  refine ⟨s, rep, hs, hr, report, hreport, o, ho, hfull, ?_, ?_⟩
  · rw [hstatus]
    nofun
  · rw [Backed, hstatus]
    exact hself

end Session

end IncludeAudit
