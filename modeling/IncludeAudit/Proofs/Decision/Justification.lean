import IncludeAudit.Proofs.Decision.Additions

/-!
# Why includes are added

An include is added only if a use asks for it that has nothing at hand: neither a present include,
nor the file itself, nor an include of an associated header is among the providers which the policy
and the pragmas of the file leave to the use (`Unmet`).

* `exists_unmet`: the use that asks for an added include;
* `offered_cases`: the pragmas are kept;
* `added_justified`: both for each include that a report adds.
-/

namespace IncludeAudit

variable {ctx : DecisionContext} {r : FileRecord} {o : UseOutcome} {f x : FileName}

namespace DecisionContext

/-- None of the providers that are offered to the use is at hand. -/
def Unmet (ctx : DecisionContext) (r : FileRecord) (o : UseOutcome) : Prop :=
  ∀ c ∈ ctx.offered r o, c ∉ r.present ∧ c ≠ r.file ∧ c ∉ ctx.associatedIncludes

/-- What is offered is the file itself, or a header or a present file that no pragma bans. -/
theorem offered_cases (hf : f ∈ ctx.offered r o) :
    f = r.file ∨ (f.isHeader = true ∨ f ∈ r.present) ∧ f ∉ r.pragmas.noInclude := by
  unfold offered at hf
  split at hf
  · exact (mem_usable.1 hf).2
  · exact (mem_usable.1 hf).2

end DecisionContext

namespace Plan

/-- An include that is added serves a use without a provider at hand, and no present include reaches
a provider for it. -/
theorem exists_unmet (hx : x ∈ FileReport.includesOf ((make ctx r).report ctx r).add) :
    ∃ o ∈ (make ctx r).outcomes ctx r, ServedBy o x ∧ ctx.bridge? r o = none ∧ ctx.Unmet r o := by
  obtain ⟨hchosen, habsent⟩ := mem_added.1 hx
  obtain ⟨⟨u, o⟩, he, slot, hd, ha, hlacks⟩ := exists_asking_use hchosen habsent
  obtain ⟨hcourse, -, hself, hassociated⟩ := hd.of_chosen ha
  rw [hd.need_eq hcourse] at hlacks hself hassociated
  have hbridge : ctx.bridge? r o = none := by
    rw [Option.eq_none_iff_forall_not_mem]
    intro f hf
    have hpresent : f ∈ r.present := (DecisionContext.bridge?_spec hf).2.1
    exact hlacks f (List.mem_append_left _ (Option.mem_toList.2 hf)) hpresent
  refine ⟨o, (List.of_mem_zip he).2, hd.servedBy_of_chosen ha, hbridge, fun c hc => ?_⟩
  have hneed : c ∈ (ctx.bridge? r o).toList ++ ctx.offered r o := List.mem_append_right _ hc
  refine ⟨hlacks c hneed, ?_, hassociated c hneed⟩
  rintro rfl
  exact hself hneed

end Plan

namespace FileReport

/-- The report adds an include for good reasons: it may be added, it is not at hand already, and a
use asks for it that has no provider at hand. -/
structure Justified (ctx : DecisionContext) (r : FileRecord) (report : FileReport) (x : FileName) :
    Prop where
  header : x.isHeader = true
  unbanned : x ∉ r.pragmas.noInclude
  notSelf : x ≠ r.file
  absent : x ∉ r.present
  unassociated : x ∉ ctx.associatedIncludes
  asked : ∃ o ∈ report.uses, o.status = .included x ∧ x ∈ ctx.offered r o ∧ ctx.Unmet r o

/-- A record that is resolving gets a report which adds includes for good reasons only. -/
theorem added_justified (hstate : r.state = .resolving) :
    ∃ report done, finalize ctx r = .ok (report, done) ∧
      ∀ x ∈ includesOf report.add, Justified ctx r report x := by
  refine ⟨_, _, Plan.finalize_of_resolving hstate, fun x hx => ?_⟩
  obtain ⟨o, ho, hserved, -, hunmet⟩ := Plan.exists_unmet hx
  have habsent : x ∉ r.present := (Plan.mem_added.1 hx).2
  have hoffered : x ∈ ctx.offered r o := Plan.mem_offered_of_absent ho hserved habsent
  obtain ⟨-, hself, hassociated⟩ := hunmet x hoffered
  obtain ⟨hheader, hbanned⟩ := (DecisionContext.offered_cases hoffered).resolve_left hself
  exact
  { header := hheader.resolve_right habsent
    unbanned := hbanned
    notSelf := hself
    absent := habsent
    unassociated := hassociated
    asked := ⟨o, ho, hserved.1, hoffered, hunmet⟩ }

/-! ## An addition in the place of a present include -/

/-- The private header `p.h` with the public headers `a.h` and `k.h` in its place, and the private
header `q.h` with `k.h`. -/
def sharedFacade : DecisionContext where
  __ := facades
  providers.map :=
    (({} : ProviderBuilder).addMapping .standard .exact "p.h" .priv (.quoted "a.h") .pub
      |>.addMapping .standard .exact "p.h" .priv (.quoted "k.h") .pub
      |>.addMapping .standard .exact "q.h" .priv (.quoted "k.h") .pub).map
  providers.overlay := {}

/-- A source file that includes `a.h` and uses what the two private headers define. -/
def sharedFacadeUser : FileRecord where
  file := .quoted "f.cc"
  state := .resolving
  includes := [⟨.quoted "f.cc", .quoted "a.h", .line 1, none⟩]
  resolved := [("C", "p.h"), ("D", "q.h")].map fun e =>
    ⟨{ symbol := ⟨e.1, .record⟩, location := .plain ⟨.quoted "f.cc", 9, 1⟩
       hints := { memberAccess := true } },
      ⟨.full, "complete_type_context"⟩, some ⟨none, .quoted e.2, .nearestDefinition⟩⟩

/-- `k.h` is added for the second use. It serves the first one as well, so `a.h` goes. -/
theorem shared_facade_justified :
    sharedFacadeUser.state = .resolving ∧
      ∃ report done, finalize sharedFacade sharedFacadeUser = .ok (report, done) ∧
        includesOf report.add = [.quoted "k.h"] ∧ includesOf report.remove = [.quoted "a.h"] ∧
        Justified sharedFacade sharedFacadeUser report (.quoted "k.h") := by
  obtain ⟨report, done, h, hjustified⟩ := @added_justified sharedFacade sharedFacadeUser rfl
  have hlists : includesOf report.add = [.quoted "k.h"] ∧
      includesOf report.remove = [.quoted "a.h"] := by
    rw [report_of_finalize h]
    decide +kernel
  refine ⟨rfl, report, done, h, hlists.1, hlists.2, hjustified _ ?_⟩
  rw [hlists.1]
  exact List.mem_singleton_self _

end FileReport

end IncludeAudit
