import IncludeAudit.Proofs.Decision.Necessity
import IncludeAudit.Proofs.Provider.DeadEnds

/-!
# Warnings about private headers

A report warns that nothing public replaces a private header if the chain of some use ends at the
header. The use may have public candidates all the same, since the chain follows one target of each
file only. `warned_without_public_iff` says exactly when it has none.

* `mem_diagnostics_iff`: the warnings of a report are those that its uses ask for;
* `privateHeader_eq_some`: which uses ask for a warning.
-/

namespace IncludeAudit

variable {ctx : DecisionContext} {r done : FileRecord} {report : FileReport} {u : ResolvedUse}
  {header : FileName}

namespace DecisionContext

/-- The use needs a provider for the file to which it is attributed, and the chain of this file ends
at a private header. -/
structure Strands (ctx : DecisionContext) (r : FileRecord) (u : ResolvedUse) (a : Attribution)
    (header : FileName) : Prop where
  attribution : u.attribution = some a
  kind : ctx.strictKind r u = .full
  undeclared : ctx.hasLocalDeclaration r u = false
  kept : ctx.fullIgnored? r a.file u = none
  deadEnd : (ctx.providers.resolveFor a.file r.file).isPublic = false
  header : (ctx.providers.resolveFor a.file r.file).file = header

theorem deadEnd?_eq_some {attributed : FileName} : ctx.deadEnd? r attributed = some header ↔
    (ctx.providers.resolveFor attributed r.file).isPublic = false ∧
      (ctx.providers.resolveFor attributed r.file).file = header := by
  unfold deadEnd?
  dsimp only
  split <;> simp_all

/-- A use asks for a warning of a header exactly if it is stranded there. -/
theorem privateHeader_eq_some :
    (ctx.triage r u).privateHeader = some header ↔ ∃ a, ctx.Strands r u a header := by
  refine triage_cases (P := fun d => d.privateHeader = some header ↔ ∃ a, ctx.Strands r u a header)
    ?_ ?_ ?_ ?_ ?_
  · intro ha
    refine iff_of_false nofun fun ⟨_, hs⟩ => ?_
    rw [hs.attribution] at ha
    cases ha
  · intro _ _ hk
    refine iff_of_false nofun fun ⟨_, hs⟩ => ?_
    rw [hs.kind] at hk
    cases hk
  · intro _ _ _ hl
    refine iff_of_false nofun fun ⟨_, hs⟩ => ?_
    rw [hs.undeclared] at hl
    cases hl
  · intro a _ ha _ _ hd
    refine iff_of_false nofun fun ⟨_, hs⟩ => ?_
    obtain rfl : a = _ := Option.some.inj (ha.symm.trans hs.attribution)
    rw [hs.kept] at hd
    cases hd
  · intro a ha hk hl hd
    rw [deadEnd?_eq_some]
    constructor
    · exact fun ⟨hend, hheader⟩ => ⟨a, ha, hk, hl, hd, hend, hheader⟩
    · rintro ⟨b, hs⟩
      obtain rfl : a = b := Option.some.inj (ha.symm.trans hs.attribution)
      exact ⟨hs.deadEnd, hs.header⟩

/-- A header at which a use is stranded is private. -/
theorem Strands.isPrivate {a : Attribution} (h : ctx.Strands r u a header) :
    ctx.providers.isPrivate header = true := by
  rw [← h.header]
  exact ProviderView.isPrivate_of_deadEnd h.deadEnd

end DecisionContext

namespace Plan

theorem noPublicHeader_inj {g : FileName} :
    Diagnostic.noPublicHeader header = .noPublicHeader g ↔ header = g := by
  constructor
  · intro h
    simpa [Diagnostic.noPublicHeader, Diagnostic.warningAt] using congrArg (·.file) h
  · rintro rfl
    rfl

/-- The other diagnostics of a report have other codes. -/
theorem noPublicHeader_ne_needsDeclaration {file : FileName} {line : Nat} {symbol : String} :
    Diagnostic.noPublicHeader header ≠ .needsDeclaration file line symbol := by
  intro h
  simpa [Diagnostic.noPublicHeader, Diagnostic.needsDeclaration, Diagnostic.warningAt] using
    congrArg (·.code) h

theorem noPublicHeader_ne_notDirectlyIncluded {file provider : FileName} {line : Nat}
    {symbol : String} :
    Diagnostic.noPublicHeader header ≠ .notDirectlyIncluded file line symbol provider := by
  intro h
  simpa [Diagnostic.noPublicHeader, Diagnostic.notDirectlyIncluded, Diagnostic.warningAt] using
    congrArg (·.code) h

/-- The induction is on the uses; a header that was warned of is passed over. -/
theorem mem_triageLog {file : FileName} {warned : List FileName} {ds : List Draft} :
    Diagnostic.noPublicHeader header ∈ triageLog file warned ds ↔
      header ∉ warned ∧ ∃ d ∈ ds, d.privateHeader = some header := by
  induction ds generalizing warned with
  | nil => simp [triageLog]
  | cons d ds ih =>
    rw [triageLog]
    cases hd : d.privateHeader with
    | none =>
      have hskip : (∃ e ∈ d :: ds, e.privateHeader = some header) ↔
          ∃ e ∈ ds, e.privateHeader = some header := by
        simp [hd]
      rw [hskip, ← ih]
      dsimp only
      split
      · rw [List.mem_cons, or_iff_right noPublicHeader_ne_needsDeclaration]
      · rfl
    | some g =>
      simp only [List.contains_iff_mem, List.exists_mem_cons_iff, hd, Option.some.injEq]
      by_cases hg : g ∈ warned
      · rw [if_pos hg, ih]
        refine and_congr_right fun hnew => (or_iff_right ?_).symm
        rintro rfl
        exact hnew hg
      · rw [if_neg hg, List.mem_cons, noPublicHeader_inj, ih, List.mem_cons, not_or]
        by_cases heq : header = g
        · exact iff_of_true (.inl heq) ⟨heq ▸ hg, .inl heq.symm⟩
        · rw [or_iff_right heq, or_iff_right (Ne.symm heq), and_iff_right heq]

theorem mem_log {p : Plan} : Diagnostic.noPublicHeader header ∈ p.log ↔
    ∃ d ∈ p.drafts, d.privateHeader = some header := by
  have hmissing : Diagnostic.noPublicHeader header ∉ p.assigned.filterMap p.missing? := by
    rw [List.mem_filterMap]
    rintro ⟨e, -, he⟩
    unfold missing? at he
    split at he
    · split at he
      · exact noPublicHeader_ne_notDirectlyIncluded (Option.some.inj he).symm
      · cases he
    · cases he
  rw [log, List.mem_append, or_iff_left hmissing, mem_triageLog]
  simp

end Plan

namespace FileReport

/-- A report warns of the private headers for which the uses of the file ask, and of no others. -/
theorem mem_diagnostics_iff (h : finalize ctx r = .ok (report, done)) :
    .noPublicHeader header ∈ report.diagnostics ↔
      ∃ u ∈ r.resolved, (ctx.triage r u).privateHeader = some header := by
  obtain rfl := report_of_finalize h
  refine Plan.mem_log.trans ?_
  simp [Plan.make]

/-- The first part is about providers alone: where the chain of a file ends at a private one, the
file has no public candidate exactly if it leads to no public file, and so if nothing branches off
on the way. The second part says which warnings a report has that relies on these providers, and for
each of the uses that ask for them whether it has a public candidate. -/
theorem warned_without_public_iff (v : ProviderView) (f includer : FileName) :
    ((v.resolveFor f includer).isPublic = false →
      (v.NoPublicCandidate f includer ↔ ∀ c, v.Leads f c → v.isPrivate c = true) ∧
        (v.Unbranched f → v.NoPublicCandidate f includer)) ∧
    ∀ (ctx : DecisionContext) (r done : FileRecord) (report : FileReport) (header : FileName),
      ctx.providers = v → finalize ctx r = .ok (report, done) →
      (.noPublicHeader header ∈ report.diagnostics ↔
        ∃ u ∈ r.resolved, ∃ a, ctx.Strands r u a header) ∧
      ∀ u ∈ r.resolved, ∀ a, ctx.Strands r u a header →
        v.isPrivate header = true ∧
        (v.NoPublicCandidate a.file r.file ↔ ∀ c, v.Leads a.file c → v.isPrivate c = true) ∧
        (v.Unbranched a.file → v.NoPublicCandidate a.file r.file) := by
  have hagree (f includer : FileName) (hend : (v.resolveFor f includer).isPublic = false) :
      (v.NoPublicCandidate f includer ↔ ∀ c, v.Leads f c → v.isPrivate c = true) ∧
        (v.Unbranched f → v.NoPublicCandidate f includer) :=
    ⟨ProviderView.noPublicCandidate_iff, fun hu =>
      ProviderView.noPublicCandidate_iff.2 fun _ => ProviderView.private_of_unbranched hu hend⟩
  refine ⟨hagree f includer, ?_⟩
  rintro ctx r done report header rfl h
  refine ⟨?_, fun u _ a hs => ⟨hs.isPrivate, hagree a.file r.file hs.deadEnd⟩⟩
  rw [mem_diagnostics_iff h]
  simp only [DecisionContext.privateHeader_eq_some]

/-! ## A public header off the chain -/

/-- The private header `p.h`, which the private `a.h` replaces and, in a branch, the private `c.h`,
which the public `d.h` replaces. -/
def stranding (branch : List String) : DecisionContext where
  __ := facades
  providers.map :=
    (branch.foldl (fun b c => b.addMapping .standard .exact "p.h" .priv (.quoted c) .priv)
      (({} : ProviderBuilder).addMapping .standard .exact "p.h" .priv (.quoted "a.h") .priv)
      |>.addMapping .standard .exact "c.h" .priv (.quoted "d.h") .pub).map
  providers.overlay := {}

/-- A source file that includes `d.h` and uses what `p.h` defines. -/
def strandedUser : FileRecord where
  __ := facadeUser none
  includes := [⟨.quoted "f.cc", .quoted "d.h", .line 1, none⟩]

/-- With the branch the report warns of `a.h`, and the use is served by the public `d.h`. -/
theorem warned_with_public :
    ∃ report done, finalize (stranding ["c.h"]) strandedUser = .ok (report, done) ∧
      .noPublicHeader (.quoted "a.h") ∈ report.diagnostics ∧
      (∃ o ∈ report.uses,
        o.attributed = some (.quoted "p.h") ∧ o.status = .included (.quoted "d.h")) ∧
      ((stranding ["c.h"]).providers.resolveFor (.quoted "p.h") (.quoted "f.cc")).isPublic = false ∧
      .quoted "d.h" ∈
        (stranding ["c.h"]).providers.publicCandidates (.quoted "p.h") (.quoted "f.cc") ∧
      (stranding ["c.h"]).providers.isPrivate (.quoted "d.h") = false := by
  refine ⟨_, _, rfl, ?_⟩
  decide +kernel

/-- Without the branch nothing public is left. -/
theorem warned_without_branch :
    (∃ report done, finalize (stranding []) strandedUser = .ok (report, done) ∧
      .noPublicHeader (.quoted "a.h") ∈ report.diagnostics) ∧
    (stranding []).providers.NoPublicCandidate (.quoted "p.h") (.quoted "f.cc") := by
  let v := (stranding []).providers
  have hway : ∀ g ∈ v.closure (.quoted "p.h"),
      (∀ a ∈ v.allTargets g, ∀ b ∈ v.allTargets g, a = b) ∧ v.overlay.exportersOf g = [] := by
    decide +kernel
  have hu : v.Unbranched (.quoted "p.h") := by
    refine ⟨fun g hg a b ha hb => ?_, fun g hg => (hway g (ProviderView.mem_closure.2 hg)).2⟩
    rw [← ProviderView.mem_allTargets] at ha hb
    exact (hway g (ProviderView.mem_closure.2 hg)).1 a ha b hb
  have hend : ((stranding []).providers.resolveFor (.quoted "p.h") (.quoted "f.cc")).isPublic =
      false := by
    decide +kernel
  have hs : ∃ u ∈ strandedUser.resolved, ∃ a,
      (stranding []).Strands strandedUser u a (.quoted "a.h") :=
    ⟨_, .head _, _, rfl, by decide +kernel, by decide +kernel, by decide +kernel, by decide +kernel,
      by decide +kernel⟩
  obtain ⟨hcandidates, hwarned⟩ :=
    warned_without_public_iff (stranding []).providers (.quoted "p.h") (.quoted "f.cc")
  exact ⟨⟨_, _, rfl, (hwarned _ _ _ _ _ rfl rfl).1.2 hs⟩, (hcandidates hend).2 hu⟩

end FileReport

end IncludeAudit
