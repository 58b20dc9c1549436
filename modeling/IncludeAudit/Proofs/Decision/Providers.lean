import IncludeAudit.Proofs.Decision.Outcomes

/-!
# The providers of a use

What a use needs is one of a list of files: its candidate providers, less those that the policy and
the pragmas of the file rule out, with a present include in front that reaches one of them if the
policy tolerates this.

* `Decides.need_eq`: the list, in terms of the outcome of the use;
* `self_mem_offered`: the file itself is never ruled out;
* `bridge?_spec`: what the include in front is;
* `mem_offered_of_servedBy`, `mem_offered_of_absent`: when an include that serves a use is offered;
* `chosen_present_iff`: when no include has to be added.
-/

namespace IncludeAudit

/-- Every file reaches itself. -/
theorem IncludeGraph.reaches_self (g : IncludeGraph) (f : FileName) : g.reaches f f = true := by
  simp [reaches, distance, distances, trails, Search.fromNode, Search.run, Trail.start]

namespace DecisionContext

variable {ctx : DecisionContext} {r : FileRecord} {u : ResolvedUse} {o : UseOutcome} {slot : Slot}
  {f : FileName} {fs : List FileName}

theorem mem_usable :
    f ∈ usable r fs ↔ f ∈ fs ∧
      (f = r.file ∨ (f.isHeader = true ∨ f ∈ r.present) ∧ f ∉ r.pragmas.noInclude) := by
  simp [usable, ← Bool.not_eq_true]

/-- The candidate providers of a use: the files that may be included in place of the one to which it
is attributed or, if it is attributed to none, the headers known for the name of its symbol. -/
def candidateProviders (ctx : DecisionContext) (includer : FileName) (o : UseOutcome) :
    List FileName :=
  match o.attributed with
  | some a => ctx.providers.publicCandidates a includer
  | none => ctx.providers.symbolProviders o.symbol.name

/-- The candidate providers that neither the policy nor a pragma of the file rules out. -/
def offered (ctx : DecisionContext) (r : FileRecord) (o : UseOutcome) : List FileName :=
  match o.attributed with
  | some a => usable r (ctx.allowedCandidates r a)
  | none => usable r (ctx.providers.symbolProviders o.symbol.name)

/-- The present include that is tolerated as a provider because it reaches one. -/
def bridge? (ctx : DecisionContext) (r : FileRecord) (o : UseOutcome) : Option FileName :=
  if ctx.policy.tolerateTransitive ∧ o.attributed.isSome then ctx.transitiveVia? r (ctx.offered r o)
  else none

theorem mem_allowedCandidates {attributed : FileName} :
    f ∈ ctx.allowedCandidates r attributed ↔
      f ∈ ctx.providers.publicCandidates attributed r.file ∧
        (ctx.policy.transitiveIncludesOnly = true → ctx.graph.reaches r.file f = true) := by
  unfold allowedCandidates
  split <;> simp_all

theorem mem_candidateProviders_of_offered (hf : f ∈ ctx.offered r o) :
    f ∈ ctx.candidateProviders r.file o := by
  unfold offered at hf
  unfold candidateProviders
  split at hf
  · exact (mem_allowedCandidates.1 (mem_usable.1 hf).1).1
  · exact (mem_usable.1 hf).1

theorem self_mem_offered : r.file ∈ ctx.offered r o ↔ r.file ∈ ctx.candidateProviders r.file o := by
  unfold offered candidateProviders
  split
  · simp [mem_usable, mem_allowedCandidates, IncludeGraph.reaches_self]
  · simp [mem_usable]

/-- Without a restriction to what the file reaches, only pragmas and source files are ruled out. -/
theorem mem_offered (h : ctx.policy.transitiveIncludesOnly = false) :
    f ∈ ctx.offered r o ↔ f ∈ usable r (ctx.candidateProviders r.file o) := by
  unfold offered candidateProviders
  split
  · simp [mem_usable, mem_allowedCandidates, h]
  · rfl

theorem bridge?_spec (hf : ctx.bridge? r o = some f) :
    ctx.policy.tolerateTransitive = true ∧ f ∈ r.present ∧ r.file ∉ ctx.offered r o ∧
      ∃ c ∈ ctx.offered r o, c ∈ ctx.graph.closure f := by
  unfold bridge? at hf
  split at hf
  · rename_i ht
    unfold transitiveVia? at hf
    split at hf
    · cases hf
    · rename_i hn
      have hany : (ctx.graph.closure f).any (ctx.offered r o).contains = true := List.find?_some
        (p := fun f => (ctx.graph.closure f).any (ctx.offered r o).contains) hf
      obtain ⟨c, hc, hm⟩ := List.any_eq_true.1 hany
      refine ⟨ht.1, List.mem_of_find?_eq_some hf, fun hr => hn ?_, c, by simpa using hm, hc⟩
      exact List.any_eq_true.2 ⟨_, hr, by simp⟩
  · cases hf

end DecisionContext

namespace Plan

variable {ctx : DecisionContext} {r : FileRecord} {o : UseOutcome} {f : FileName}

/-- A use that needs a file needs one of those offered, or the include that reaches one. -/
theorem Decides.need_eq {u : ResolvedUse} {slot : Slot} (h : Decides ctx r u slot o)
    (hn : (ctx.triage r u).course = .need slot.need) :
    slot.need = (ctx.bridge? r o).toList ++ ctx.offered r o := by
  rcases DecisionContext.need_cases hn with ⟨ha, hc⟩ | ⟨a, ha, -, hc⟩
  · simp [hc, h.outcome, DecisionContext.bridge?, DecisionContext.offered, outcomeOf, ha]
  · rw [hc, DecisionContext.withTransitive]
    cases ht : ctx.policy.tolerateTransitive <;>
      simp [h.outcome, DecisionContext.bridge?, DecisionContext.offered, outcomeOf, ha, ht]

/-- An include that serves a use is one of those offered, or the include that reaches one. -/
theorem mem_bridge?_or_offered (ho : o ∈ (make ctx r).outcomes ctx r) (hs : ServedBy o f) :
    ctx.bridge? r o = some f ∨ f ∈ ctx.offered r o := by
  obtain ⟨u, -, slot, hd⟩ := forall₂_exists_left (forall₂_decided ctx r) o ho
  have ha := hd.chosen_of_servedBy hs
  have hf : f ∈ slot.need := (hd.sound.of_chosen ha).2.1
  rw [hd.need_eq (hd.of_chosen ha).1, List.mem_append, Option.mem_toList] at hf
  exact hf

/-- Unless the policy tolerates more, an include that serves a use is one of those offered. -/
theorem mem_offered_of_servedBy (ht : ctx.policy.tolerateTransitive = false)
    (ho : o ∈ (make ctx r).outcomes ctx r) (hs : ServedBy o f) : f ∈ ctx.offered r o := by
  refine (mem_bridge?_or_offered ho hs).resolve_left fun hb => ?_
  rw [(DecisionContext.bridge?_spec hb).1] at ht
  cases ht

/-- An include that is not present serves a use only if it is offered. -/
theorem mem_offered_of_absent (ho : o ∈ (make ctx r).outcomes ctx r) (hs : ServedBy o f)
    (habsent : f ∉ r.present) : f ∈ ctx.offered r o :=
  (mem_bridge?_or_offered ho hs).resolve_left fun hb =>
    habsent (DecisionContext.bridge?_spec hb).2.1

/-- Only present includes are chosen exactly if each use that an include serves has a candidate
among them. -/
theorem chosen_present_iff (ht : ctx.policy.tolerateTransitive = false) :
    (∀ f ∈ chosen ctx r, f ∈ r.present) ↔
      ∀ o ∈ (make ctx r).outcomes ctx r, ∀ f, ServedBy o f →
        ∃ c ∈ ctx.offered r o, c ∈ r.present := by
  constructor
  · intro h o ho f hs
    exact ⟨f, mem_offered_of_servedBy ht ho hs, h f (mem_chosen_iff.2 ⟨o, ho, hs⟩)⟩
  · intro h
    refine Cover.choose_present fun need hneed hasks hne => ?_
    obtain ⟨d, hd, rfl⟩ := List.mem_map.1 hneed
    obtain ⟨u, hu, rfl⟩ := List.mem_map.1 hd
    obtain ⟨o, ho, slot, hdec⟩ := forall₂_exists_right (forall₂_decided ctx r) u hu
    rw [← hdec.need] at hasks hne ⊢
    obtain ⟨f, ha⟩ := hdec.sound.chosen_of_asks hasks fun hn => hne (hdec.settled hn)
    obtain ⟨c, hc, hp⟩ := h o ho f (hdec.servedBy_of_chosen ha)
    rw [hdec.need_eq (hdec.of_chosen ha).1]
    exact ⟨c, List.mem_append_right _ hc, hp⟩

end Plan

end IncludeAudit
