import IncludeAudit.Proofs.Decision.Justification

/-!
# Tolerated includes

Under the policy that tolerates transitive includes, a present include that reaches a provider is
taken in place of it. Each include that is added is asked for by a use without a present provider
(`exists_asking`), and none of its providers is reached either, if it is attributed to a file. What
a use of a name asks for is added although a present include reaches it: `tolerated_iff` says that
such uses are the only ones for which something is added that need not be.
-/

namespace IncludeAudit

open Relation (TransGen)

variable {ctx : DecisionContext} {r done : FileRecord} {report : FileReport} {o : UseOutcome}
  {x : FileName}

namespace DecisionContext

/-- No provider of the use is present. -/
def LacksPresent (ctx : DecisionContext) (r : FileRecord) (o : UseOutcome) : Prop :=
  ∀ c ∈ ctx.offered r o, c ∉ r.present

/-- A present include reaches a provider of the use. -/
def ReachesProvider (ctx : DecisionContext) (r : FileRecord) (o : UseOutcome) : Prop :=
  ∃ c ∈ ctx.offered r o, ∃ f ∈ r.present, TransGen ctx.graph.Includes f c

/-- If a present include reaches a provider of an attributed use, one is taken in its place. -/
theorem bridge?_ne_none (ht : ctx.policy.tolerateTransitive = true) (ha : o.attributed ≠ none)
    (hself : r.file ∉ ctx.offered r o) (hlacks : ctx.LacksPresent r o)
    (hreaches : ctx.ReachesProvider r o) : ctx.bridge? r o ≠ none := by
  have hattributed : o.attributed.isSome = true := Option.isSome_iff_ne_none.2 ha
  have habsent : ((ctx.offered r o).any fun c => c == r.file || r.present.contains c) = false := by
    rw [List.any_eq_false]
    intro c hc
    have hne : c ≠ r.file := fun he => hself (he ▸ hc)
    have hcontains : r.present.contains c = false :=
      Bool.eq_false_iff.2 fun hp => hlacks c hc (OrderedSet.contains_eq_true.1 hp)
    simp [hne, hcontains]
  obtain ⟨c, hc, f, hf, hpath⟩ := hreaches
  have hmeets : (ctx.graph.closure f).any (ctx.offered r o).contains = true :=
    List.any_eq_true.2 ⟨c, IncludeGraph.mem_closure.2 hpath, by simpa using hc⟩
  rw [bridge?, if_pos ⟨ht, hattributed⟩, transitiveVia?, habsent]
  intro hnone
  rw [if_neg Bool.false_ne_true, List.find?_eq_none] at hnone
  exact hnone f hf hmeets

end DecisionContext

namespace FileReport

open Plan (ServedBy)

/-- An include that is added is asked for by a use without a present provider. Only if the use is of
a name may a present include reach one. -/
theorem exists_asking (ht : ctx.policy.tolerateTransitive = true)
    (hx : x ∈ includesOf ((Plan.make ctx r).report ctx r).add) :
    ∃ o ∈ (Plan.make ctx r).outcomes ctx r, ServedBy o x ∧ ctx.LacksPresent r o ∧
      (o.attributed = none ∨ ¬ ctx.ReachesProvider r o) := by
  obtain ⟨o, ho, hserved, hbridge, hunmet⟩ := Plan.exists_unmet hx
  have hlacks : ctx.LacksPresent r o := fun c hc => (hunmet c hc).1
  refine ⟨o, ho, hserved, hlacks, ?_⟩
  by_cases hnone : o.attributed = none
  · exact .inl hnone
  · have hoffered : r.file ∉ ctx.offered r o := fun hr => (hunmet _ hr).2.1 rfl
    exact .inr fun hreaches =>
      DecisionContext.bridge?_ne_none ht hnone hoffered hlacks hreaches hbridge

/-- Each include that is added is asked for by a use without a present provider, and a use that asks
for it although a present include reaches a provider is one of a name. So each has a use none of
whose providers is present or reached exactly if this holds of those that serve such a use of a
name. -/
theorem tolerated_iff (ht : ctx.policy.tolerateTransitive = true)
    (h : finalize ctx r = .ok (report, done)) :
    (∀ x ∈ includesOf report.add, ∃ o ∈ report.uses, ServedBy o x ∧ ctx.LacksPresent r o ∧
      (o.attributed = none ∨ ¬ ctx.ReachesProvider r o)) ∧
    ((∀ x ∈ includesOf report.add, ∃ o ∈ report.uses,
        o.status = .included x ∧ ctx.LacksPresent r o ∧ ¬ ctx.ReachesProvider r o) ↔
      ∀ x ∈ includesOf report.add, ∀ n ∈ report.uses, n.attributed = none →
        n.status = .included x → ctx.LacksPresent r n → ctx.ReachesProvider r n →
        ∃ o ∈ report.uses,
          o.status = .included x ∧ ctx.LacksPresent r o ∧ ¬ ctx.ReachesProvider r o) := by
  obtain rfl := report_of_finalize h
  refine ⟨fun x hx => exists_asking ht hx, fun hall x hx _ _ _ _ _ _ => hall x hx, ?_⟩
  intro hnames x hx
  obtain ⟨o, ho, hserved, hlacks, hasked⟩ := exists_asking ht hx
  by_cases hreaches : ctx.ReachesProvider r o
  · have hnone : o.attributed = none := hasked.resolve_right fun hn => hn hreaches
    exact hnames x hx o ho hnone hserved.1 hlacks hreaches
  · exact ⟨o, ho, hserved.1, hlacks, hreaches⟩

/-! ## A header that is reached -/

/-- The header of a name is added although an include of the file reaches it, and this include goes.
-/
theorem reached_header_untolerated :
    ∃ report done,
      finalize (nullContext .pub { tolerateTransitive := true }
        [("f.cc", "a.h"), ("a.h", "null.h")]) (nullUser ["a.h"] []) = .ok (report, done) ∧
      .quoted "null.h" ∈ includesOf report.add ∧
      ¬ ∃ o ∈ report.uses, o.status = .included (.quoted "null.h") ∧
        (nullContext .pub { tolerateTransitive := true }
          [("f.cc", "a.h"), ("a.h", "null.h")]).LacksPresent (nullUser ["a.h"] []) o ∧
        ¬ (nullContext .pub { tolerateTransitive := true }
          [("f.cc", "a.h"), ("a.h", "null.h")]).ReachesProvider (nullUser ["a.h"] []) o := by
  simp only [DecisionContext.LacksPresent, DecisionContext.ReachesProvider,
    ← IncludeGraph.mem_closure]
  refine ⟨_, _, rfl, ?_⟩
  decide +kernel

/-- If no include of the file reaches it, it has to be added. -/
theorem unreached_header_asked :
    ∃ report done,
      finalize (nullContext .pub { tolerateTransitive := true } [("f.cc", "a.h")])
        (nullUser ["a.h"] []) = .ok (report, done) ∧
      .quoted "null.h" ∈ includesOf report.add ∧
      ∃ o ∈ report.uses, o.status = .included (.quoted "null.h") ∧
        (nullContext .pub { tolerateTransitive := true } [("f.cc", "a.h")]).LacksPresent
          (nullUser ["a.h"] []) o ∧
        ¬ (nullContext .pub { tolerateTransitive := true } [("f.cc", "a.h")]).ReachesProvider
          (nullUser ["a.h"] []) o := by
  obtain ⟨report, done, h, hadded, hunreached⟩ : ∃ report done,
      finalize (nullContext .pub { tolerateTransitive := true } [("f.cc", "a.h")])
        (nullUser ["a.h"] []) = .ok (report, done) ∧
      .quoted "null.h" ∈ includesOf report.add ∧
      ∀ o ∈ report.uses, ¬ (nullContext .pub { tolerateTransitive := true }
        [("f.cc", "a.h")]).ReachesProvider (nullUser ["a.h"] []) o := by
    simp only [DecisionContext.ReachesProvider, ← IncludeGraph.mem_closure]
    refine ⟨_, _, rfl, ?_⟩
    decide +kernel
  refine ⟨report, done, h, hadded, (tolerated_iff rfl h).2.2 ?_ _ hadded⟩
  intro x _ n hn _ _ _ hreaches
  exact absurd hreaches (hunreached n hn)

end FileReport

end IncludeAudit
