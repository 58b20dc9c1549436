import IncludeAudit.Proofs.Graph.Cycles

/-!
# Closures by a waiting list

The search for a closure, rule by rule, with a list of waiting nodes that may have a node many times:
all successors of a node that is met wait, whether they were met or not, and a node that was met
already is passed over when its turn comes. No rule says that the list runs dry; it is proved.

The search with paths takes a node out of the unmet ones before it waits. Its pending nodes are those
that it would claim among the waiting ones, so the two searches meet the same nodes in the same order.

* `Gathers.unique`: there is one way only to search;
* `claim_append`: nodes are claimed one list after the other;
* `gathers_run`: the search ends, with the nodes of the search with paths;
* `gathersClosure_iff`: the same for the include graph.
-/

namespace IncludeAudit

namespace Search

variable {α : Type} [DecidableEq α] {next : α → List α} {waiting seen fresh unmet nodes : List α}
  {pending : List (Trail α)} {answer : List α} {a : α}

/-- The search takes the first waiting node. The answer lists the nodes in the order in which they
were met. -/
inductive Gathers (next : α → List α) : (waiting seen answer : List α) → Prop
  | ends {seen : List α} : Gathers next [] seen seen
  | passes {a : α} {waiting seen answer : List α} (met : a ∈ seen)
    (rest : Gathers next waiting seen answer) : Gathers next (a :: waiting) seen answer
  | meets {a : α} {waiting seen answer : List α} (new : a ∉ seen)
    (rest : Gathers next (waiting ++ next a) (seen ++ [a]) answer) :
    Gathers next (a :: waiting) seen answer

omit [DecidableEq α] in
/-- The induction is on one of the searches. A waiting node was met or it was not. -/
theorem Gathers.unique {answer' : List α} (h : Gathers next waiting seen answer)
    (h' : Gathers next waiting seen answer') : answer = answer' := by
  induction h with
  | ends =>
    cases h'
    rfl
  | passes met rest ih =>
    cases h' with
    | passes _ rest' => exact ih rest'
    | meets new => exact absurd met new
  | meets new rest ih =>
    cases h' with
    | passes met => exact absurd met new
    | meets _ rest' => exact ih rest'

/-- What the second list claims is left by the first. -/
theorem claim_append (wanted more unmet : List α) :
    claim (wanted ++ more) unmet =
      ((claim wanted unmet).1 ++ (claim more (claim wanted unmet).2).1,
        (claim more (claim wanted unmet).2).2) := by
  induction wanted generalizing unmet with
  | nil => rfl
  | cons a wanted ih =>
    rw [List.cons_append]
    by_cases ha : a ∈ unmet
    · rw [claim_cons_of_mem ha, claim_cons_of_mem ha, ih, List.cons_append]
    · rw [claim_cons_of_not_mem ha, claim_cons_of_not_mem ha, ih]

/-- The fresh nodes are those that were not met. -/
def Fresh (nodes seen fresh : List α) : Prop :=
  ∀ a ∈ nodes, a ∈ fresh ↔ a ∉ seen

theorem Fresh.meet (h : Fresh nodes seen fresh) (a : α) :
    Fresh nodes (seen ++ [a]) (without a fresh) := by
  intro b hb
  rw [mem_without, h b hb, List.mem_append, List.mem_singleton, not_or]

theorem Fresh.mem_seen (h : Fresh nodes seen fresh) (ha : a ∈ nodes) (hmet : a ∉ fresh) : a ∈ seen :=
  Decidable.byContradiction fun hnew => hmet ((h a ha).2 hnew)

/-- The pending nodes are claimed by the waiting ones. The outer induction is on the steps of the
search with paths, which looks at no node twice; the inner one is on the waiting nodes, of which those
that were met come to nothing. -/
theorem gathers_run (hnext : ∀ a, ∀ b ∈ next a, b ∈ nodes) (hwaiting : ∀ a ∈ waiting, a ∈ nodes)
    (hfresh : Fresh nodes seen fresh)
    (hclaim : claim waiting fresh = (pending.map (·.node), unmet)) :
    Gathers next waiting seen (seen ++ (run next pending unmet).map (·.node)) := by
  induction pending, unmet using run.induct next generalizing waiting seen fresh with
  | case1 unmet =>
    rw [run, List.map_nil, List.append_nil]
    induction waiting with
    | nil => exact .ends
    | cons a waiting ih =>
      obtain ⟨ha, hothers⟩ := List.forall_mem_cons.1 hwaiting
      by_cases hmet : a ∈ fresh
      · rw [claim_cons_of_mem hmet] at hclaim
        cases hclaim
      · rw [claim_cons_of_not_mem hmet] at hclaim
        exact .passes (hfresh.mem_seen ha hmet) (ih hothers hclaim)
  | case2 unmet t pending claimed =>
    rename_i ih
    induction waiting with
    | nil => cases hclaim
    | cons a waiting ihwaiting =>
      obtain ⟨ha, hothers⟩ := List.forall_mem_cons.1 hwaiting
      by_cases hmet : a ∈ fresh
      · rw [claim_cons_of_mem hmet, List.map_cons, Prod.mk.injEq, List.cons.injEq] at hclaim
        obtain ⟨⟨rfl, hpending⟩, hunmet⟩ := hclaim
        have hrest := ih (List.forall_mem_append.2 ⟨hothers, hnext t.node⟩) (hfresh.meet t.node) <| by
          rw [claim_append, hpending, hunmet, ← nodes_rest]
          rfl
        rw [List.append_assoc, List.singleton_append] at hrest
        rw [run_cons, List.map_cons]
        exact .meets ((hfresh _ ha).1 hmet) hrest
      · rw [claim_cons_of_not_mem hmet] at hclaim
        exact .passes (hfresh.mem_seen ha hmet) (ihwaiting hothers hclaim)

end Search

namespace IncludeGraph

/-- What the search with a waiting list answers for a file, of which all successors wait at first. -/
def GathersClosure (g : IncludeGraph) (f : FileName) : List FileName → Prop :=
  Search.Gathers g.successors (g.successors f) []

/-- The search with a waiting list ends, in one way only, and meets the same files in the same
order. -/
theorem gathersClosure_iff {g : IncludeGraph} {f : FileName} {answer : List FileName} :
    g.GathersClosure f answer ↔ answer = g.closure f := by
  have hgathers : g.GathersClosure f (g.closure f) := by
    have hfresh : Search.Fresh g.included [] g.included := fun a ha =>
      iff_of_true ha List.not_mem_nil
    refine Search.gathers_run mem_included_of_mem_successors (mem_included_of_mem_successors f)
      hfresh ?_
    simp [Trail.extend, Function.comp_def]
  exact ⟨fun h => h.unique hgathers, fun h => h ▸ hgathers⟩

end IncludeGraph

end IncludeAudit
