import IncludeAudit.Proofs.Graph.BackLinks
import IncludeAudit.Proofs.Graph.Distances

/-!
# Shortest cycles

The cycle that is found through a file has each file once, but for its ends, and there is no shorter
one: the search comes nearest first to the files that include the one it began with.

* `nodup_path_fromNode`: a path by which a node is met has no node twice;
* `exists_closing_trail`: the search comes to the end of any cycle, by a path that is no longer;
* `isShortestCycle_of_findCycle`: what is found;
* `findCycle_exact`: the search for a cycle ends, and what its answer says.
-/

namespace IncludeAudit

namespace Search

variable {α : Type} [DecidableEq α] {next : α → List α} {pending : List (Trail α)}
  {unmet nodes : List α} {a : α}

/-- A path grows by unmet nodes, and its own nodes are met. The induction is on the steps of the
search. -/
theorem nodup_path_run (h : ∀ t ∈ pending, t.path.Nodup ∧ ∀ a ∈ t.path, a ∉ unmet) :
    ∀ t ∈ run next pending unmet, t.path.Nodup := by
  induction pending, unmet using run.induct next with
  | case1 unmet =>
    rw [run]
    exact List.forall_mem_nil _
  | case2 unmet t pending claimed ih =>
    obtain ⟨⟨hnodup, hmet⟩, hpending⟩ := List.forall_mem_cons.1 h
    rw [run_cons, List.forall_mem_cons]
    refine ⟨hnodup, ih fun t' ht' => ?_⟩
    rcases List.mem_append.1 ht' with ht' | ht'
    · obtain ⟨hnodup', hmet'⟩ := hpending t' ht'
      exact ⟨hnodup', fun a ha hleft => hmet' a ha (mem_claim_snd.1 hleft).2⟩
    · obtain ⟨c, hc, rfl⟩ := List.mem_map.1 ht'
      obtain ⟨hwanted, hunmet⟩ := mem_claim_fst.1 hc
      rw [Trail.path_extend, List.nodup_append]
      refine ⟨⟨hnodup, List.nodup_singleton c, fun a ha b hb hab => ?_⟩, fun a ha hleft => ?_⟩
      · rw [List.mem_singleton.1 hb] at hab
        exact hmet a ha (hab ▸ hunmet)
      · obtain ⟨hnot, hleft⟩ := mem_claim_snd.1 hleft
        rcases List.mem_append.1 ha with ha | ha
        · exact hmet a ha hleft
        · exact hnot (List.mem_singleton.1 ha ▸ hwanted)

theorem nodup_path_fromNode : ∀ t ∈ fromNode next nodes a, t.path.Nodup :=
  nodup_path_run <| List.forall_mem_singleton.2
    ⟨List.nodup_singleton a, fun _ hb hmem =>
      (mem_without.1 hmem).2 (List.mem_singleton.1 hb)⟩

end Search

namespace IncludeGraph

variable {g : IncludeGraph} {f : FileName} {path : List FileName}

/-- A path of includes from a file back to itself, without another file twice, of which there is no
shorter one. -/
structure IsShortestCycle (g : IncludeGraph) (f : FileName) (path : List FileName) : Prop where
  closed : ∃ between, path = f :: (between ++ [f]) ∧ between.Nodup ∧ f ∉ between
  chain : path.IsChain g.Includes
  least : ∀ between, (f :: (between ++ [f])).IsChain g.Includes → path.length ≤ between.length + 2

/-- A cycle goes through a file that includes the first one, and the search knows a path to it that
is no longer. -/
theorem exists_closing_trail {between : List FileName}
    (h : (f :: (between ++ [f])).IsChain g.Includes) :
    ∃ t ∈ g.trails f, g.includesDirectly t.node f = true ∧ t.hops ≤ between.length := by
  rw [← List.cons_append, List.isChain_append] at h
  obtain ⟨c, hc⟩ : ∃ c, (f :: between).getLast? = some c :=
    ⟨_, List.getLast?_eq_some_getLast (List.cons_ne_nil f between)⟩
  obtain ⟨t, ht, rfl, hle⟩ := exists_trail_of_isPath (g := g) ⟨rfl, hc, h.1⟩
  refine ⟨t, ht, ?_, ?_⟩
  · rw [includesDirectly, List.contains_iff_mem]
    exact h.2.2 _ hc f rfl
  · rwa [List.length_cons, Nat.add_le_add_iff_right] at hle

theorem isShortestCycle_of_findCycle (h : g.findCycle f = some path) :
    g.IsShortestCycle f path := by
  have hcycle := isCycle_of_findCycle h
  obtain ⟨t, hfound, rfl⟩ := Option.map_eq_some_iff.1 h
  have ht : t ∈ g.trails f := List.mem_of_find?_eq_some hfound
  obtain ⟨between, hpath⟩ := List.head?_eq_some_iff.1 (isPath_of_mem_trails ht).head
  refine ⟨⟨between, ?_, ?_⟩, hcycle.2, fun other hother => ?_⟩
  · rw [hpath, List.cons_append]
  · have hnodup := Search.nodup_path_fromNode t ht
    rw [hpath, List.nodup_cons] at hnodup
    exact hnodup.symm
  · -- The closing file that is found comes before any other one, so it is no further away.
    obtain ⟨t', ht', hcloses, hle⟩ := exists_closing_trail hother
    have hops : t.hops ≤ t'.hops := by
      obtain ⟨-, before, after, htrails, hbefore⟩ := List.find?_eq_some_iff_append.1 hfound
      have hsorted := Search.pairwise_hops_fromNode g.successors g.included f
      rw [trails] at htrails ht'
      rw [htrails] at hsorted ht'
      rcases List.mem_append.1 ht' with ht' | ht'
      · have hnot := hbefore t' ht'
        rw [hcloses] at hnot
        cases hnot
      · rcases List.mem_cons.1 ht' with rfl | ht'
        · exact Nat.le_refl _
        · exact (List.pairwise_cons.1 (List.pairwise_append.1 hsorted).2.1).1 t' ht'
    rw [List.length_append, t.length_path, List.length_singleton]
    omega

/-- The search for a cycle through a file ends, in one way only, without a missing link. It finds
none exactly if the file does not reach itself by includes, and otherwise a shortest one. -/
theorem findCycle_exact (g : IncludeGraph) (f : FileName) :
    (∀ answer, g.TracesCycle f answer ↔ answer = g.findCycle f) ∧
      (g.findCycle f = none ↔ ¬ g.OnCycle f) ∧
      ∀ path, g.findCycle f = some path → g.IsShortestCycle f path :=
  ⟨fun _ => tracesCycle_iff, findCycle_eq_none, fun _ => isShortestCycle_of_findCycle⟩

end IncludeGraph

end IncludeAudit
