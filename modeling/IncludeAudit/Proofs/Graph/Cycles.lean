import IncludeAudit.Graph.IncludeGraph
import IncludeAudit.Proofs.Graph.Search
import Mathlib.Data.List.Chain

/-!
# Include cycles

A search keeps for each node the path by which it was met, and each path is a chain of steps from
where the search began. So the include graph finds a cycle through a file exactly if there is one, and
what it finds is one.

* `forall_mem_run`: what holds of the pending paths and of each step further holds of all paths met;
* `isWalk_of_mem_fromNode`: paths are chains of steps;
* `isCycle_of_findCycle`, `findCycle_eq_none`: what is found, and when nothing is.
-/

namespace IncludeAudit

namespace Trail

variable {α : Type} {next : α → List α} {t : Trail α} {a b : α}

theorem path_extend (t : Trail α) (b : α) : (t.extend b).path = t.path ++ [b] :=
  List.reverse_cons

theorem getLast?_path (t : Trail α) : t.path.getLast? = some t.node := by
  rw [path, List.getLast?_reverse, List.head?_cons]

/-- The path is a chain of steps from a node. -/
structure IsWalk (next : α → List α) (a : α) (t : Trail α) : Prop where
  head : t.path.head? = some a
  chain : t.path.IsChain fun x y => y ∈ next x

theorem isWalk_start (next : α → List α) (a : α) : IsWalk next a (start a) :=
  ⟨rfl, .singleton a⟩

theorem IsWalk.extend (h : IsWalk next a t) (hb : b ∈ next t.node) : IsWalk next a (t.extend b) := by
  refine ⟨?_, ?_⟩
  · rw [path_extend, List.head?_append, h.head, Option.some_or]
  · rw [path_extend, List.isChain_append]
    refine ⟨h.chain, .singleton b, fun x hx y hy => ?_⟩
    rw [getLast?_path] at hx
    cases hx
    cases hy
    exact hb

end Trail

namespace Search

variable {α : Type} [DecidableEq α] {next : α → List α} {pending : List (Trail α)}
  {unmet nodes : List α} {a : α}

/-- The induction is on the steps of the search. -/
theorem forall_mem_run {p : Trail α → Prop} (hstep : ∀ t, p t → ∀ b ∈ next t.node, p (t.extend b))
    (hpending : ∀ t ∈ pending, p t) : ∀ t ∈ run next pending unmet, p t := by
  induction pending, unmet using run.induct next with
  | case1 unmet =>
    rw [run]
    exact List.forall_mem_nil _
  | case2 unmet t pending claimed ih =>
    rw [List.forall_mem_cons] at hpending
    rw [run_cons, List.forall_mem_cons]
    refine ⟨hpending.1, ih ?_⟩
    rw [List.forall_mem_append, List.forall_mem_map]
    exact ⟨hpending.2, fun b hb => hstep t hpending.1 b (mem_claim_fst.1 hb).1⟩

theorem isWalk_of_mem_fromNode : ∀ t ∈ fromNode next nodes a, t.IsWalk next a :=
  forall_mem_run (fun _ ht _ hb => ht.extend hb) <| List.forall_mem_singleton.2 <|
    Trail.isWalk_start next a

end Search

namespace IncludeGraph

open Relation (ReflTransGen TransGen)

variable {g : IncludeGraph} {f a b : FileName} {path : List FileName}

/-- One file includes another directly. -/
def Includes (g : IncludeGraph) (a b : FileName) : Prop :=
  b ∈ g.successors a

theorem includes_iff : g.Includes a b ↔ ∃ d ∈ g.directives, d.includer = a ∧ d.included = b := by
  simp [Includes, successors, directIncludes, and_assoc]

theorem mem_included_of_mem_successors : ∀ a, ∀ b ∈ g.successors a, b ∈ g.included := by
  intro a b hb
  obtain ⟨d, hd, -, rfl⟩ := includes_iff.1 hb
  exact List.mem_map_of_mem hd

/-- The paths from a file lead to what it reaches. -/
theorem mem_trails : b ∈ (g.trails a).map (·.node) ↔ ReflTransGen g.Includes a b :=
  Search.mem_fromNode mem_included_of_mem_successors

/-- The file lies on an include cycle. -/
def OnCycle (g : IncludeGraph) (f : FileName) : Prop :=
  TransGen g.Includes f f

theorem isCycle_of_findCycle (h : g.findCycle f = some path) :
    (∃ middle, path = f :: (middle ++ [f])) ∧ path.IsChain g.Includes := by
  obtain ⟨t, ht, rfl⟩ := Option.map_eq_some_iff.1 h
  have hback : f ∈ g.successors t.node := by
    simpa [includesDirectly] using List.find?_some ht
  have hwalk := (Search.isWalk_of_mem_fromNode t (List.mem_of_find?_eq_some ht)).extend hback
  obtain ⟨middle, hmiddle⟩ := List.head?_eq_some_iff.1
    (Search.isWalk_of_mem_fromNode t (List.mem_of_find?_eq_some ht)).head
  rw [← Trail.path_extend]
  exact ⟨⟨middle, by rw [Trail.path_extend, hmiddle, List.cons_append]⟩, hwalk.chain⟩

theorem findCycle_eq_none : g.findCycle f = none ↔ ¬ g.OnCycle f := by
  rw [findCycle, Option.map_eq_none_iff, List.find?_eq_none, OnCycle, TransGen.tail'_iff]
  simp only [← mem_trails, List.mem_map, includesDirectly, List.contains_iff_mem, Includes]
  constructor
  · rintro hnone ⟨b, ⟨t, ht, rfl⟩, hb⟩
    exact hnone t ht hb
  · intro hacyclic t ht hb
    exact hacyclic ⟨t.node, ⟨t, ht, rfl⟩, hb⟩

end IncludeGraph

end IncludeAudit
