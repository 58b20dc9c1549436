import IncludeAudit.Proofs.Graph.Reachability
import IncludeAudit.Proofs.Ordered.Map

/-!
# Shortest paths

A search looks first at what it met first. So the pending nodes are never more than one step apart
(`Layered`), what is met comes nearest first, and the path by which a node is met is a shortest one.
For the include graph this says that the number of hops to a file is its distance.

* `exists_mem_run`: a search is as quick to each node as any path from the pending ones;
* `pairwise_hops_run`: what is met comes nearest first;
* `exists_mem_fromNode`: a search from one node is as quick as any path from it;
* `isDistance_of_mem_trails`, `distances_shortest`: the distances of the include graph.
-/

namespace IncludeAudit

theorem Trail.hops_extend {α : Type} (t : Trail α) (a : α) : (t.extend a).hops = t.hops + 1 :=
  rfl

theorem Trail.length_path {α : Type} (t : Trail α) : t.path.length = t.hops + 1 := by
  rw [path, List.length_reverse, List.length_cons, hops]

namespace Search

/-! ## Paths by their number of steps -/

section Steps

variable {α : Type} {step : α → α → Prop} {a b : α}

/-- A path of the given number of steps. -/
inductive Steps (step : α → α → Prop) (a : α) : Nat → α → Prop
  | refl : Steps step a 0 a
  | tail {n : Nat} {b c : α} (path : Steps step a n b) (last : step b c) : Steps step a (n + 1) c

/-- The induction is on the path from its end. -/
theorem Steps.of_isChain {path : List α} (hhead : path.head? = some a)
    (hlast : path.getLast? = some b) (hchain : path.IsChain step) :
    Steps step a (path.length - 1) b := by
  induction path using List.reverseRecOn generalizing b with
  | nil => cases hhead
  | append_singleton path c ih =>
    obtain rfl : c = b := by simpa using hlast
    cases hd : path.getLast? with
    | none =>
      obtain rfl : path = [] := List.getLast?_eq_none_iff.1 hd
      obtain rfl : c = a := by simpa using hhead
      exact .refl
    | some d =>
      have hne : path ≠ [] := fun hnil => by simp [hnil] at hd
      rw [List.isChain_append] at hchain
      rw [List.head?_append_of_ne_nil _ hne] at hhead
      have hsteps := (ih hhead hd hchain.1).tail (hchain.2.2 d hd c rfl)
      rw [Nat.sub_add_cancel (List.length_pos_of_ne_nil hne)] at hsteps
      rwa [List.length_append, List.length_singleton, Nat.add_sub_cancel]

end Steps

variable {α : Type} [DecidableEq α] {next : α → List α} {pending : List (Trail α)}
  {unmet nodes : List α} {a b c : α} {n : Nat}

/-! ## Searching from pending nodes -/

/-- The pending nodes come nearest first and are at most one step apart. -/
structure Layered (pending : List (Trail α)) : Prop where
  nearest_first : pending.Pairwise fun t t' => t.hops ≤ t'.hops
  narrow : ∀ t ∈ pending, ∀ t' ∈ pending, t'.hops ≤ t.hops + 1

omit [DecidableEq α] in
theorem layered_singleton (t : Trail α) : Layered [t] where
  nearest_first := List.pairwise_singleton _ _
  narrow := by simp

/-- What is taken is one step further than what is looked at. -/
theorem Layered.rest {t : Trail α} (h : Layered (t :: pending)) :
    Layered (rest next t pending unmet) := by
  obtain ⟨hnearest, hsorted⟩ := List.pairwise_cons.1 h.nearest_first
  have hpending : ∀ t' ∈ pending, t.hops ≤ t'.hops ∧ t'.hops ≤ t.hops + 1 := fun t' ht' =>
    ⟨hnearest t' ht', h.narrow t List.mem_cons_self t' (List.mem_cons_of_mem _ ht')⟩
  have htaken : ∀ t' ∈ (claim (next t.node) unmet).1.map t.extend, t'.hops = t.hops + 1 :=
    List.forall_mem_map.2 fun c _ => t.hops_extend c
  refine ⟨?_, fun t' ht' t'' ht'' => ?_⟩
  · rw [Search.rest, List.pairwise_append]
    refine ⟨hsorted, List.pairwise_of_forall_mem_list fun t' ht' t'' ht'' => ?_, ?_⟩
    · rw [htaken t' ht', htaken t'' ht'']
    · intro t' ht' t'' ht''
      rw [htaken t'' ht'']
      exact (hpending t' ht').2
  · have hle : t.hops ≤ t'.hops := (List.mem_append.1 ht').elim
      (fun ht' => (hpending t' ht').1) fun ht' => (htaken t' ht').symm ▸ Nat.le_succ _
    have hge : t''.hops ≤ t.hops + 1 := (List.mem_append.1 ht'').elim
      (fun ht'' => (hpending t'' ht'').2) fun ht'' => (htaken t'' ht'').le
    omega

/-- A pending node reaches a node, in no more than the given number of steps from where the search
began. -/
def MeetsWithin (next : α → List α) (pending : List (Trail α)) (unmet : List α) (n : Nat) (b : α) :
    Prop :=
  ∃ t ∈ pending, ∃ k, Steps (StepInto next unmet) t.node k b ∧ t.hops + k ≤ n

omit [DecidableEq α] in
theorem MeetsWithin.step (h : MeetsWithin next pending unmet n b)
    (hstep : StepInto next unmet b c) : MeetsWithin next pending unmet (n + 1) c := by
  obtain ⟨t, ht, k, hpath, hk⟩ := h
  exact ⟨t, ht, k + 1, hpath.tail hstep, Nat.succ_le_succ hk⟩

/-- Looking at a nearest node costs no path a step. The induction is on the path. -/
theorem MeetsWithin.cases_cons {t : Trail α} (hnearest : ∀ t' ∈ pending, t.hops ≤ t'.hops)
    (h : MeetsWithin next (t :: pending) unmet n b) :
    (b = t.node ∧ t.hops ≤ n) ∨
      MeetsWithin next (rest next t pending unmet) (claim (next t.node) unmet).2 n b := by
  obtain ⟨t', ht', k, hpath, hk⟩ := h
  induction hpath generalizing n with
  | refl =>
    rcases List.mem_cons.1 ht' with rfl | ht'
    · exact .inl ⟨rfl, hk⟩
    · exact .inr ⟨t', List.mem_append_left _ ht', 0, .refl, hk⟩
  | @tail k b c _ hstep ih =>
    by_cases hc : c ∈ next t.node
    · -- The path takes at least one step from a node that is no nearer than the one looked at.
      have hle : t.hops ≤ t'.hops :=
        (List.mem_cons.1 ht').elim (fun h => h ▸ Nat.le_refl _) (hnearest t')
      refine .inr ⟨t.extend c, List.mem_append_right _
        (List.mem_map_of_mem (mem_claim_fst.2 ⟨hc, hstep.2⟩)), 0, .refl, ?_⟩
      rw [t.hops_extend c]
      omega
    · obtain ⟨m, rfl⟩ : ∃ m, n = m + 1 := ⟨n - 1, by omega⟩
      rcases ih (Nat.le_of_succ_le_succ hk) with ⟨rfl, -⟩ | hmeets
      · exact absurd hstep.1 hc
      · exact .inr (hmeets.step ⟨hstep.1, mem_claim_snd.2 ⟨hc, hstep.2⟩⟩)

/-- The induction is on the steps of the search. -/
theorem exists_mem_run (hlayered : Layered pending) (h : MeetsWithin next pending unmet n b) :
    ∃ t ∈ run next pending unmet, t.node = b ∧ t.hops ≤ n := by
  induction pending, unmet using run.induct next with
  | case1 unmet =>
    obtain ⟨t, ht, -⟩ := h
    exact absurd ht List.not_mem_nil
  | case2 unmet t pending claimed ih =>
    rw [run_cons]
    rcases h.cases_cons (List.pairwise_cons.1 hlayered.nearest_first).1 with ⟨rfl, hn⟩ | h
    · exact ⟨t, List.mem_cons_self, rfl, hn⟩
    · obtain ⟨t', ht', hfound⟩ := ih hlayered.rest h
      exact ⟨t', List.mem_cons_of_mem _ ht', hfound⟩

/-- What is met comes nearest first. -/
theorem pairwise_hops_run (hlayered : Layered pending) :
    (run next pending unmet).Pairwise fun t t' => t.hops ≤ t'.hops := by
  induction pending, unmet using run.induct next with
  | case1 unmet =>
    rw [run]
    exact .nil
  | case2 unmet t pending claimed ih =>
    rw [run_cons, List.pairwise_cons]
    refine ⟨forall_mem_run (fun t' ht' c _ => ?_) fun t' ht' => ?_, ih hlayered.rest⟩
    · exact ht'.trans (Nat.le_succ _)
    · rcases List.mem_append.1 ht' with ht' | ht'
      · exact (List.pairwise_cons.1 hlayered.nearest_first).1 t' ht'
      · obtain ⟨c, -, rfl⟩ := List.mem_map.1 ht'
        exact Nat.le_succ _

/-! ## Searching from one node -/

/-- A path that comes back to its beginning is cut there. -/
theorem meetsWithin_start (hnext : ∀ a, ∀ b ∈ next a, b ∈ nodes)
    (h : Steps (fun x y => y ∈ next x) a n b) :
    MeetsWithin next [.start a] (without a nodes) n b := by
  induction h with
  | refl => exact ⟨.start a, List.mem_singleton_self _, 0, .refl, Nat.le_refl _⟩
  | @tail n b c _ hstep ih =>
    by_cases hc : c = a
    · exact ⟨.start a, List.mem_singleton_self _, 0, hc ▸ .refl, Nat.zero_le _⟩
    · exact ih.step ⟨hstep, mem_without.2 ⟨hnext b c hstep, hc⟩⟩

theorem exists_mem_fromNode (hnext : ∀ a, ∀ b ∈ next a, b ∈ nodes)
    (h : Steps (fun x y => y ∈ next x) a n b) :
    ∃ t ∈ fromNode next nodes a, t.node = b ∧ t.hops ≤ n :=
  exists_mem_run (layered_singleton _) (meetsWithin_start hnext h)

theorem pairwise_hops_fromNode (next : α → List α) (nodes : List α) (a : α) :
    (fromNode next nodes a).Pairwise fun t t' => t.hops ≤ t'.hops :=
  pairwise_hops_run (layered_singleton _)

end Search

namespace IncludeGraph

variable {g : IncludeGraph} {f a b : FileName} {path : List FileName} {n : Nat}
  {t : Trail FileName}

/-- A path of includes from one file to another, with both of them. -/
structure IsPath (g : IncludeGraph) (a b : FileName) (path : List FileName) : Prop where
  head : path.head? = some a
  last : path.getLast? = some b
  chain : path.IsChain g.Includes

/-- There is a path of so many hops, and none of fewer. -/
structure IsDistance (g : IncludeGraph) (a b : FileName) (n : Nat) : Prop where
  attained : ∃ path, g.IsPath a b path ∧ path.length = n + 1
  least : ∀ path, g.IsPath a b path → n + 1 ≤ path.length

theorem IsPath.length_pos (h : g.IsPath a b path) : 0 < path.length := by
  refine List.length_pos_of_ne_nil fun hnil => ?_
  have hhead := h.head
  rw [hnil] at hhead
  cases hhead

theorem IsDistance.unique {m : Nat} (hm : g.IsDistance a b m) (hn : g.IsDistance a b n) :
    m = n := by
  obtain ⟨path, hpath, hlength⟩ := hm.attained
  obtain ⟨path', hpath', hlength'⟩ := hn.attained
  have hle := hm.least path' hpath'
  have hge := hn.least path hpath
  omega

theorem isPath_of_mem_trails (ht : t ∈ g.trails a) : g.IsPath a t.node t.path :=
  have hwalk := Search.isWalk_of_mem_fromNode t ht
  ⟨hwalk.head, t.getLast?_path, hwalk.chain⟩

/-- The search is as quick as any path. -/
theorem exists_trail_of_isPath (h : g.IsPath a b path) :
    ∃ t ∈ g.trails a, t.node = b ∧ t.hops + 1 ≤ path.length := by
  obtain ⟨t, ht, hnode, hops⟩ := Search.exists_mem_fromNode mem_included_of_mem_successors
    (Search.Steps.of_isChain h.head h.last h.chain)
  have hlength := h.length_pos
  exact ⟨t, ht, hnode, by omega⟩

theorem trail_unique {t' : Trail FileName} (ht : t ∈ g.trails a) (ht' : t' ∈ g.trails a)
    (hnode : t.node = t'.node) : t = t' :=
  List.inj_on_of_nodup_map (Search.nodup_fromNode g.successors g.included a) ht ht' hnode

theorem isDistance_of_mem_trails (ht : t ∈ g.trails a) : g.IsDistance a t.node t.hops where
  attained := ⟨t.path, isPath_of_mem_trails ht, t.length_path⟩
  least path hpath := by
    obtain ⟨t', ht', hnode, hle⟩ := exists_trail_of_isPath hpath
    rwa [trail_unique ht' ht hnode] at hle

/-- Each file has one distance at most. -/
theorem nodup_distances (g : IncludeGraph) (a : FileName) :
    ((g.distances a).map (·.1)).Nodup := by
  rw [distances, List.map_map]
  exact Search.nodup_fromNode g.successors g.included a

theorem mem_distances : (b, n) ∈ g.distances a ↔ g.IsDistance a b n := by
  constructor
  · intro h
    obtain ⟨t, ht, he⟩ := List.mem_map.1 h
    cases he
    exact isDistance_of_mem_trails ht
  · intro h
    obtain ⟨path, hpath, -⟩ := h.attained
    obtain ⟨t, ht, rfl, -⟩ := exists_trail_of_isPath hpath
    rw [h.unique (isDistance_of_mem_trails ht)]
    exact List.mem_map_of_mem ht

/-- What a file reaches has a distance. -/
theorem exists_isDistance_iff : (∃ n, g.IsDistance a b n) ↔ ∃ path, g.IsPath a b path := by
  constructor
  · rintro ⟨n, h⟩
    obtain ⟨path, hpath, -⟩ := h.attained
    exact ⟨path, hpath⟩
  · rintro ⟨path, hpath⟩
    obtain ⟨t, ht, rfl, -⟩ := exists_trail_of_isPath hpath
    exact ⟨t.hops, isDistance_of_mem_trails ht⟩

/-- A file is no hop away from itself. -/
theorem isDistance_self (g : IncludeGraph) (a : FileName) : g.IsDistance a a 0 where
  attained := ⟨[a], ⟨rfl, rfl, .singleton a⟩, rfl⟩
  least _ hpath := hpath.length_pos

theorem lookup_distances : (g.distances a).lookup b = some n ↔ g.IsDistance a b n := by
  rw [lookup_eq_some_iff_mem (nodup_distances g a), mem_distances]

/-- The distances from a file are the lengths of the shortest paths to the files that it reaches. -/
theorem distances_shortest (g : IncludeGraph) (f : FileName) :
    ((g.distances f).map (·.1)).Nodup ∧
      (∀ b n, (g.distances f).lookup b = some n ↔ g.IsDistance f b n) ∧
      (g.distances f).lookup f = some 0 ∧
      ∀ b, (g.distances f).lookup b = none ↔ ¬ ∃ path, g.IsPath f b path := by
  refine ⟨nodup_distances g f, fun b n => lookup_distances,
    lookup_distances.2 (isDistance_self g f), fun b => ?_⟩
  rw [← exists_isDistance_iff, not_exists, Option.eq_none_iff_forall_ne_some]
  exact forall_congr' fun n => not_congr lookup_distances

end IncludeGraph

end IncludeAudit
