import IncludeAudit.Graph.Search
import Mathlib.Logic.Relation

/-!
# What a search meets

A search from pending nodes meets what they reach by steps into unmet nodes, and each node once.
`claim` splits the unmet nodes at each step, so nothing is lost and nothing is met again.

* `mem_claim_fst`, `mem_claim_snd`, `nodup_claim`: what is taken and what is left;
* `mem_run`, `nodup_run`: what is met from pending nodes;
* `mem_fromNode`, `nodup_fromNode`: what is met from one node, if its universe is large enough;
* `mem_fromSuccessors`: what is met from its successors;
* `fromNode_congr`: the order of the universe does not matter.
-/

namespace IncludeAudit

namespace Search

open Relation (ReflTransGen TransGen)

variable {α : Type} [DecidableEq α] {next : α → List α} {wanted unmet nodes : List α}
  {pending : List (Trail α)} {a b : α}

theorem mem_without : b ∈ without a nodes ↔ b ∈ nodes ∧ b ≠ a := by
  simp [without]

/-! ## Taking nodes -/

theorem claim_cons_of_mem (h : a ∈ unmet) : claim (a :: wanted) unmet =
    (a :: (claim wanted (without a unmet)).1, (claim wanted (without a unmet)).2) := by
  rw [claim, if_pos h]

theorem claim_cons_of_not_mem (h : a ∉ unmet) : claim (a :: wanted) unmet = claim wanted unmet := by
  rw [claim, if_neg h]

theorem mem_claim_fst : b ∈ (claim wanted unmet).1 ↔ b ∈ wanted ∧ b ∈ unmet := by
  induction wanted generalizing unmet with
  | nil => simp [claim]
  | cons a wanted ih =>
    by_cases ha : a ∈ unmet
    · rw [claim_cons_of_mem ha, List.mem_cons, ih, mem_without, List.mem_cons]
      by_cases hb : b = a <;> simp [hb, ha]
    · rw [claim_cons_of_not_mem ha, ih, List.mem_cons]
      by_cases hb : b = a <;> simp [hb, ha]

theorem mem_claim_snd : b ∈ (claim wanted unmet).2 ↔ b ∉ wanted ∧ b ∈ unmet := by
  induction wanted generalizing unmet with
  | nil => simp [claim]
  | cons a wanted ih =>
    by_cases ha : a ∈ unmet
    · rw [claim_cons_of_mem ha, ih, mem_without, List.mem_cons]
      by_cases hb : b = a <;> simp [hb]
    · rw [claim_cons_of_not_mem ha, ih, List.mem_cons]
      by_cases hb : b = a <;> simp [hb, ha]

theorem nodup_claim : (claim wanted unmet).1.Nodup := by
  induction wanted generalizing unmet with
  | nil => exact List.nodup_nil
  | cons a wanted ih =>
    by_cases ha : a ∈ unmet
    · rw [claim_cons_of_mem ha, List.nodup_cons, mem_claim_fst, mem_without]
      exact ⟨fun h => h.2.2 rfl, ih⟩
    · rw [claim_cons_of_not_mem ha]
      exact ih

/-! ## Searching from pending nodes -/

/-- A step to an unmet node. -/
def StepInto (next : α → List α) (unmet : List α) (a b : α) : Prop :=
  b ∈ next a ∧ b ∈ unmet

/-- What a pending node reaches. -/
def Meets (next : α → List α) (pending : List (Trail α)) (unmet : List α) (b : α) : Prop :=
  ∃ t ∈ pending, ReflTransGen (StepInto next unmet) t.node b

/-- The pending nodes once the first one is looked at. -/
def rest (next : α → List α) (t : Trail α) (pending : List (Trail α)) (unmet : List α) :
    List (Trail α) :=
  pending ++ (claim (next t.node) unmet).1.map t.extend

theorem run_cons (next : α → List α) (t : Trail α) (pending : List (Trail α)) (unmet : List α) :
    run next (t :: pending) unmet =
      t :: run next (rest next t pending unmet) (claim (next t.node) unmet).2 := by
  rw [run]
  rfl

theorem nodes_rest (next : α → List α) (t : Trail α) (pending : List (Trail α)) (unmet : List α) :
    (rest next t pending unmet).map (·.node) =
      pending.map (·.node) ++ (claim (next t.node) unmet).1 := by
  simp [rest, Trail.extend, Function.comp_def]

/-- The node that is looked at is met, and what else is met is met from the others and from what is
taken. -/
theorem meets_cons {t : Trail α} :
    Meets next (t :: pending) unmet b ↔
      b = t.node ∨ Meets next (rest next t pending unmet) (claim (next t.node) unmet).2 b := by
  have htaken : ∀ {c}, c ∈ next t.node → c ∈ unmet →
      Meets next (rest next t pending unmet) (claim (next t.node) unmet).2 c :=
    fun {c} hc hunmet => ⟨t.extend c, List.mem_append_right _
      (List.mem_map_of_mem (mem_claim_fst.2 ⟨hc, hunmet⟩)), .refl⟩
  constructor
  · -- by induction on the path: a step either takes a node or goes to one that is left
    rintro ⟨t', ht', hpath⟩
    induction hpath with
    | refl =>
      rcases List.mem_cons.1 ht' with rfl | ht'
      · exact .inl rfl
      · exact .inr ⟨t', List.mem_append_left _ ht', .refl⟩
    | @tail b c _ hstep ih =>
      obtain ⟨hnext, hunmet⟩ := hstep
      by_cases hc : c ∈ next t.node
      · exact .inr (htaken hc hunmet)
      · rcases ih with rfl | ⟨t'', ht'', hpath⟩
        · exact absurd hnext hc
        · exact .inr ⟨t'', ht'', hpath.tail ⟨hnext, mem_claim_snd.2 ⟨hc, hunmet⟩⟩⟩
  · rintro (rfl | ⟨t', ht', hpath⟩)
    · exact ⟨t, List.mem_cons_self, .refl⟩
    · have hmono : ReflTransGen (StepInto next unmet) t'.node b :=
        ReflTransGen.mono (fun _ _ h => ⟨h.1, (mem_claim_snd.1 h.2).2⟩) _ _ hpath
      rcases List.mem_append.1 ht' with ht' | ht'
      · exact ⟨t', List.mem_cons_of_mem _ ht', hmono⟩
      · obtain ⟨c, hc, rfl⟩ := List.mem_map.1 ht'
        exact ⟨t, List.mem_cons_self, .head (mem_claim_fst.1 hc) hmono⟩

/-- A search meets exactly what the pending nodes reach. The induction is on the steps of the
search. -/
theorem mem_run : b ∈ (run next pending unmet).map (·.node) ↔ Meets next pending unmet b := by
  induction pending, unmet using run.induct next with
  | case1 unmet => simp [run, Meets]
  | case2 unmet t pending claimed ih =>
    rw [run_cons, List.map_cons, List.mem_cons, meets_cons]
    exact or_congr_right ih

omit [DecidableEq α] in
theorem Meets.mem_or_mem (h : Meets next pending unmet b) :
    b ∈ pending.map (·.node) ∨ b ∈ unmet := by
  obtain ⟨t, ht, hpath⟩ := h
  rcases hpath.cases_tail with rfl | ⟨c, -, hstep⟩
  · exact .inl (List.mem_map_of_mem ht)
  · exact .inr hstep.2

/-- A search meets each node once, if the pending nodes are met already. -/
theorem nodup_run (hnodup : (pending.map (·.node)).Nodup)
    (hmet : ∀ a ∈ pending.map (·.node), a ∉ unmet) :
    ((run next pending unmet).map (·.node)).Nodup := by
  induction pending, unmet using run.induct next with
  | case1 unmet => simp [run]
  | case2 unmet t pending claimed ih =>
    rw [List.map_cons, List.nodup_cons] at hnodup
    rw [List.map_cons, List.forall_mem_cons] at hmet
    have hrest : ((rest next t pending unmet).map (·.node)).Nodup := by
      rw [nodes_rest, List.nodup_append]
      exact ⟨hnodup.2, nodup_claim, fun a ha b hb hab =>
        hmet.2 a ha (hab ▸ (mem_claim_fst.1 hb).2)⟩
    have hleft : ∀ a ∈ (rest next t pending unmet).map (·.node), a ∉ claimed.2 := by
      rw [nodes_rest, List.forall_mem_append]
      exact ⟨fun a ha hl => hmet.2 a ha (mem_claim_snd.1 hl).2,
        fun a ha hl => (mem_claim_snd.1 hl).1 (mem_claim_fst.1 ha).1⟩
    rw [run_cons, List.map_cons, List.nodup_cons]
    refine ⟨fun hnode => ?_, ih hrest hleft⟩
    rcases (mem_run.1 hnode).mem_or_mem with hmem | hmem
    · rw [nodes_rest, List.mem_append] at hmem
      exact hmem.elim hnodup.1 fun h => hmet.1 (mem_claim_fst.1 h).2
    · exact hmet.1 (mem_claim_snd.1 hmem).2

/-! ## Searching from one node -/

/-- A search whose universe has all successors meets what its node reaches. -/
theorem mem_fromNode (hnext : ∀ a, ∀ b ∈ next a, b ∈ nodes) :
    b ∈ (fromNode next nodes a).map (·.node) ↔ ReflTransGen (fun x y => y ∈ next x) a b := by
  rw [fromNode, mem_run]
  constructor
  · rintro ⟨t, ht, hpath⟩
    obtain rfl := List.mem_singleton.1 ht
    exact ReflTransGen.mono (fun _ _ h => h.1) _ _ hpath
  · -- a path that comes back to its beginning is cut there
    intro hpath
    refine ⟨.start a, List.mem_singleton_self _, ?_⟩
    induction hpath with
    | refl => exact .refl
    | @tail b c _ hstep ih =>
      by_cases hc : c = a
      · rw [hc]
        exact .refl
      · exact ih.tail ⟨hstep, mem_without.2 ⟨hnext b c hstep, hc⟩⟩

theorem nodup_fromNode (next : α → List α) (nodes : List α) (a : α) :
    ((fromNode next nodes a).map (·.node)).Nodup := by
  refine nodup_run (List.pairwise_singleton _ _) fun b hb => ?_
  obtain rfl := List.mem_singleton.1 hb
  exact fun h => (mem_without.1 h).2 rfl

/-- A search from the successors of a node meets what it reaches in one or more steps. -/
theorem mem_fromSuccessors (hnext : ∀ a, ∀ b ∈ next a, b ∈ nodes) :
    b ∈ (fromSuccessors next nodes a).map (·.node) ↔ TransGen (fun x y => y ∈ next x) a b := by
  rw [fromSuccessors, mem_run]
  constructor
  · rintro ⟨t, ht, hpath⟩
    obtain ⟨c, hc, rfl⟩ := List.mem_map.1 ht
    have hrest : ReflTransGen (fun x y => y ∈ next x) c b :=
      ReflTransGen.mono (fun _ _ h => h.1) _ _ hpath
    exact TransGen.head'_iff.2 ⟨c, (mem_claim_fst.1 hc).1, hrest⟩
  · -- a step to a successor begins a path of its own, and any other goes to a node that is left
    intro hpath
    have htaken : ∀ {c}, c ∈ next a →
        Meets next ((claim (next a) nodes).1.map (Trail.start a).extend) (claim (next a) nodes).2 c :=
      fun {c} hc => ⟨(Trail.start a).extend c,
        List.mem_map_of_mem (mem_claim_fst.2 ⟨hc, hnext a c hc⟩), .refl⟩
    induction hpath with
    | single hstep => exact htaken hstep
    | @tail b c _ hstep ih =>
      by_cases hc : c ∈ next a
      · exact htaken hc
      · obtain ⟨t, ht, hpath⟩ := ih
        exact ⟨t, ht, hpath.tail ⟨hstep, mem_claim_snd.2 ⟨hc, hnext b c hstep⟩⟩⟩

/-! ## The order of the universe -/

section Order

variable {nodes' unmet' : List α}

theorem claim_fst_congr (h : ∀ b, b ∈ unmet ↔ b ∈ unmet') :
    (claim wanted unmet).1 = (claim wanted unmet').1 := by
  induction wanted generalizing unmet unmet' with
  | nil => rfl
  | cons a wanted ih =>
    by_cases ha : a ∈ unmet
    · have hleft : ∀ b, b ∈ without a unmet ↔ b ∈ without a unmet' := fun b => by
        rw [mem_without, mem_without, h b]
      rw [claim_cons_of_mem ha, claim_cons_of_mem ((h a).1 ha), ih hleft]
    · rw [claim_cons_of_not_mem ha, claim_cons_of_not_mem (mt (h a).2 ha), ih h]

theorem run_congr (unmet' : List α) (h : ∀ b, b ∈ unmet ↔ b ∈ unmet') :
    run next pending unmet = run next pending unmet' := by
  induction pending, unmet using run.induct next generalizing unmet' with
  | case1 unmet => rw [run, run]
  | case2 unmet t pending claimed ih =>
    have hleft : ∀ b, b ∈ claimed.2 ↔ b ∈ (claim (next t.node) unmet').2 := fun b => by
      rw [mem_claim_snd, mem_claim_snd, h b]
    rw [run_cons, run_cons, rest, rest, ← claim_fst_congr h, ← ih _ hleft]

theorem fromNode_congr (h : ∀ b, b ∈ nodes ↔ b ∈ nodes') :
    fromNode next nodes a = fromNode next nodes' a :=
  run_congr _ fun b => by rw [mem_without, mem_without, h b]

end Order

end Search

end IncludeAudit
