import IncludeAudit.Proofs.Graph.Cycles

/-!
# Cycles by back links

The search for a cycle, rule by rule, with a queue of nodes and no paths. It keeps for each node the
node from which it was met first, ends as soon as a successor is the node with which it began, and
climbs the links back from there. No rule says that the queue runs dry, that a climb comes to an end
or that it misses no link; all of it is proved.

Whenever the search looks at a node, the links lead back from there along the path that the search
with paths has for it (`Leads`), so the two searches find the same cycle.

* `Climbs.unique`, `Seeks.unique`: there is one way only to climb and to search;
* `exists_seeks_of_not_mem`: what becomes of the links at one node;
* `seeks_run`: the search ends, with the cycle of the search with paths;
* `tracesCycle_iff`: the same for the include graph.
-/

namespace IncludeAudit

/-- For each node that was met the node from which it was met, the last one met first. -/
abbrev BackLinks (α : Type) := List (α × α)

namespace BackLinks

variable {α : Type} [DecidableEq α]

/-! ## Rules -/

/-- The nodes from the given one back to the start, which is not one of them. -/
inductive Climbs (links : BackLinks α) (start : α) : α → List α → Prop
  | done : Climbs links start start []
  | step {a b : α} {above : List α} (further : a ≠ start) (link : links.lookup a = some b)
    (rest : Climbs links start b above) : Climbs links start a (a :: above)

/-- The search looks at the wanted nodes, which are successors of the current one, and then at the
pending ones. The answer is a path from the start back to itself, if the search comes back to it. -/
inductive Seeks (next : α → List α) (start : α) :
    (current : α) → (wanted pending : List α) → BackLinks α → (answer : Option (List α)) → Prop
  | closes {c : α} {wanted pending above : List α} {links : BackLinks α}
    (climb : links.Climbs start c above) :
    Seeks next start c (start :: wanted) pending links (some (start :: (above.reverse ++ [start])))
  | skips {a b c : α} {wanted pending : List α} {links : BackLinks α} {answer : Option (List α)}
    (further : a ≠ start) (met : links.lookup a = some b)
    (rest : Seeks next start c wanted pending links answer) :
    Seeks next start c (a :: wanted) pending links answer
  | takes {a c : α} {wanted pending : List α} {links : BackLinks α} {answer : Option (List α)}
    (further : a ≠ start) (unmet : links.lookup a = none)
    (rest : Seeks next start c wanted (pending ++ [a]) ((a, c) :: links) answer) :
    Seeks next start c (a :: wanted) pending links answer
  | turns {b c : α} {pending : List α} {links : BackLinks α} {answer : Option (List α)}
    (rest : Seeks next start b (next b) pending links answer) :
    Seeks next start c [] (b :: pending) links answer
  | ends {c : α} {links : BackLinks α} : Seeks next start c [] [] links none

variable {links : BackLinks α} {start a b c : α} {above : List α} {t : Trail α}

/-- The induction is on one of the climbs. -/
theorem Climbs.unique {above' : List α} (h : links.Climbs start a above)
    (h' : links.Climbs start a above') : above = above' := by
  induction h generalizing above' with
  | done =>
    cases h' with
    | done => rfl
    | step further => exact absurd rfl further
  | step further link rest ih =>
    cases h' with
    | done => exact absurd rfl further
    | step _ link' rest' =>
      cases Option.some.inj (link.symm.trans link')
      rw [ih rest']

section Seeks

variable {next : α → List α} {current : α} {wanted pending unmet nodes : List α}
  {answer : Option (List α)}

/-- The induction is on one of the searches. The rules exclude each other: a successor is the start,
or it has a link, or it has none. -/
theorem Seeks.unique {answer' : Option (List α)}
    (h : Seeks next start current wanted pending links answer)
    (h' : Seeks next start current wanted pending links answer') : answer = answer' := by
  induction h generalizing answer' with
  | closes climb =>
    cases h' with
    | closes climb' => rw [climb.unique climb']
    | skips further => exact absurd rfl further
    | takes further => exact absurd rfl further
  | skips further met rest ih =>
    cases h' with
    | closes => exact absurd rfl further
    | skips _ _ rest' => exact ih rest'
    | takes _ unmet =>
      rw [met] at unmet
      cases unmet
  | takes further unmet rest ih =>
    cases h' with
    | closes => exact absurd rfl further
    | skips _ met =>
      rw [unmet] at met
      cases met
    | takes _ _ rest' => exact ih rest'
  | turns rest ih =>
    cases h' with
    | turns rest' => exact ih rest'
  | ends =>
    cases h'
    rfl

/-! ## Where the links lead -/

/-- A node that had no link is not on any climb. The induction is on the climb. -/
theorem Climbs.cons (h : links.Climbs start c above) (hnew : links.lookup a = none) (b : α) :
    Climbs ((a, b) :: links) start c above := by
  induction h with
  | done => exact .done
  | @step c d above further link rest ih =>
    have hca : (c == a) = false := beq_false_of_ne fun hca => by
      rw [hca, hnew] at link
      cases link
    refine .step further ?_ ih
    rw [List.lookup_cons, hca]
    exact link

/-- The links lead from the end of the path back along it to the start. -/
def Leads (links : BackLinks α) (start : α) (t : Trail α) : Prop :=
  ∃ above, links.Climbs start t.node above ∧ t.path = start :: above.reverse

theorem leads_start (links : BackLinks α) (start : α) : links.Leads start (.start start) :=
  ⟨[], .done, rfl⟩

theorem Leads.cons (h : links.Leads start t) (hnew : links.lookup a = none) (b : α) :
    Leads ((a, b) :: links) start t := by
  obtain ⟨above, hclimbs, hpath⟩ := h
  exact ⟨above, hclimbs.cons hnew b, hpath⟩

theorem Leads.extend (h : links.Leads start t) (hnew : links.lookup a = none) (ha : a ≠ start) :
    Leads ((a, t.node) :: links) start (t.extend a) := by
  obtain ⟨above, hclimbs, hpath⟩ := h
  refine ⟨a :: above, .step ha List.lookup_cons_self (hclimbs.cons hnew t.node), ?_⟩
  rw [Trail.path_extend, hpath, List.reverse_cons, List.cons_append]

/-- The unmet nodes are those without a link, apart from the start. -/
def Knows (links : BackLinks α) (start : α) (nodes unmet : List α) : Prop :=
  ∀ a ∈ nodes, a ∈ unmet ↔ a ≠ start ∧ links.lookup a = none

theorem knows_nil (start : α) (nodes : List α) :
    Knows [] start nodes (Search.without start nodes) := by
  intro a ha
  rw [Search.mem_without, List.lookup_nil]
  exact ⟨fun h => ⟨h.2, rfl⟩, fun h => ⟨ha, h.1⟩⟩

theorem Knows.cons (h : links.Knows start nodes unmet) (a b : α) :
    Knows ((a, b) :: links) start nodes (Search.without a unmet) := by
  intro c hc
  rw [Search.mem_without, h c hc, List.lookup_cons, and_assoc]
  by_cases hca : c = a
  · simp [hca]
  · simp only [beq_false_of_ne hca, ne_eq, hca, not_false_eq_true, and_true]

/-! ## The two searches -/

/-- The search ends at a node that has the start among its successors. The induction is on the
successors. -/
theorem seeks_of_mem (hleads : links.Leads start t) (hmem : start ∈ wanted) :
    Seeks next start t.node wanted pending links (some (t.path ++ [start])) := by
  induction wanted generalizing pending links with
  | nil => exact absurd hmem List.not_mem_nil
  | cons a wanted ih =>
    by_cases ha : a = start
    · obtain ⟨above, hclimbs, hpath⟩ := hleads
      rw [hpath, List.cons_append, ha]
      exact .closes hclimbs
    · have hrest : start ∈ wanted := (List.mem_cons.1 hmem).resolve_left (Ne.symm ha)
      cases hlink : links.lookup a with
      | some b => exact .skips ha hlink (ih hleads hrest)
      | none => exact .takes ha hlink (ih (hleads.cons hlink t.node) hrest)

/-- The search takes the unmet successors of a node that does not have the start among them, and
links them to it. The induction is on the successors. -/
theorem exists_seeks_of_not_mem (next : α → List α) (pending : List α)
    (hknows : links.Knows start nodes unmet) (hleads : links.Leads start t)
    (hwanted : ∀ a ∈ wanted, a ∈ nodes) (hmem : start ∉ wanted) :
    ∃ links' : BackLinks α,
      (∀ answer,
        Seeks next start t.node [] (pending ++ (Search.claim wanted unmet).1) links' answer →
          Seeks next start t.node wanted pending links answer) ∧
      links'.Knows start nodes (Search.claim wanted unmet).2 ∧
      (∀ t', links.Leads start t' → links'.Leads start t') ∧
      ∀ a ∈ (Search.claim wanted unmet).1, links'.Leads start (t.extend a) := by
  induction wanted generalizing pending links unmet with
  | nil =>
    refine ⟨links, fun answer h => ?_, hknows, fun _ h => h, fun _ ha => absurd ha List.not_mem_nil⟩
    rwa [Search.claim, List.append_nil] at h
  | cons a wanted ih =>
    obtain ⟨hne, hmem⟩ := not_or.1 (mt List.mem_cons.2 hmem)
    obtain ⟨ha, hwanted⟩ := List.forall_mem_cons.1 hwanted
    cases hlink : links.lookup a with
    | some b =>
      have hmet : a ∉ unmet := fun h => by
        have hnone := ((hknows a ha).1 h).2
        rw [hlink] at hnone
        cases hnone
      obtain ⟨links', hseeks, hrest⟩ := ih pending hknows hleads hwanted hmem
      rw [Search.claim_cons_of_not_mem hmet]
      exact ⟨links', fun answer h => .skips (Ne.symm hne) hlink (hseeks answer h), hrest⟩
    | none =>
      have hunmet : a ∈ unmet := (hknows a ha).2 ⟨Ne.symm hne, hlink⟩
      obtain ⟨links', hseeks, hknows', hkeeps, htaken⟩ :=
        ih (pending ++ [a]) (hknows.cons a t.node) (hleads.cons hlink t.node) hwanted hmem
      rw [Search.claim_cons_of_mem hunmet]
      refine ⟨links', fun answer h => .takes (Ne.symm hne) hlink (hseeks answer ?_), hknows',
        fun t' ht' => hkeeps t' (ht'.cons hlink t.node), ?_⟩
      · rwa [List.append_assoc, List.singleton_append]
      · exact List.forall_mem_cons.2 ⟨hkeeps _ (hleads.extend hlink (Ne.symm hne)), htaken⟩

/-- The two searches look at the same nodes. The induction is on the steps of the one that keeps
paths. -/
theorem seeks_run (pending : List (Trail α)) (hnext : ∀ a, ∀ b ∈ next a, b ∈ nodes)
    (hknows : links.Knows start nodes unmet) (hleads : ∀ t ∈ pending, links.Leads start t) :
    Seeks next start current [] (pending.map (·.node)) links
      (((Search.run next pending unmet).find? fun t => (next t.node).contains start).map
        fun t => t.path ++ [start]) := by
  induction pending, unmet using Search.run.induct next generalizing links current with
  | case1 unmet =>
    rw [Search.run]
    exact .ends
  | case2 unmet t pending claimed =>
    rename_i ih
    obtain ⟨ht, hpending⟩ := List.forall_mem_cons.1 hleads
    rw [List.map_cons, Search.run_cons]
    refine .turns ?_
    by_cases hmem : start ∈ next t.node
    · rw [List.find?_cons_of_pos (by simpa using hmem), Option.map_some]
      exact seeks_of_mem ht hmem
    · obtain ⟨links', hseeks, hknows', hkeeps, htaken⟩ :=
        exists_seeks_of_not_mem next (pending.map (·.node)) hknows ht (hnext t.node) hmem
      rw [List.find?_cons_of_neg (by simpa using hmem)]
      refine hseeks _ ?_
      rw [← Search.nodes_rest]
      refine ih hknows' fun t' ht' => ?_
      rcases List.mem_append.1 ht' with ht' | ht'
      · exact hkeeps t' (hpending t' ht')
      · obtain ⟨a, ha, rfl⟩ := List.mem_map.1 ht'
        exact htaken a ha

end Seeks

end BackLinks

namespace IncludeGraph

/-- What the search with back links answers for a file. -/
def TracesCycle (g : IncludeGraph) (f : FileName) : Option (List FileName) → Prop :=
  BackLinks.Seeks g.successors f f [] [f] []

/-- The search with back links ends, in one way only, and finds the same cycle. -/
theorem tracesCycle_iff {g : IncludeGraph} {f : FileName} {answer : Option (List FileName)} :
    g.TracesCycle f answer ↔ answer = g.findCycle f := by
  have hseeks : g.TracesCycle f (g.findCycle f) :=
    BackLinks.seeks_run [.start f] mem_included_of_mem_successors (BackLinks.knows_nil f g.included)
      (List.forall_mem_singleton.2 (BackLinks.leads_start [] f))
  exact ⟨fun h => h.unique hseeks, fun h => h ▸ hseeks⟩

end IncludeGraph

end IncludeAudit
