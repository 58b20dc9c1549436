import IncludeAudit.Proofs.Graph.Cycles

/-!
# What a file reaches

The include graph answers questions about paths by search. The answers are those of the relation
`Includes`: a file reaches what some path of includes leads to, itself by the empty one, and its
closure is what it reaches in one or more steps.

* `reaches_iff`, `mem_closure`: the two answers;
* `reaches_iff_mem_closure`: how they differ.
-/

namespace IncludeAudit

namespace IncludeGraph

open Relation (ReflTransGen TransGen)

variable {g : IncludeGraph} {a b : FileName}

theorem reaches_iff : g.reaches a b = true ↔ ReflTransGen g.Includes a b := by
  rw [← mem_trails, reaches, distance, distances, List.lookup_isSome_iff]
  simp only [List.mem_map, exists_exists_and_eq_and]
  exact exists_congr fun t => and_congr_right fun _ => beq_iff_eq.trans eq_comm

theorem mem_closure : b ∈ g.closure a ↔ TransGen g.Includes a b :=
  Search.mem_fromSuccessors mem_included_of_mem_successors

/-- A file reaches itself and its closure. -/
theorem reaches_iff_mem_closure : g.reaches a b = true ↔ b = a ∨ b ∈ g.closure a := by
  rw [reaches_iff, mem_closure, Relation.reflTransGen_iff_eq_or_transGen]

end IncludeGraph

end IncludeAudit
