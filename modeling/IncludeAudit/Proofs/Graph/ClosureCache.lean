import IncludeAudit.Graph.ClosureCache
import IncludeAudit.Proofs.Graph.Reachability
import IncludeAudit.Proofs.Graph.Waiting

/-!
# Closures that are remembered

A cache of closures answers like its graph, whatever it was asked before: what it remembers of a file
is the closure of that file (`Caches`). It decides whether one file reaches another by the closure of
the first, where the graph looks for a distance, and the two agree.

* `nodup_closure`, `isClosure_closure`: the closure of a file;
* `Caches.closure`, `Caches.reaches`: what one query answers and what it leaves behind;
* `Caches.afterQueries`: the same of all queries;
* `afterQueries_agrees`: the answers after any queries.
-/

namespace IncludeAudit

namespace IncludeGraph

open Relation (TransGen)

variable {g : IncludeGraph} {f : FileName} {files : List FileName}

theorem nodup_closure (g : IncludeGraph) (f : FileName) : (g.closure f).Nodup := by
  have hnodes : ((Search.claim (g.successors f) g.included).1.map (Trail.start f).extend).map
      (·.node) = (Search.claim (g.successors f) g.included).1 := by
    simp [Trail.extend, Function.comp_def]
  refine Search.nodup_run ?_ ?_
  · rw [hnodes]
    exact Search.nodup_claim
  · rw [hnodes]
    exact fun a ha hleft => (Search.mem_claim_snd.1 hleft).1 (Search.mem_claim_fst.1 ha).1

/-- The files are those that a file reaches by one or more includes, each once, in the order in which
a search with a waiting list meets them. The file itself is one of them if it lies on a cycle. -/
structure IsClosure (g : IncludeGraph) (f : FileName) (files : List FileName) : Prop where
  mem_iff : ∀ h, h ∈ files ↔ TransGen g.Includes f h
  self_iff : f ∈ files ↔ g.OnCycle f
  nodup : files.Nodup
  gathered : ∀ answer, g.GathersClosure f answer ↔ answer = files

theorem isClosure_closure (g : IncludeGraph) (f : FileName) : g.IsClosure f (g.closure f) where
  mem_iff _ := mem_closure
  self_iff := mem_closure
  nodup := nodup_closure g f
  gathered _ := gathersClosure_iff

end IncludeGraph

namespace ClosureCache

variable {g : IncludeGraph} {c : ClosureCache} {f : FileName}

/-- A cache of which nothing was asked. -/
def ofGraph (g : IncludeGraph) : ClosureCache :=
  { graph := g }

/-- What a cache is asked. -/
inductive Query where
  | closure (f : FileName)
  | reaches (source target : FileName)

/-- The cache after a query. -/
def ask (c : ClosureCache) : Query → ClosureCache
  | .closure f => (c.closure f).2
  | .reaches source target => (c.reaches source target).2

/-- The cache after queries. -/
def afterQueries (c : ClosureCache) (qs : List Query) : ClosureCache :=
  qs.foldl ask c

/-- What the cache remembers are closures of the graph. -/
structure Caches (g : IncludeGraph) (c : ClosureCache) : Prop where
  graph : c.graph = g
  known : ∀ {f files}, c.closures.find? f = some files → files = g.closure f

theorem caches_ofGraph (g : IncludeGraph) : Caches g (ofGraph g) :=
  ⟨rfl, nofun⟩

namespace Caches

/-- A closure is looked up, or it is computed and remembered. -/
theorem closure (h : Caches g c) (f : FileName) :
    (c.closure f).1 = g.closure f ∧ Caches g (c.closure f).2 := by
  unfold ClosureCache.closure
  cases hfound : c.closures.find? f with
  | some files => exact ⟨h.known hfound, h⟩
  | none =>
    refine ⟨by rw [h.graph], h.graph, fun {k files} hk => ?_⟩
    simp only [OrderedMap.set, OrderedMap.find?_upsert, h.graph] at hk
    split at hk
    · rename_i heq
      rw [heq]
      exact (Option.some.inj hk).symm
    · exact h.known hk

/-- The empty path needs no closure, and any other one leads to a file of the closure. -/
theorem reaches (h : Caches g c) (source target : FileName) :
    (c.reaches source target).1 = g.reaches source target ∧
      Caches g (c.reaches source target).2 := by
  unfold ClosureCache.reaches
  by_cases heq : source = target
  · rw [if_pos heq]
    exact ⟨(IncludeGraph.reaches_iff_mem_closure.2 (.inl heq.symm)).symm, h⟩
  · rw [if_neg heq]
    obtain ⟨hfiles, hcaches⟩ := h.closure source
    refine ⟨Bool.eq_iff_iff.2 ?_, hcaches⟩
    rw [IncludeGraph.reaches_iff_mem_closure, or_iff_right (Ne.symm heq), List.contains_iff_mem,
      hfiles]

theorem ask (h : Caches g c) (q : Query) : Caches g (c.ask q) := by
  cases q with
  | closure f => exact (h.closure f).2
  | reaches source target => exact (h.reaches source target).2

/-- The induction is on the queries. -/
theorem afterQueries (h : Caches g c) (qs : List Query) : Caches g (c.afterQueries qs) := by
  induction qs generalizing c with
  | nil => exact h
  | cons q qs ih => exact ih (h.ask q)

end Caches

/-- Whatever a cache was asked, its closures are those of the graph, and it reaches from one file to
another if the graph does. -/
theorem afterQueries_agrees (g : IncludeGraph) (qs : List Query) :
    (∀ f, g.IsClosure f (((ofGraph g).afterQueries qs).closure f).1) ∧
      ∀ source target, (((ofGraph g).afterQueries qs).reaches source target).1 =
        g.reaches source target := by
  have h : Caches g ((ofGraph g).afterQueries qs) := (caches_ofGraph g).afterQueries qs
  refine ⟨fun f => ?_, fun source target => (h.reaches source target).1⟩
  rw [(h.closure f).1]
  exact g.isClosure_closure f

end ClosureCache

end IncludeAudit
