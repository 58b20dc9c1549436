import IncludeAudit.Proofs.Mapping.DepthFirst

/-!
# What the load of a mapping file does

`loadWithin_spec` puts together what holds of every load: it ends, with the stack as before; the
loaded files are those from before and new ones behind them; after a success these and the entries
are what a walk through the references meets, and the builder has what the entries give
(`Completed`); after a failure the files on the way to it are not loaded (`Failed`).
-/

namespace IncludeAudit

namespace MappingSource

variable {source : MappingSource} {origin p q : Path} {l l' : Loader} {r : Ending}

/-- A reference to a file that is being read is an error, whatever entries follow. -/
theorem Runs.back {name : String} {entries : List MappingEntry}
    (h : Runs source (.add origin (.ref name :: entries)) l r l')
    (hq : source.Names origin name q) (hs : q.components ∈ Path.keys l.stack) :
    r.result = .error (.refCycle (l.stack.head?.getD q) q) ∧ l' = l := by
  obtain ⟨rfl, rfl⟩ := (Runs.stuck (findRef?_eq_some.2 hq) (.cycle hs)).unique h
  exact ⟨rfl, rfl⟩

/-- A load succeeded: the new files are listed after those to which they refer, the builder received
what their entries give, each once and in the order of a walk, and their references make no cycle.
-/
structure Completed (source : MappingSource) (p : Path) (s s' : Loaded) (new : List Path) :
    Prop where
  loaded : p.components ∈ Path.keys (s.paths ++ new)
  entries : ∃ log gains, DepthFirst source (.load p) s.paths new log ∧
    log.Perm (new.flatMap source.own) ∧
    List.Forall₂ (fun x gain => source.Gives x.2 gain) log gains ∧
    s.builder.Receives s'.builder gains
  postOrder : source.InPostOrder s.paths new
  acyclic : ∀ a, ¬ Relation.TransGen (source.Follows new) a a

/-- A load failed: the trail follows references from the file to the error, and none of its files is
among the new ones. -/
structure Failed (source : MappingSource) (p : Path) (below : List Path) (e : LoadError)
    (trail new : List Path) : Prop where
  fails : source.Fails p below e trail
  unloaded : (Path.keys trail).Disjoint (Path.keys new)

theorem Runs.completed {new : List Path} (h : Runs source (.load p) l .done l')
    (hnew : l.Grows l' new) : source.Completed p l.state l'.state new := by
  obtain ⟨new', log, hwalk⟩ := h.walks
  obtain rfl : new' = new := List.append_cancel_left (hwalk.paths.symm.trans hnew.paths)
  obtain ⟨horder, hloaded⟩ := hwalk.order.postOrder
  obtain ⟨gains, hgives, hgains⟩ := receives_of_addAll hwalk.builder hwalk.order.ne_ref
  exact ⟨hloaded, ⟨log, gains, hwalk.order, hwalk.order.perm, hgives, hgains⟩, horder,
    horder.acyclic hnew.distinct hnew.unloaded⟩

theorem Runs.failed {new trail : List Path} {e : LoadError}
    (h : Runs source (.load p) l (.failed e trail) l') (hnew : l.Grows l' new) :
    source.Failed p l.stack e trail new where
  fails := h.fails .load
  unloaded k hk hn := by
    refine hnew.unloaded hn (h.unloaded_of_failed hk ?_)
    rw [hnew.paths, Path.keys_append]
    exact List.mem_append_right _ hn

/-- What a load does, whatever is being read and was loaded before. It ends in one way only, with
the stack as it was, and only adds to the loaded files. What it did is described by how it ends. A
reference to a file that is being read is an error at once. -/
theorem loadWithin_spec (source : MappingSource) (stack : RefStack) (p : Path) (s : Loaded) :
    ∃ ending s' new, source.loadWithin stack p s = (ending.result, s') ∧
      (∀ r l, Runs source (.load p) ⟨stack.paths, s⟩ r l ↔ r = ending ∧ l = ⟨stack.paths, s'⟩) ∧
      Loader.Grows ⟨stack.paths, s⟩ ⟨stack.paths, s'⟩ new ∧
      ((Path.keys s'.paths).Nodup ↔ (Path.keys s.paths).Nodup) ∧
      (match ending with
        | .done => source.Completed p s s' new
        | .failed e trail => source.Failed p stack.paths e trail new) ∧
      ∀ {origin name entries q l r l'}, source.Names origin name q →
        q.components ∈ Path.keys l.stack →
        Runs source (.add origin (.ref name :: entries)) l r l' →
        r.result = .error (.refCycle (l.stack.head?.getD q) q) ∧ l' = l := by
  obtain ⟨ending, hresult, hiff⟩ := runs_iff source stack p s
  have hrun := (hiff _ _).2 ⟨rfl, rfl⟩
  obtain ⟨new, hgrows⟩ := hrun.grows
  refine ⟨ending, _, new, Prod.ext hresult.symm rfl, hiff, hgrows, hgrows.nodup_iff, ?_,
    fun hq hs h => h.back hq hs⟩
  cases ending with
  | done => exact hrun.completed hgrows
  | failed e trail => exact hrun.failed hgrows

end MappingSource

end IncludeAudit
