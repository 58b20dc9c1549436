import IncludeAudit.Proofs.Graph.Search
import IncludeAudit.Provider.View
import Mathlib.Data.Set.Finite.List

/-!
# Which files may be included in place of a file

A file leads to the targets of its mappings in all layers and to the files that re-export it.
`publicCandidates_spec` says that its candidates are exactly the files to which it leads in any
number of steps and that may be included, and that a file without such candidates has the end of its
chain as its only one.

* `mem_closure`, `finite_leads`: the files to which a file leads;
* `leads_resolveFor`: the end of the chain is one of them;
* `resolveFor_of_isUsable`: the chain of a file that may be included ends at the file.
-/

namespace IncludeAudit

namespace ProviderView

open Relation (ReflTransGen)

variable {v : ProviderView} {f g c includer : FileName} {layer : Option Layer}
  {unmet : List FileName}

/-- Some layer has the second file as a target for the first. -/
def Maps (v : ProviderView) (f g : FileName) : Prop :=
  ∃ entry ∈ v.layers f, ∃ t ∈ entry.2, t.file = g

/-- One file leads to another: some layer maps it there, or the other re-exports it. -/
def LeadsTo (v : ProviderView) (f g : FileName) : Prop :=
  v.Maps f g ∨ g ∈ v.overlay.exportersOf f

/-- One file leads to another in any number of steps. -/
def Leads (v : ProviderView) : FileName → FileName → Prop :=
  ReflTransGen v.LeadsTo

/-! ## The closure of a file -/

theorem mem_allTargets : g ∈ v.allTargets f ↔ v.Maps f g := by
  simp only [allTargets, List.mem_flatMap, List.mem_map, Maps]

theorem mem_successors : g ∈ v.successors f ↔ v.LeadsTo f g := by
  rw [successors, List.mem_append, mem_allTargets, LeadsTo]

/-- The lists of the values of a map have what is found in the list of a key. -/
theorem mem_flatten_values {m : OrderedMap FileName (List FileName)}
    (h : g ∈ (m.find? f).getD []) : g ∈ m.values.flatten := by
  cases hfind : m.find? f with
  | none => simp [hfind] at h
  | some files =>
    rw [hfind] at h
    exact List.mem_flatten_of_mem (OrderedMap.mem_values_of_find? hfind) h

theorem mem_targets_of_edge {m : ProviderMap} {edges : List ProviderEdge}
    (hedges : ∀ e ∈ edges, e ∈ m.edges)
    (h : g ∈ (edges.map ProviderMap.targetOf).map (·.file)) : g ∈ m.targets := by
  obtain ⟨t, ht, rfl⟩ := List.mem_map.1 h
  obtain ⟨e, he, rfl⟩ := List.mem_map.1 ht
  exact List.mem_append_left _ (List.mem_map_of_mem (hedges e he))

theorem mem_targets_of_builtin {m : ProviderMap}
    (h : g ∈ (m.builtinTargets f).map (·.file)) : g ∈ m.targets := by
  obtain ⟨t, ht, rfl⟩ := List.mem_map.1 h
  obtain ⟨e, he, rfl⟩ := List.mem_map.1 ht
  exact List.mem_append_right _ (List.mem_map_of_mem (List.mem_filter.1 he).1)

theorem mem_providers_of_pragma {o : Overlay} (h : (o.privatePragma? f).join = some g) :
    g ∈ o.providers := by
  have hfind : o.privates.find? f = some (some g) := Option.join_eq_some_iff.1 h
  exact List.mem_append_left _ (List.mem_append_left _
    (List.mem_filterMap.2 ⟨_, OrderedMap.mem_values_of_find? hfind, rfl⟩))

/-- The cases are the layers. -/
theorem mem_providers_of_allTargets (h : g ∈ v.allTargets f) : g ∈ v.providers := by
  rw [providers, List.mem_append]
  simp only [allTargets, layers, List.flatMap_cons, List.flatMap_nil, List.append_nil,
    List.mem_append] at h
  rcases h with h | h | h | h | h
  · exact .inl (mem_targets_of_edge (fun e he => (List.mem_filter.1 he).1) h)
  · exact .inl (mem_targets_of_edge (fun e he => (List.mem_filter.1 he).1) h)
  · have hpragma : (v.overlay.privatePragma? f).join = some g := by simpa using h
    exact .inr (mem_providers_of_pragma hpragma)
  · exact .inl (mem_targets_of_builtin h)
  · have hconvention : g ∈ v.overlay.conventionTargets f := by simpa using h
    exact .inr (List.mem_append_left _ (List.mem_append_right _ (mem_flatten_values hconvention)))

theorem mem_providers (h : g ∈ v.successors f) : g ∈ v.providers := by
  rcases mem_successors.1 h with h | h
  · exact mem_providers_of_allTargets (mem_allTargets.2 h)
  · exact List.mem_append_right _ (List.mem_append_right _ (mem_flatten_values h))

theorem mem_closure : g ∈ v.closure f ↔ v.Leads f g := by
  rw [closure, Search.mem_fromNode fun a b hb => mem_providers hb]
  simp only [mem_successors, Leads]

theorem nodup_closure (v : ProviderView) (f : FileName) : (v.closure f).Nodup :=
  Search.nodup_fromNode _ _ _

/-- A file leads to finitely many files. -/
theorem finite_leads (v : ProviderView) (f : FileName) : {g | v.Leads f g}.Finite := by
  simp only [← mem_closure]
  exact List.finite_toSet _

/-! ## The end of the chain -/

theorem exists_of_preferred? {targets : List Target} (h : v.preferred? targets = some g) :
    ∃ t ∈ targets, t.file = g := by
  obtain ⟨t, ht, htg⟩ := Option.map_eq_some_iff.1 h
  rcases Option.or_eq_some_iff.1 ht with ht | ⟨-, ht⟩
  · exact ⟨t, List.mem_of_find?_eq_some ht, htg⟩
  · exact ⟨t, List.mem_of_head? ht, htg⟩

/-- A step of the chain goes to a target of some layer. -/
theorem leadsTo_of_preferred? {found : Layer} {targets : List Target}
    (hlayer : v.firstLayer f = some (found, targets)) (h : v.preferred? targets = some g) :
    v.LeadsTo f g :=
  .inl ⟨_, List.mem_of_find?_eq_some hlayer, exists_of_preferred? h⟩

/-- The induction is on the steps of the chain; it ends where a step does not go on. -/
theorem leads_resolveFrom (v : ProviderView) (layer : Option Layer) (f : FileName)
    (unmet : List FileName) : v.Leads f (v.resolveFrom layer f unmet).file := by
  fun_induction resolveFrom v layer f unmet with
  | case1 => exact .refl
  | case2 => exact .refl
  | case3 layer f unmet _ found targets hlayer next hnext _ ih =>
    exact .head (leadsTo_of_preferred? hlayer hnext) ih
  | case4 => exact .refl
  | case5 => exact .refl

theorem leads_resolveFor (v : ProviderView) (f includer : FileName) :
    v.Leads f (v.resolveFor f includer).file := by
  rw [resolveFor]
  split
  · exact .refl
  · exact v.leads_resolveFrom _ _ _

/-- A file that may be included is not replaced. -/
theorem resolveFor_of_isUsable (h : v.isUsable includer f = true) :
    (v.resolveFor f includer).file = f := by
  rw [isUsable, Bool.or_eq_true] at h
  rw [resolveFor]
  split
  · rfl
  · rename_i hfriend
    have hpublic : ¬ v.isPrivate f = true := by simpa using h.resolve_right hfriend
    rw [resolve, resolveFrom, if_neg hpublic]

/-! ## Candidates -/

/-- The candidates beside the end of the chain. -/
def otherCandidates (v : ProviderView) (f includer : FileName) : List FileName :=
  (v.closure f).filter fun c =>
    c ≠ f && v.isUsable includer c && c ≠ (v.resolveFor f includer).file

theorem publicCandidates_eq (v : ProviderView) (f includer : FileName) :
    v.publicCandidates f includer =
      if (v.otherCandidates f includer).isEmpty ||
          v.isUsable includer (v.resolveFor f includer).file then
        (v.resolveFor f includer).file :: v.otherCandidates f includer
      else v.otherCandidates f includer :=
  rfl

/-- The file itself need not be left out: if it is usable, it is the end of the chain. -/
theorem mem_otherCandidates : c ∈ v.otherCandidates f includer ↔
    (v.Leads f c ∧ v.isUsable includer c = true) ∧ c ≠ (v.resolveFor f includer).file := by
  rw [otherCandidates, List.mem_filter, mem_closure]
  simp only [Bool.and_eq_true, decide_eq_true_eq]
  constructor
  · rintro ⟨hleads, ⟨-, husable⟩, hne⟩
    exact ⟨⟨hleads, husable⟩, hne⟩
  · rintro ⟨⟨hleads, husable⟩, hne⟩
    refine ⟨hleads, ⟨?_, husable⟩, hne⟩
    rintro rfl
    exact hne (resolveFor_of_isUsable husable).symm

theorem nodup_otherCandidates (v : ProviderView) (f includer : FileName) :
    (v.otherCandidates f includer).Nodup :=
  (v.nodup_closure f).filter _

theorem publicCandidates_ne_nil (v : ProviderView) (f includer : FileName) :
    v.publicCandidates f includer ≠ [] := by
  rw [publicCandidates_eq]
  split
  · exact List.cons_ne_nil _ _
  · rename_i h
    rw [Bool.or_eq_true, not_or] at h
    exact fun hnil => h.1 (List.isEmpty_iff.2 hnil)

theorem nodup_publicCandidates (v : ProviderView) (f includer : FileName) :
    (v.publicCandidates f includer).Nodup := by
  rw [publicCandidates_eq]
  split
  · exact List.nodup_cons.2
      ⟨fun h => (mem_otherCandidates.1 h).2 rfl, v.nodup_otherCandidates f includer⟩
  · exact v.nodup_otherCandidates f includer

/-- A usable end of the chain comes first. -/
theorem publicCandidates_of_isUsable
    (h : v.isUsable includer (v.resolveFor f includer).file = true) :
    v.publicCandidates f includer =
      (v.resolveFor f includer).file :: v.otherCandidates f includer := by
  rw [publicCandidates_eq, h, Bool.or_true, if_pos rfl]

/-- All usable files to which a file leads are candidates, and if there are any, no others are. The
cases are whether the end of the chain is one of them. -/
theorem mem_publicCandidates (h : ∃ c, v.Leads f c ∧ v.isUsable includer c = true) :
    c ∈ v.publicCandidates f includer ↔ v.Leads f c ∧ v.isUsable includer c = true := by
  by_cases hend : v.isUsable includer (v.resolveFor f includer).file = true
  · rw [publicCandidates_of_isUsable hend, List.mem_cons, mem_otherCandidates]
    constructor
    · rintro (rfl | ⟨hc, -⟩)
      · exact ⟨v.leads_resolveFor f includer, hend⟩
      · exact hc
    · intro hc
      by_cases hfirst : c = (v.resolveFor f includer).file
      · exact .inl hfirst
      · exact .inr ⟨hc, hfirst⟩
  · have hothers : ∀ {c}, v.Leads f c ∧ v.isUsable includer c = true →
        c ∈ v.otherCandidates f includer := fun hc => by
      refine mem_otherCandidates.2 ⟨hc, ?_⟩
      rintro rfl
      exact hend hc.2
    obtain ⟨x, hx⟩ := h
    have hsome : (v.otherCandidates f includer).isEmpty = false :=
      List.isEmpty_eq_false_iff_exists_mem.2 ⟨x, hothers hx⟩
    rw [publicCandidates_eq, hsome, Bool.false_or, if_neg hend]
    exact ⟨fun hc => (mem_otherCandidates.1 hc).1, hothers⟩

/-- Without a usable file the end of the chain is the only candidate. -/
theorem publicCandidates_eq_singleton (h : ∀ c, v.Leads f c → v.isUsable includer c = false) :
    v.publicCandidates f includer = [(v.resolveFor f includer).file] := by
  have hnone : v.otherCandidates f includer = [] := by
    refine List.eq_nil_iff_forall_not_mem.2 fun c hc => ?_
    obtain ⟨⟨hleads, husable⟩, -⟩ := mem_otherCandidates.1 hc
    rw [h c hleads] at husable
    cases husable
  rw [publicCandidates_eq, hnone]
  rfl

/-- The candidates for a file are the usable ones of the finitely many files to which it leads, the
end of its chain first if it is usable; if there are none, the end of its chain is the only one. -/
theorem publicCandidates_spec (v : ProviderView) (f includer : FileName) :
    {c | v.Leads f c}.Finite ∧
      v.publicCandidates f includer ≠ [] ∧ (v.publicCandidates f includer).Nodup ∧
      ((∃ c, v.Leads f c ∧ v.isUsable includer c = true) →
        (∀ c, c ∈ v.publicCandidates f includer ↔ v.Leads f c ∧ v.isUsable includer c = true) ∧
          (v.isUsable includer (v.resolveFor f includer).file = true →
            (v.publicCandidates f includer).head? = some (v.resolveFor f includer).file)) ∧
      ((∀ c, v.Leads f c → v.isUsable includer c = false) →
        v.publicCandidates f includer = [(v.resolveFor f includer).file]) := by
  refine ⟨v.finite_leads f, v.publicCandidates_ne_nil f includer,
    v.nodup_publicCandidates f includer, fun h => ⟨fun c => mem_publicCandidates h, fun hend => ?_⟩,
    publicCandidates_eq_singleton⟩
  rw [publicCandidates_of_isUsable hend, List.head?_cons]

end ProviderView

end IncludeAudit
