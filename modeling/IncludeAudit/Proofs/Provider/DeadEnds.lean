import IncludeAudit.Proofs.Provider.Candidates

/-!
# Chains that end at a private file

The chain of a file takes one target at each step, while its candidates come from all targets and
from re-exports. So a chain may end at a private file although the file leads to a public one.

* `isPrivate_of_deadEnd`: a chain that finds no public file ends at a private one;
* `noPublicCandidate_iff`: there is no public candidate exactly if the file leads to no public file;
* `private_of_unbranched`: if nothing branches off, the chain misses nothing.
-/

namespace IncludeAudit

namespace ProviderView

open Relation (ReflTransGen)

variable {v : ProviderView} {f g c includer : FileName} {layer : Option Layer}
  {unmet : List FileName}

/-! ## The end of the chain -/

theorem isPublic_resolveFrom (v : ProviderView) (layer : Option Layer) (f : FileName)
    (unmet : List FileName) :
    (v.resolveFrom layer f unmet).isPublic = !v.isPrivate (v.resolveFrom layer f unmet).file := by
  fun_induction resolveFrom v layer f unmet with
  | case1 _ _ _ hprivate => simp [hprivate]
  | case2 _ _ _ hprivate => simp [hprivate]
  | case3 _ _ _ _ _ _ _ _ _ _ ih => exact ih
  | case4 _ _ _ hprivate => simp [hprivate]
  | case5 _ _ _ hpublic => simpa using hpublic

/-- Friends of a file end no chain at it. -/
theorem resolveFor_of_deadEnd (h : (v.resolveFor f includer).isPublic = false) :
    v.resolveFor f includer = v.resolve f := by
  unfold resolveFor at h ⊢
  split at h
  · cases h
  · rename_i hfriend
    rw [if_neg hfriend]

theorem isPrivate_of_deadEnd (h : (v.resolveFor f includer).isPublic = false) :
    v.isPrivate (v.resolveFor f includer).file = true := by
  have heq := resolveFor_of_deadEnd h
  rw [heq, resolve, isPublic_resolveFrom] at h
  rw [heq, resolve]
  simpa using h

/-! ## Candidates -/

/-- A candidate is usable, or there is nothing usable and it is the end of the chain. -/
theorem mem_publicCandidates_cases (h : c ∈ v.publicCandidates f includer) :
    v.Leads f c ∧ v.isUsable includer c = true ∨
      (∀ x, v.Leads f x → v.isUsable includer x = false) ∧ c = (v.resolveFor f includer).file := by
  by_cases hsome : ∃ x, v.Leads f x ∧ v.isUsable includer x = true
  · exact .inl ((mem_publicCandidates hsome).1 h)
  · have hnone : ∀ x, v.Leads f x → v.isUsable includer x = false := fun x hx =>
      Bool.eq_false_iff.2 fun husable => hsome ⟨x, hx, husable⟩
    rw [publicCandidates_eq_singleton hnone, List.mem_singleton] at h
    exact .inr ⟨hnone, h⟩

theorem leads_of_mem_publicCandidates (h : c ∈ v.publicCandidates f includer) : v.Leads f c := by
  rcases mem_publicCandidates_cases h with ⟨hleads, -⟩ | ⟨-, hc⟩
  · exact hleads
  · rw [hc]
    exact v.leads_resolveFor f includer

/-- A candidate that is not usable is a private file at which the chain ends. -/
theorem deadEnd_of_mem_publicCandidates (h : c ∈ v.publicCandidates f includer)
    (hc : v.isUsable includer c = false) :
    (v.resolveFor f includer).isPublic = false ∧ (v.resolveFor f includer).file = c := by
  rcases mem_publicCandidates_cases h with ⟨-, husable⟩ | ⟨hnone, rfl⟩
  · rw [husable] at hc
    cases hc
  · have hfriend : v.overlay.isFriend includer f = false := by
      have hf := hnone f .refl
      simp only [isUsable, Bool.or_eq_false_iff] at hf
      exact hf.2
    have hresolve : v.resolveFor f includer = v.resolve f := by simp [resolveFor, hfriend]
    have hprivate : v.isPrivate (v.resolveFor f includer).file = true := by
      simp only [isUsable, Bool.or_eq_false_iff, Bool.not_eq_false'] at hc
      exact hc.1
    refine ⟨?_, rfl⟩
    rw [hresolve] at hprivate ⊢
    rw [resolve, isPublic_resolveFrom, ← resolve, hprivate, Bool.not_true]

/-- All public files to which a file leads are candidates. -/
theorem mem_publicCandidates_of_public (hc : v.Leads f c) (hpublic : v.isPrivate c = false) :
    c ∈ v.publicCandidates f includer := by
  have husable : v.isUsable includer c = true := by simp [isUsable, hpublic]
  exact (mem_publicCandidates ⟨c, hc, husable⟩).2 ⟨hc, husable⟩

/-- True of a file without a public candidate. -/
def NoPublicCandidate (v : ProviderView) (f includer : FileName) : Prop :=
  ∀ c ∈ v.publicCandidates f includer, v.isPrivate c = true

theorem noPublicCandidate_iff :
    v.NoPublicCandidate f includer ↔ ∀ c, v.Leads f c → v.isPrivate c = true := by
  constructor
  · intro h c hc
    by_contra hpublic
    exact hpublic (h c (mem_publicCandidates_of_public hc (by simpa using hpublic)))
  · exact fun h c hc => h c (leads_of_mem_publicCandidates hc)

/-! ## Files off the chain -/

/-- Nothing branches off on the way from a file: no file to which it leads has two targets, and none
is re-exported. -/
structure Unbranched (v : ProviderView) (f : FileName) : Prop where
  target : ∀ g, v.Leads f g → ∀ a b, v.Maps g a → v.Maps g b → a = b
  exporters : ∀ g, v.Leads f g → v.overlay.exportersOf g = []

theorem Unbranched.of_leadsTo (h : v.Unbranched f) (hg : v.LeadsTo f g) : v.Unbranched g where
  target x hx := h.target x (.head hg hx)
  exporters x hx := h.exporters x (.head hg hx)

/-- The step of the chain is the only way on. -/
theorem Unbranched.eq_of_leadsTo (h : v.Unbranched f) (hg : v.LeadsTo f g) (hc : v.LeadsTo f c) :
    c = g := by
  have hexporters := h.exporters f .refl
  simp only [LeadsTo, hexporters, List.not_mem_nil, or_false] at hg hc
  exact h.target f .refl c g hc hg

theorem not_maps (h : v.firstLayer f = none) : ¬ v.Maps f g := by
  rintro ⟨entry, hentry, t, ht, -⟩
  have hnil : entry.2 = [] := by simpa using List.find?_eq_none.1 h entry hentry
  rw [hnil] at ht
  exact List.not_mem_nil ht

theorem preferred?_ne_none {found : Layer} {targets : List Target}
    (h : v.firstLayer f = some (found, targets)) : v.preferred? targets ≠ none := by
  have hne : targets ≠ [] := by simpa using List.find?_some h
  obtain ⟨t, ts, rfl⟩ := List.exists_cons_of_ne_nil hne
  simp [preferred?]

/-- The induction is on the steps of the chain. `P` holds of the files met before: they are private
and lead to no others, so a chain that would come back to one of them has met all there is. -/
theorem private_of_resolveFrom {P : FileName → Prop} (hu : v.Unbranched f)
    (hmet : ∀ g ∈ v.providers, P g ∨ g = f ∨ g ∈ unmet)
    (hprivate : ∀ g, P g → v.isPrivate g = true)
    (hclosed : ∀ g, P g → ∀ c, v.LeadsTo g c → P c ∨ c = f)
    (hend : (v.resolveFrom layer f unmet).isPublic = false) (hc : v.Leads f c) :
    v.isPrivate c = true := by
  fun_induction resolveFrom v layer f unmet generalizing P with
  | case1 layer f unmet hf hlayer =>
    rcases hc.cases_head with rfl | ⟨g, hg, -⟩
    · exact hf
    · simp [LeadsTo, not_maps hlayer, hu.exporters f .refl] at hg
  | case2 layer f unmet _ found targets hlayer hnone =>
    exact absurd hnone (preferred?_ne_none hlayer)
  | case3 layer f unmet hf found targets hlayer next hnext hunmet ih =>
    have hstep := leadsTo_of_preferred? hlayer hnext
    rcases hc.cases_head with rfl | ⟨g, hg, hc⟩
    · exact hf
    · obtain rfl := hu.eq_of_leadsTo hstep hg
      refine ih (P := fun x => P x ∨ x = f) (hu.of_leadsTo hstep) (fun x hx => ?_) ?_ ?_ hend hc
      · rcases hmet x hx with h | h | h
        · exact .inl (.inl h)
        · exact .inl (.inr h)
        · by_cases hxg : x = g
          · exact .inr (.inl hxg)
          · exact .inr (.inr (Search.mem_without.2 ⟨h, hxg⟩))
      · rintro x (hx | rfl)
        · exact hprivate x hx
        · exact hf
      · rintro x (hx | rfl) y hy
        · exact .inl (hclosed x hx y hy)
        · exact .inr (hu.eq_of_leadsTo hstep hy)
  | case4 layer f unmet hf found targets hlayer next hnext hunmet =>
    have hstep := leadsTo_of_preferred? hlayer hnext
    have hback : P next ∨ next = f := by
      rcases hmet next (mem_providers (mem_successors.2 hstep)) with h | h | h
      · exact .inl h
      · exact .inr h
      · exact absurd h hunmet
    have hall : P c ∨ c = f := by
      induction hc with
      | refl => exact .inr rfl
      | tail _ hlast ih =>
        rcases ih with h | rfl
        · exact hclosed _ h _ hlast
        · rwa [hu.eq_of_leadsTo hstep hlast]
    rcases hall with h | rfl
    · exact hprivate c h
    · exact hf
  | case5 => cases hend

/-- Without branches the end of the chain is private only if there is nothing public to find. -/
theorem private_of_unbranched (hu : v.Unbranched f)
    (h : (v.resolveFor f includer).isPublic = false) (hc : v.Leads f c) :
    v.isPrivate c = true := by
  rw [resolveFor_of_deadEnd h] at h
  refine private_of_resolveFrom (P := fun _ => False) hu (fun g hg => ?_) nofun nofun h hc
  by_cases hgf : g = f
  · exact .inr (.inl hgf)
  · exact .inr (.inr (Search.mem_without.2 ⟨hg, hgf⟩))

end ProviderView

end IncludeAudit
