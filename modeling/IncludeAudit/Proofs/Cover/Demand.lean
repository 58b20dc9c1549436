import IncludeAudit.Proofs.Cover.Slots

/-!
# Why includes are added

An include that is not present is chosen only for a need without a present candidate: the needs that
have one are settled before the greedy cover begins, and pruning takes nothing from a need whose
choice stays.

* `demanding_takePresent`, `Demanding.greedy`: the invariant of the greedy cover;
* `Demanded.prune`: what pruning keeps.
-/

namespace IncludeAudit

namespace Cover

variable {s : CoverSetting} {desired : OrderedSet FileName} {slots : List Slot} {f : FileName}

/-- No candidate of the need is present. -/
def Lacks (s : CoverSetting) (need : List FileName) : Prop :=
  ∀ f ∈ need, f ∉ s.present

/-- A file serves a need without a present candidate. -/
def Demanded (s : CoverSetting) (slots : List Slot) (f : FileName) : Prop :=
  ∃ slot ∈ slots, slot.assignment = some (.chosen f) ∧ Lacks s slot.need

/-- Each chosen file that is not present is demanded, and an open need has neither a present nor a
chosen candidate. -/
structure Demanding (s : CoverSetting) (slots : List Slot) (desired : OrderedSet FileName) :
    Prop where
  demanded : ∀ f ∈ desired, f ∉ s.present → Demanded s slots f
  lacks : ∀ slot ∈ slots, slot.assignment = none → Lacks s slot.need
  fresh : ∀ slot ∈ slots, slot.assignment = none → ∀ f ∈ slot.need, f ∉ desired

theorem demanding_takePresent (s : CoverSetting) (slots : List Slot) :
    Demanding s (settleAll (takePresent s slots {}).2 (takePresent s slots {}).1)
      (takePresent s slots {}).2 where
  demanded f hf habsent := by
    rcases mem_takePresent hf with he | ⟨hp, -⟩
    · exact absurd he OrderedSet.not_mem_empty
    · exact absurd hp habsent
  lacks slot hmem hn := (takePresent_open (settleAll_open hmem hn).1 hn).2
  fresh slot hmem hn := (settleAll_open hmem hn).2

theorem Demanded.settleAll (h : Demanded s slots f) : Demanded s (settleAll desired slots) f := by
  obtain ⟨slot, hmem, ha, hlacks⟩ := h
  exact ⟨slot, mem_settleAll_of_some hmem ha, ha, hlacks⟩

/-- A file is chosen for an open need of which it is the only chosen candidate. -/
theorem Demanding.settleAll (h : Demanding s slots desired)
    (hf : ∃ need ∈ openNeeds slots, f ∈ need) :
    Demanding s (settleAll (desired.insert f) slots) (desired.insert f) where
  demanded g hg habsent := by
    rcases OrderedSet.mem_insert.1 hg with hg | rfl
    · exact (h.demanded g hg habsent).settleAll
    · obtain ⟨need, hneed, hg⟩ := hf
      obtain ⟨slot, hmem, hn, rfl⟩ := mem_openNeeds.1 hneed
      obtain ⟨c, hc⟩ : ∃ c, slot.need.find? (desired.insert g).contains = some c := by
        rw [← Option.isSome_iff_exists, List.find?_isSome]
        exact ⟨g, hg, OrderedSet.contains_eq_true.2 (OrderedSet.mem_insert.2 (.inr rfl))⟩
      obtain rfl : c = g :=
        (OrderedSet.mem_insert.1 (OrderedSet.contains_eq_true.1 (List.find?_some hc))).resolve_left
          (h.fresh slot hmem hn c (List.mem_of_find?_eq_some hc))
      refine ⟨settle (desired.insert c) slot, List.mem_map_of_mem hmem, ?_, ?_⟩
      · rw [settle_of_none hn, hc]
        rfl
      · rw [need_settle]
        exact h.lacks slot hmem hn
  lacks slot hmem hn := h.lacks slot (settleAll_open hmem hn).1 hn
  fresh slot hmem hn := (settleAll_open hmem hn).2

theorem Demanding.greedy (h : Demanding s slots desired) :
    Demanding s (greedy slots desired).1 (greedy slots desired).2 := by
  fun_induction Cover.greedy slots desired with
  | case1 slots desired hnone => exact h
  | case2 slots desired f hbest ih => exact ih (h.settleAll (best?_mem hbest))

theorem Demanded.prune (h : Demanded s slots f) (hf : f ∈ (prune slots desired).2) :
    Demanded s (prune slots desired).1 f := by
  obtain ⟨slot, hmem, ha, hlacks⟩ := h
  exact ⟨slot, mem_prune_of_chosen hmem ha hf, ha, hlacks⟩

end Cover

end IncludeAudit
