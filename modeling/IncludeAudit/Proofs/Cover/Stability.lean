import IncludeAudit.Proofs.Cover.Assignments

/-!
# Choosing again

A choice is stable: made a second time, with the chosen includes present, it chooses the same. The
second choice takes another way, since each need now has a present candidate and nothing is left to
the greedy cover, so it may come to its includes in another order.

* `Explains.exists_chosen`: each need that asks for an include is given one;
* `choose_again_subset`: the second choice finds what it needs among the present includes;
* `choose_again_perm`: and it needs all of them, because each is the only choice for some need.
-/

namespace IncludeAudit

namespace Cover

variable {s : CoverSetting} {needs : List (List FileName)} {need : List FileName} {cover : Cover}
  {slots : List Slot} {f : FileName}

/-- The same setting, but exactly the files that were chosen in it are present. -/
def again (s : CoverSetting) (needs : List (List FileName)) : CoverSetting :=
  { s with present := (choose s needs).desired }

/-- Whether a need asks for an include does not depend on what is present. -/
theorem asksInclude_again : AsksInclude (again s needs) need ↔ AsksInclude s need :=
  Iff.rfl

/-- A need with candidates that asks for an include has a chosen one. -/
theorem Explains.exists_chosen (h : Explains s needs cover slots) (hneed : need ∈ needs)
    (hasks : AsksInclude s need) (hne : need ≠ []) : ∃ f ∈ need, f ∈ cover.desired := by
  rw [← h.needs] at hneed
  obtain ⟨slot, hslot, rfl⟩ := List.mem_map.1 hneed
  obtain ⟨f, hf, hd, -⟩ := (h.served hslot).chosen hne hasks
  exact ⟨f, hf, hd⟩

/-- A chosen file is the only choice for a need that asks for an include. -/
theorem Explains.exists_only (h : Explains s needs cover slots) (hf : f ∈ cover.desired) :
    ∃ need ∈ needs, AsksInclude s need ∧ need ≠ [] ∧ ∀ g ∈ need, g ∈ cover.desired → g = f := by
  obtain ⟨slot, hslot, ha, honly⟩ := h.own f hf
  obtain ⟨hasks, hneed, -⟩ := (h.balanced.sound slot hslot).of_chosen ha
  refine ⟨slot.need, h.needs ▸ List.mem_map_of_mem hslot, hasks, ?_, honly⟩
  exact List.ne_nil_of_mem hneed

/-- A second choice chooses nothing new. -/
theorem choose_again_subset (hf : f ∈ (choose (again s needs) needs).desired) :
    f ∈ (choose s needs).desired := by
  obtain ⟨slots, h⟩ := choose_ok s needs
  have hpresent : ∀ need ∈ needs, AsksInclude (again s needs) need → need ≠ [] →
      ∃ g ∈ need, g ∈ (again s needs).present := fun need hneed hasks hne =>
    h.exists_chosen hneed (asksInclude_again.1 hasks) hne
  exact choose_present hpresent f hf

/-- A second choice, with the chosen files present, chooses the same files. -/
theorem choose_again_perm (s : CoverSetting) (needs : List (List FileName)) :
    (choose (again s needs) needs).desired.toList.Perm (choose s needs).desired.toList := by
  refine (List.perm_ext_iff_of_nodup (OrderedSet.nodup _) (OrderedSet.nodup _)).2 fun f => ?_
  refine ⟨fun hf => choose_again_subset hf, fun hf => ?_⟩
  obtain ⟨slots, h⟩ := choose_ok s needs
  obtain ⟨slots', h'⟩ := choose_ok (again s needs) needs
  obtain ⟨need, hneed, hasks, hne, honly⟩ := h.exists_only hf
  obtain ⟨g, hg, hd⟩ := h'.exists_chosen hneed (asksInclude_again.2 hasks) hne
  obtain rfl : g = f := honly g hg (choose_again_subset hd)
  exact hd

/-- The greedy cover chooses the file of two needs first, the second choice that of the first need. -/
example :
    let needs : List (List FileName) := [[.quoted "a.h"], [.quoted "c.h"], [.quoted "c.h"]]
    let s : CoverSetting := ⟨.quoted "f.cc", {}, {}⟩
    (choose s needs).desired.toList = [.quoted "c.h", .quoted "a.h"] ∧
      (choose (again s needs) needs).desired.toList = [.quoted "a.h", .quoted "c.h"] := by
  decide +kernel

end Cover

end IncludeAudit
