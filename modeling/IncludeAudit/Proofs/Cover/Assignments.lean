import IncludeAudit.Proofs.Cover.Choice
import Mathlib.Data.List.Forall2

/-!
# What each need is given

The slots behind a choice tell for each need what it is given. What a need is given at first stays:
the later steps touch open slots and chosen files only.

* `Sound.assignment_eq`: a need that asks for no include keeps its first assignment;
* `Explains.served`: each slot has the assignment that its need should have (`Served`);
* `choose_served`: so each need is served, and only wanted files are chosen;
* `mem_choose_iff`: the chosen files are those that some need cannot do without.
-/

namespace IncludeAudit

namespace Cover

variable {s : CoverSetting} {desired : OrderedSet FileName} {slot : Slot} {slots : List Slot}
  {need : List FileName} {needs : List (List FileName)} {cover : Cover} {f : FileName}

/-- A need that asks for no include has the assignment with which it began. -/
theorem Sound.assignment_eq {a : Assignment} (h : Sound s desired slot)
    (ha : (initial s slot.need).assignment = some a) : slot.assignment = some a := by
  cases h with
  | free h => exact h.symm.trans ha
  | waiting h =>
    rw [assignment_initial_eq_none.2 h] at ha
    cases ha
  | served h _ _ =>
    rw [assignment_initial_eq_none.2 h] at ha
    cases ha

/-- What an associated header includes is found at the beginning. -/
theorem Sound.initial_of_associated (h : Sound s desired slot)
    (ha : slot.assignment = some (.associated f)) :
    (initial s slot.need).assignment = some (.associated f) := by
  cases h with
  | free h => exact h.trans ha
  | waiting => cases ha
  | served => cases ha

theorem assignment_initial_eq_itself :
    (initial s need).assignment = some .itself ↔ s.referencing ∈ need := by
  unfold initial
  split
  · rename_i h
    simpa using h
  · rename_i h
    simpa using h

theorem assignment_initial_eq_associated :
    (initial s need).assignment = some (.associated f) ↔
      s.referencing ∉ need ∧ need.find? s.associatedIncludes.contains = some f := by
  unfold initial
  split
  · rename_i h
    have h : s.referencing ∈ need := by simpa using h
    simp [h]
  · rename_i h
    have h : s.referencing ∉ need := by simpa using h
    simp [h]

/-- What a need should be given: nothing if it has no candidates, the file itself if that is one,
else the first candidate that an associated header includes, else a chosen candidate. -/
structure Served (s : CoverSetting) (desired : OrderedSet FileName) (need : List FileName)
    (a : Option Assignment) : Prop where
  unserved : a = none ↔ need = []
  itself : a = some .itself ↔ s.referencing ∈ need
  associated (f : FileName) : a = some (.associated f) ↔
    s.referencing ∉ need ∧ need.find? s.associatedIncludes.contains = some f
  chosen : need ≠ [] → AsksInclude s need → ∃ f ∈ need, f ∈ desired ∧ a = some (.chosen f)

/-- Only a need without candidates stays open: such a need asks for an include, and any that it had
been given would be a candidate. -/
theorem Explains.open_iff (h : Explains s needs cover slots) (hmem : slot ∈ slots) :
    slot.assignment = none ↔ slot.need = [] := by
  refine ⟨h.settled slot hmem, fun hnil => Classical.byContradiction fun hn => ?_⟩
  have hsound := h.balanced.sound slot hmem
  have hasks : AsksInclude s slot.need := by simp [AsksInclude, hnil]
  obtain ⟨f, hf⟩ := hsound.chosen_of_asks hasks hn
  have hneed := (hsound.of_chosen hf).2.1
  rw [hnil] at hneed
  cases hneed

theorem Explains.served (h : Explains s needs cover slots) (hmem : slot ∈ slots) :
    Served s cover.desired slot.need slot.assignment where
  unserved := h.open_iff hmem
  itself :=
    have hsound := h.balanced.sound slot hmem
    ⟨hsound.of_itself, fun hr => hsound.assignment_eq (assignment_initial_eq_itself.2 hr)⟩
  associated _ :=
    have hsound := h.balanced.sound slot hmem
    ⟨fun ha => assignment_initial_eq_associated.1 (hsound.initial_of_associated ha),
      fun hf => hsound.assignment_eq (assignment_initial_eq_associated.2 hf)⟩
  chosen hne hasks := by
    have hsound := h.balanced.sound slot hmem
    obtain ⟨f, hf⟩ := hsound.chosen_of_asks hasks (mt (h.open_iff hmem).1 hne)
    obtain ⟨-, hneed, hd⟩ := hsound.of_chosen hf
    exact ⟨f, hneed, hd, hf⟩

theorem Explains.forall₂_served (h : Explains s needs cover slots) :
    List.Forall₂ (Served s cover.desired) needs cover.assignments := by
  rw [h.assignments, ← h.needs, needsOf, List.forall₂_map_left_iff, List.forall₂_map_right_iff,
    List.forall₂_same]
  exact fun slot hmem => h.served hmem

/-- Only what a need asks for is chosen: neither the file itself nor an associated include. -/
theorem Explains.wanted (h : Explains s needs cover slots) (hf : f ∈ cover.desired) :
    f ≠ s.referencing ∧ f ∉ s.associatedIncludes := by
  obtain ⟨slot, -, ⟨hself, hassociated⟩, hneed⟩ := h.balanced.wanted f hf
  exact ⟨fun he => hself (he ▸ hneed), hassociated f hneed⟩

/-- Each need gets what it should be given, and each file is chosen at most once and for a need that
asks for an include. -/
theorem choose_served (s : CoverSetting) (needs : List (List FileName)) :
    List.Forall₂ (Served s (choose s needs).desired) needs (choose s needs).assignments ∧
      (choose s needs).desired.toList.Nodup ∧ s.referencing ∉ (choose s needs).desired ∧
      ∀ f ∈ (choose s needs).desired, f ∉ s.associatedIncludes := by
  obtain ⟨slots, h⟩ := choose_ok s needs
  exact ⟨h.forall₂_served, (choose s needs).desired.nodup, fun hr => (h.wanted hr).1 rfl,
    fun f hf => (h.wanted hf).2⟩

/-! ## Files that are needed -/

/-- The needs with their assignments. -/
theorem Explains.zip_eq (h : Explains s needs cover slots) :
    needs.zip cover.assignments = slots.map fun slot => (slot.need, slot.assignment) := by
  rw [h.assignments, ← h.needs, needsOf, List.zip_map']

/-- The chosen files are those that are given to a need of which they are the only chosen
candidate. -/
theorem mem_choose_iff (s : CoverSetting) (needs : List (List FileName)) (f : FileName) :
    f ∈ (choose s needs).desired ↔
      ∃ need, (need, some (.chosen f)) ∈ needs.zip (choose s needs).assignments ∧ f ∈ need ∧
        ∀ g ∈ need, g ∈ (choose s needs).desired → g = f := by
  obtain ⟨slots, h⟩ := choose_ok s needs
  rw [h.zip_eq]
  constructor
  · intro hf
    obtain ⟨slot, hmem, ha, honly⟩ := h.own f hf
    refine ⟨slot.need, List.mem_map.2 ⟨slot, hmem, by rw [ha]⟩, ?_, honly⟩
    exact ((h.balanced.sound slot hmem).of_chosen ha).2.1
  · rintro ⟨need, hmem, -⟩
    obtain ⟨slot, hslot, he⟩ := List.mem_map.1 hmem
    exact ((h.balanced.sound slot hslot).of_chosen (Prod.mk.inj he).2).2.2

end Cover

end IncludeAudit
