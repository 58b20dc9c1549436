import IncludeAudit.Proofs.Cover.Demand

/-!
# What includes are chosen

* `prune_needed`: once choices are given up, each chosen include has a need to itself;
* `greedy_settled`: the greedy cover leaves only needs open that have no candidates;
* `choose_ok`: the slots behind a choice (`Explains`), with the needs and the assignments in their
  order. They are balanced, each chosen include has a need to itself, and each one that is not
  present has a need without a present candidate;
* `choose_present`: if the needs can do with present includes, no other is chosen.
-/

namespace IncludeAudit

namespace Cover

variable {s : CoverSetting} {desired : OrderedSet FileName} {slots : List Slot} {f g : FileName}

/-- A need is served by a file, and no other file that is chosen would serve it. -/
def HasOwnNeed (slots : List Slot) (desired : OrderedSet FileName) (f : FileName) : Prop :=
  ∃ slot ∈ slots, slot.assignment = some (.chosen f) ∧ ∀ g ∈ slot.need, g ∈ desired → g = f

/-- A file that is not given up has a need to itself. -/
theorem hasOwnNeed_giveUp_self (hf : f ∈ (giveUp f (slots, desired)).2) :
    HasOwnNeed (giveUp f (slots, desired)).1 (giveUp f (slots, desired)).2 f := by
  simp only [giveUp] at hf ⊢
  split at hf
  · exact absurd rfl (OrderedSet.mem_erase.1 hf).2
  · rename_i hall
    rw [if_neg hall]
    obtain ⟨slot, hmem, hspare⟩ := List.all_eq_false.1 (Bool.eq_false_iff.2 hall)
    simp only [canSpare, Bool.not_eq_true, Bool.or_eq_false_iff, bne_eq_false_iff_eq,
      Option.isSome_eq_false_iff, Option.isNone_iff_eq_none] at hspare
    refine ⟨slot, hmem, hspare.1, fun g hg hd => ?_⟩
    have hnone := hspare.2
    simp only [reassign, hspare.1, if_true, Option.map_eq_none_iff, List.find?_eq_none] at hnone
    have hgf := hnone g hg
    simp only [ne_eq, decide_not, Bool.and_eq_true, Bool.not_eq_true', decide_eq_false_iff_not,
      OrderedSet.contains_eq_true, not_and] at hgf
    exact Classical.not_not.1 fun hne => hgf hne hd

/-- Giving up another file leaves a file its own need. -/
theorem hasOwnNeed_giveUp (h : HasOwnNeed slots desired g)
    (hg : g ∈ (giveUp f (slots, desired)).2) :
    HasOwnNeed (giveUp f (slots, desired)).1 (giveUp f (slots, desired)).2 g := by
  obtain ⟨slot, hmem, ha, hown⟩ := h
  exact ⟨slot, mem_giveUp_of_chosen hmem ha hg, ha, fun k hk hd => hown k hk (mem_giveUp hd)⟩

/-- The induction is on the files that were tried, the last chosen first. -/
theorem prune_needed (slots : List Slot) (desired : OrderedSet FileName) :
    ∀ f ∈ (prune slots desired).2, HasOwnNeed (prune slots desired).1 (prune slots desired).2 f := by
  have key : ∀ fs : List FileName,
      let state := fs.foldr giveUp (slots, desired)
      ∀ f ∈ fs, f ∈ state.2 → HasOwnNeed state.1 state.2 f := by
    intro fs
    induction fs with
    | nil => exact fun f hf => absurd hf List.not_mem_nil
    | cons f fs ih =>
      rw [List.foldr_cons]
      intro state g hg hd
      rcases List.mem_cons.1 hg with rfl | hg
      · exact hasOwnNeed_giveUp_self hd
      · exact hasOwnNeed_giveUp (ih g hg (mem_giveUp hd)) hd
  exact fun f hf => key desired.toList f (mem_prune hf) hf

/-! ## Open needs -/

/-- The slots of which only those are open that have no candidate. -/
def Settled (slots : List Slot) : Prop :=
  ∀ slot ∈ slots, slot.assignment = none → slot.need = []

theorem best?_eq_none {needs : List (List FileName)} :
    best? needs = none ↔ ∀ need ∈ needs, need = [] := by
  have hheaviest : ∀ fs : List FileName, heaviest? (coverage needs) fs = none ↔ fs = [] := by
    intro fs
    cases fs with
    | nil => simp [heaviest?]
    | cons f fs =>
      rw [heaviest?]
      split
      · simp
      · split <;> simp
  rw [best?, hheaviest, ← List.flatten_eq_nil_iff]
  constructor
  · intro h
    refine List.eq_nil_iff_forall_not_mem.2 fun f hf => ?_
    rw [← List.mem_eraseDups, h] at hf
    exact List.not_mem_nil hf
  · intro h
    rw [h]
    rfl

theorem settled_iff : Settled slots ↔ best? (openNeeds slots) = none := by
  simp only [best?_eq_none, mem_openNeeds, Settled]
  constructor
  · rintro h need ⟨slot, hmem, hn, rfl⟩
    exact h slot hmem hn
  · exact fun h slot hmem hn => h _ ⟨slot, hmem, hn, rfl⟩

theorem greedy_settled (slots : List Slot) (desired : OrderedSet FileName) :
    Settled (greedy slots desired).1 := by
  fun_induction greedy slots desired with
  | case1 slots desired hnone => exact settled_iff.2 hnone
  | case2 slots desired f hbest ih => exact ih

theorem greedy_eq_self (h : Settled slots) : greedy slots desired = (slots, desired) := by
  rw [greedy]
  split
  · rfl
  · rename_i hbest
    rw [settled_iff.1 h] at hbest
    cases hbest

theorem settled_giveUp (h : Settled slots) : Settled (giveUp f (slots, desired)).1 := by
  simp only [giveUp]
  split
  · rename_i hall
    intro x hx hn
    obtain ⟨slot, hmem, rfl⟩ := List.mem_map.1 hx
    have hn : reassign desired f slot = none := hn
    have hspare := List.all_eq_true.1 hall slot hmem
    simp only [canSpare, hn, Option.isSome_none, Bool.or_false, bne_iff_ne] at hspare
    simp only [reassign, if_neg hspare] at hn
    exact h slot hmem hn
  · exact h

theorem settled_prune (h : Settled slots) : Settled (prune slots desired).1 := by
  unfold prune
  generalize desired.toList = fs
  induction fs with
  | nil => exact h
  | cons f fs ih => exact settled_giveUp ih

/-! ## The choice -/

theorem balanced_initial (s : CoverSetting) (needs : List (List FileName)) :
    Balanced s (needs.map (initial s)) {} where
  sound slot hmem := by
    obtain ⟨need, -, rfl⟩ := List.mem_map.1 hmem
    exact sound_initial s {} need
  wanted f hf := absurd hf OrderedSet.not_mem_empty

theorem needsOf_initial (s : CoverSetting) (needs : List (List FileName)) :
    needsOf (needs.map (initial s)) = needs := by
  simp only [needsOf, List.map_map]
  exact (List.map_congr_left fun need _ => congrArg Slot.need (initial_eq s need)).trans
    (List.map_id _)

/-- The slots behind a choice for some needs. -/
structure Explains (s : CoverSetting) (needs : List (List FileName)) (cover : Cover)
    (slots : List Slot) : Prop where
  assignments : cover.assignments = slots.map (·.assignment)
  needs : needsOf slots = needs
  settled : Settled slots
  balanced : Balanced s slots cover.desired
  own : ∀ f ∈ cover.desired, HasOwnNeed slots cover.desired f
  demanded : ∀ f ∈ cover.desired, f ∉ s.present → Demanded s slots f

theorem choose_ok (s : CoverSetting) (needs : List (List FileName)) :
    ∃ slots, Explains s needs (choose s needs) slots := by
  have hpresent := takePresent_ok (balanced_initial s needs)
  have hneeds := needsOf_takePresent s (needs.map (initial s)) {}
  have hdemanding := demanding_takePresent s (needs.map (initial s))
  simp only [choose]
  generalize takePresent s (needs.map (initial s)) {} = taken at hpresent hneeds hdemanding
  obtain ⟨slots, desired⟩ := taken
  obtain ⟨hgreedy, hneeds'⟩ := greedy_ok (settleAll_ok hpresent)
  have hsettled := greedy_settled (settleAll desired slots) desired
  have hdemanding := hdemanding.greedy
  generalize greedy (settleAll desired slots) desired = covered at hgreedy hneeds' hsettled hdemanding
  obtain ⟨slots', desired'⟩ := covered
  obtain ⟨hpruned, hneeds''⟩ := prune_ok hgreedy
  refine ⟨(prune slots' desired').1, rfl, ?_, settled_prune hsettled, hpruned,
    prune_needed slots' desired', fun f hf habsent =>
      (hdemanding.demanded f (mem_prune hf) habsent).prune hf⟩
  rw [hneeds'', hneeds', needsOf_settleAll, hneeds, needsOf_initial]

/-- Without needs nothing is chosen. -/
theorem choose_nil (s : CoverSetting) : choose s [] = ⟨{}, []⟩ := by
  have h : greedy [] {} = ([], {}) :=
    greedy_eq_self fun slot hslot => absurd hslot List.not_mem_nil
  simp only [choose, List.map_nil, takePresent, settleAll, h]
  rfl

/-! ## Present includes suffice -/

/-- If each need that asks for an include has a present candidate or none at all, then only present
includes are chosen: the greedy cover finds nothing left to do. -/
theorem choose_present {needs : List (List FileName)}
    (h : ∀ need ∈ needs, AsksInclude s need → need ≠ [] → ∃ f ∈ need, f ∈ s.present) :
    ∀ f ∈ (choose s needs).desired, f ∈ s.present := by
  have hsettled : Settled (settleAll (takePresent s (needs.map (initial s)) {}).2
      (takePresent s (needs.map (initial s)) {}).1) := by
    intro x hx hopen
    obtain ⟨hslot, hnone⟩ := takePresent_open (settleAll_open hx hopen).1 hopen
    obtain ⟨need, hneed, rfl⟩ := List.mem_map.1 hslot
    have hasks := assignment_initial_eq_none.1 hopen
    have heq : (initial s need).need = need := by rw [initial_eq]
    rw [heq] at hnone ⊢
    refine Classical.byContradiction fun hne => ?_
    obtain ⟨f, hf, hp⟩ := h need hneed hasks hne
    exact hnone f hf hp
  intro f hf
  simp only [choose] at hf
  have hpresent := mem_prune hf
  rw [greedy_eq_self hsettled] at hpresent
  rcases mem_takePresent hpresent with he | ⟨hp, -⟩
  · exact absurd he OrderedSet.not_mem_empty
  · exact hp

end Cover

end IncludeAudit
