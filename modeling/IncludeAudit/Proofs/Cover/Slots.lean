import IncludeAudit.Decision.Cover

/-!
# What holds of the slots while includes are chosen

`Balanced` ties the slots and the chosen includes to each other: each assignment is right
(`Sound`), and each chosen include is a candidate of a need that asks for one. Every step of
`choose` keeps it, and keeps the needs:

* `takePresent_ok`: giving present candidates to open needs;
* `settleAll_ok`, `greedy_ok`: the greedy cover, which leaves no open need with a candidate;
* `giveUp_ok`, `prune_ok`: giving up choices.
-/

namespace IncludeAudit

namespace Cover

variable {s : CoverSetting} {desired desired' : OrderedSet FileName} {slot : Slot}
  {slots slots' : List Slot} {need : List FileName} {f g : FileName}

/-! ## Right assignments -/

/-- A need that asks for an include: neither the file itself nor an include of an associated header
is a candidate. -/
def AsksInclude (s : CoverSetting) (need : List FileName) : Prop :=
  s.referencing ∉ need ∧ ∀ f ∈ need, f ∉ s.associatedIncludes

/-- The assignment of a slot is right. -/
inductive Sound (s : CoverSetting) (desired : OrderedSet FileName) : Slot → Prop where
  /-- The need asks for no include. -/
  | free {need : List FileName} {a : Assignment} (h : (initial s need).assignment = some a) :
    Sound s desired ⟨need, some a⟩
  | waiting {need : List FileName} (h : AsksInclude s need) : Sound s desired ⟨need, none⟩
  | served {need : List FileName} {f : FileName} (h : AsksInclude s need) (hf : f ∈ need)
    (hd : f ∈ desired) : Sound s desired ⟨need, some (.chosen f)⟩

theorem initial_eq (s : CoverSetting) (need : List FileName) :
    initial s need = ⟨need, (initial s need).assignment⟩ := by
  unfold initial
  split <;> rfl

theorem assignment_initial_eq_none :
    (initial s need).assignment = none ↔ AsksInclude s need := by
  unfold initial AsksInclude
  split
  · rename_i h
    have h : s.referencing ∈ need := by simpa using h
    simp [h]
  · rename_i h
    have h : s.referencing ∉ need := by simpa using h
    simp [h]

/-- What the file itself or an associated header provides is told apart as the assignment says. -/
theorem assignment_initial_eq_some {a : Assignment} (h : (initial s need).assignment = some a) :
    (a = .itself ∧ s.referencing ∈ need) ∨
      ∃ f ∈ need, f ∈ s.associatedIncludes ∧ s.referencing ∉ need ∧ a = .associated f := by
  unfold initial at h
  split at h
  · rename_i hr
    exact .inl ⟨(Option.some.inj h).symm, by simpa using hr⟩
  · rename_i hr
    obtain ⟨f, hf, rfl⟩ := Option.map_eq_some_iff.1 h
    exact .inr ⟨f, List.mem_of_find?_eq_some hf,
      OrderedSet.contains_eq_true.1 (List.find?_some hf), by simpa using hr, rfl⟩

theorem assignment_initial_ne_chosen : (initial s need).assignment ≠ some (.chosen f) := by
  intro h
  rcases assignment_initial_eq_some h with ⟨h, -⟩ | ⟨_, -, -, -, h⟩ <;> cases h

theorem sound_initial (s : CoverSetting) (desired : OrderedSet FileName) (need : List FileName) :
    Sound s desired (initial s need) := by
  rw [initial_eq]
  cases h : (initial s need).assignment with
  | none => exact .waiting (assignment_initial_eq_none.1 h)
  | some a => exact .free h

namespace Sound

theorem mono (h : Sound s desired slot) (hd : ∀ f ∈ desired, f ∈ desired') :
    Sound s desired' slot := by
  cases h with
  | free h => exact .free h
  | waiting h => exact .waiting h
  | served h hf hm => exact .served h hf (hd _ hm)

theorem asks_of_none (h : Sound s desired slot) (hn : slot.assignment = none) :
    AsksInclude s slot.need := by
  cases h with
  | free h => cases hn
  | waiting h => exact h
  | served => cases hn

theorem of_itself (h : Sound s desired slot) (hn : slot.assignment = some .itself) :
    s.referencing ∈ slot.need := by
  cases h with
  | free h =>
    cases hn
    rcases assignment_initial_eq_some h with ⟨-, hr⟩ | ⟨_, -, -, -, ha⟩
    · exact hr
    · cases ha
  | waiting => cases hn
  | served => cases hn

theorem of_associated (h : Sound s desired slot) (hn : slot.assignment = some (.associated f)) :
    s.referencing ∉ slot.need ∧ f ∈ slot.need ∧ f ∈ s.associatedIncludes := by
  cases h with
  | free h =>
    cases hn
    rcases assignment_initial_eq_some h with ⟨ha, -⟩ | ⟨g, hg, hi, hr, ha⟩
    · cases ha
    · cases ha
      exact ⟨hr, hg, hi⟩
  | waiting => cases hn
  | served => cases hn

theorem of_chosen (h : Sound s desired slot) (hn : slot.assignment = some (.chosen f)) :
    AsksInclude s slot.need ∧ f ∈ slot.need ∧ f ∈ desired := by
  cases h with
  | free h =>
    cases hn
    exact absurd h assignment_initial_ne_chosen
  | waiting => cases hn
  | served h hf hd =>
    cases hn
    exact ⟨h, hf, hd⟩

/-- A need that asks for an include gets one, if it gets anything. -/
theorem chosen_of_asks (h : Sound s desired slot) (ha : AsksInclude s slot.need)
    (hn : slot.assignment ≠ none) : ∃ f, slot.assignment = some (.chosen f) := by
  cases hs : slot.assignment with
  | none => exact absurd hs hn
  | some a =>
    cases a with
    | itself => exact absurd (h.of_itself hs) ha.1
    | associated f =>
      obtain ⟨-, hf, hi⟩ := h.of_associated hs
      exact absurd hi (ha.2 f hf)
    | chosen f => exact ⟨f, rfl⟩

end Sound

/-! ## The invariant -/

/-- Each assignment is right, and each chosen include is a candidate of a need that asks for one. -/
structure Balanced (s : CoverSetting) (slots : List Slot) (desired : OrderedSet FileName) :
    Prop where
  sound : ∀ slot ∈ slots, Sound s desired slot
  wanted : ∀ f ∈ desired, ∃ slot ∈ slots, AsksInclude s slot.need ∧ f ∈ slot.need

/-- The needs of the slots, in their order. -/
def needsOf (slots : List Slot) : List (List FileName) :=
  slots.map (·.need)

/-- Chosen includes are wanted by the needs alone, so slots with the same needs want the same. -/
theorem wanted_congr (hn : needsOf slots' = needsOf slots)
    (h : ∃ slot ∈ slots, AsksInclude s slot.need ∧ f ∈ slot.need) :
    ∃ slot ∈ slots', AsksInclude s slot.need ∧ f ∈ slot.need := by
  obtain ⟨slot, hmem, ha, hf⟩ := h
  have hneed : slot.need ∈ needsOf slots' := hn ▸ List.mem_map_of_mem hmem
  obtain ⟨slot', hmem', he⟩ := List.mem_map.1 hneed
  exact ⟨slot', hmem', he ▸ ha, he ▸ hf⟩

/-! ## Present includes -/

theorem presentPick?_mem (h : presentPick? s desired need = some f) :
    f ∈ need ∧ f ∈ s.present := by
  have hf : f ∈ need.filter s.present.contains := by
    rcases Option.or_eq_some_iff.1 h with h | ⟨-, h⟩
    · exact List.mem_of_find?_eq_some h
    · exact List.mem_of_mem_head? h
  exact ⟨(List.mem_filter.1 hf).1, OrderedSet.contains_eq_true.1 (List.mem_filter.1 hf).2⟩

theorem needsOf_takePresent (s : CoverSetting) (slots : List Slot) (desired : OrderedSet FileName) :
    needsOf (takePresent s slots desired).1 = needsOf slots := by
  induction slots generalizing desired with
  | nil => rfl
  | cons slot slots ih =>
    rw [takePresent]
    split
    · exact congrArg (slot.need :: ·) (ih _)
    · exact congrArg (slot.need :: ·) (ih _)

theorem takePresent_mono (hf : f ∈ desired) : f ∈ (takePresent s slots desired).2 := by
  induction slots generalizing desired with
  | nil => exact hf
  | cons slot slots ih =>
    rw [takePresent]
    split
    · exact ih (OrderedSet.mem_insert.2 (.inl hf))
    · exact ih hf

/-- What is chosen first is present and a candidate of an open need. -/
theorem mem_takePresent (hf : f ∈ (takePresent s slots desired).2) :
    f ∈ desired ∨ f ∈ s.present ∧ ∃ slot ∈ slots, slot.assignment = none ∧ f ∈ slot.need := by
  induction slots generalizing desired with
  | nil => exact .inl hf
  | cons slot slots ih =>
    rw [takePresent] at hf
    split at hf
    · rename_i hn hp
      rcases ih hf with hf | ⟨hp, slot', hmem, h⟩
      · rcases OrderedSet.mem_insert.1 hf with hf | rfl
        · exact .inl hf
        · have hpick := presentPick?_mem hp
          exact .inr ⟨hpick.2, slot, List.mem_cons_self, hn, hpick.1⟩
      · exact .inr ⟨hp, slot', List.mem_cons_of_mem _ hmem, h⟩
    · rcases ih hf with hf | ⟨hp, slot', hmem, h⟩
      · exact .inl hf
      · exact .inr ⟨hp, slot', List.mem_cons_of_mem _ hmem, h⟩

theorem sound_takePresent (h : ∀ slot ∈ slots, Sound s desired slot) :
    ∀ slot ∈ (takePresent s slots desired).1, Sound s (takePresent s slots desired).2 slot := by
  induction slots generalizing desired with
  | nil => exact h
  | cons slot slots ih =>
    have hslot := h slot List.mem_cons_self
    have hslots := fun x hx => h x (List.mem_cons_of_mem _ hx)
    rw [takePresent]
    split
    · rename_i f hn hp
      have hgrow : ∀ g ∈ desired, g ∈ desired.insert f := fun g hg =>
        OrderedSet.mem_insert.2 (.inl hg)
      intro x hx
      rcases List.mem_cons.1 hx with rfl | hx
      · exact .served (hslot.asks_of_none hn) (presentPick?_mem hp).1
          (takePresent_mono (OrderedSet.mem_insert.2 (.inr rfl)))
      · exact ih (fun y hy => (hslots y hy).mono hgrow) x hx
    · intro x hx
      rcases List.mem_cons.1 hx with rfl | hx
      · exact hslot.mono fun g hg => takePresent_mono hg
      · exact ih hslots x hx

theorem takePresent_ok (h : Balanced s slots desired) :
    Balanced s (takePresent s slots desired).1 (takePresent s slots desired).2 where
  sound := sound_takePresent h.sound
  wanted f hf := by
    refine wanted_congr (needsOf_takePresent s slots desired) ?_
    rcases mem_takePresent hf with hf | ⟨-, slot, hmem, hn, hneed⟩
    · exact h.wanted f hf
    · exact ⟨slot, hmem, (h.sound slot hmem).asks_of_none hn, hneed⟩

/-- What is left open has no present candidate. -/
theorem takePresent_open {slot : Slot} (hmem : slot ∈ (takePresent s slots desired).1)
    (hn : slot.assignment = none) : slot ∈ slots ∧ ∀ f ∈ slot.need, f ∉ s.present := by
  induction slots generalizing desired with
  | nil => exact absurd hmem List.not_mem_nil
  | cons first slots ih =>
    rw [takePresent] at hmem
    split at hmem
    · rcases List.mem_cons.1 hmem with rfl | hmem
      · cases hn
      · obtain ⟨h, hf⟩ := ih hmem
        exact ⟨List.mem_cons_of_mem _ h, hf⟩
    · rename_i hpick
      rcases List.mem_cons.1 hmem with rfl | hmem
      · refine ⟨List.mem_cons_self, fun f hf hp => ?_⟩
        have hcandidates : f ∈ slot.need.filter s.present.contains :=
          List.mem_filter.2 ⟨hf, OrderedSet.contains_eq_true.2 hp⟩
        cases hhead : (slot.need.filter s.present.contains).head? with
        | none => rw [List.head?_eq_none_iff.1 hhead] at hcandidates; cases hcandidates
        | some g =>
          cases hfind : (slot.need.filter s.present.contains).find? desired.contains with
          | none => exact hpick g hn (by simp [presentPick?, hhead, hfind])
          | some k => exact hpick k hn (by simp [presentPick?, hfind])
      · obtain ⟨h, hf⟩ := ih hmem
        exact ⟨List.mem_cons_of_mem _ h, hf⟩

/-! ## The greedy cover -/

theorem settle_of_some {a : Assignment} (ha : slot.assignment = some a) :
    settle desired slot = slot := by
  simp [settle, ha]

theorem settle_of_none (ha : slot.assignment = none) :
    settle desired slot = ⟨slot.need, (slot.need.find? desired.contains).map .chosen⟩ := by
  simp [settle, ha]

theorem mem_settleAll_of_some {a : Assignment} (hmem : slot ∈ slots)
    (ha : slot.assignment = some a) : slot ∈ settleAll desired slots :=
  List.mem_map.2 ⟨slot, hmem, settle_of_some ha⟩

/-- What stays open has no chosen candidate. -/
theorem settleAll_open (hmem : slot ∈ settleAll desired slots) (hn : slot.assignment = none) :
    slot ∈ slots ∧ ∀ f ∈ slot.need, f ∉ desired := by
  obtain ⟨before, hbefore, rfl⟩ := List.mem_map.1 hmem
  cases ha : before.assignment with
  | some a =>
    rw [settle_of_some ha, ha] at hn
    cases hn
  | none =>
    rw [settle_of_none ha, Option.map_eq_none_iff] at hn
    have hsame : settle desired before = before := by
      rw [settle_of_none ha, hn, Option.map_none, ← ha]
    rw [hsame]
    refine ⟨hbefore, fun f hf hd => ?_⟩
    exact List.find?_eq_none.1 hn f hf (OrderedSet.contains_eq_true.2 hd)

theorem need_settle (desired : OrderedSet FileName) (slot : Slot) :
    (settle desired slot).need = slot.need := by
  unfold settle
  split <;> rfl

theorem needsOf_settleAll (desired : OrderedSet FileName) (slots : List Slot) :
    needsOf (settleAll desired slots) = needsOf slots := by
  simp only [needsOf, settleAll, List.map_map]
  exact List.map_congr_left fun slot _ => need_settle desired slot

theorem sound_settle (h : Sound s desired slot) : Sound s desired (settle desired slot) := by
  unfold settle
  split
  · exact h
  · rename_i hn
    have ha := h.asks_of_none hn
    cases hc : slot.need.find? desired.contains with
    | none => exact .waiting ha
    | some f =>
      exact .served ha (List.mem_of_find?_eq_some hc)
        (OrderedSet.contains_eq_true.1 (List.find?_some hc))

theorem settleAll_ok (h : Balanced s slots desired) :
    Balanced s (settleAll desired slots) desired where
  sound x hx := by
    obtain ⟨slot, hmem, rfl⟩ := List.mem_map.1 hx
    exact sound_settle (h.sound slot hmem)
  wanted f hf := wanted_congr (needsOf_settleAll desired slots) (h.wanted f hf)

theorem mem_openNeeds : need ∈ openNeeds slots ↔
    ∃ slot ∈ slots, slot.assignment = none ∧ slot.need = need := by
  simp [openNeeds, and_assoc]

/-- A file that an open need asks for may be chosen. -/
theorem Balanced.insert (h : Balanced s slots desired) (hf : ∃ need ∈ openNeeds slots, f ∈ need) :
    Balanced s slots (desired.insert f) where
  sound slot hmem := (h.sound slot hmem).mono fun _ hg => OrderedSet.mem_insert.2 (.inl hg)
  wanted g hg := by
    rcases OrderedSet.mem_insert.1 hg with hg | rfl
    · exact h.wanted g hg
    · obtain ⟨need, hneed, hg⟩ := hf
      obtain ⟨slot, hmem, hn, rfl⟩ := mem_openNeeds.1 hneed
      exact ⟨slot, hmem, (h.sound slot hmem).asks_of_none hn, hg⟩

theorem greedy_ok (h : Balanced s slots desired) :
    Balanced s (greedy slots desired).1 (greedy slots desired).2 ∧
      needsOf (greedy slots desired).1 = needsOf slots := by
  fun_induction greedy slots desired with
  | case1 slots desired hnone => exact ⟨h, rfl⟩
  | case2 slots desired f hbest ih =>
    obtain ⟨hb, hn⟩ := ih (settleAll_ok (h.insert (best?_mem hbest)))
    exact ⟨hb, hn.trans (needsOf_settleAll _ _)⟩

/-! ## Giving up choices -/

theorem sound_reassign (h : Sound s desired slot) (hs : canSpare desired f slot = true) :
    Sound s (desired.erase f) ⟨slot.need, reassign desired f slot⟩ := by
  unfold reassign
  split
  · rename_i hc
    obtain ⟨ha, -, -⟩ := h.of_chosen hc
    simp only [canSpare, reassign, hc, bne_self_eq_false, Bool.false_or, if_true,
      Option.isSome_map] at hs
    obtain ⟨g, hg⟩ := Option.isSome_iff_exists.1 hs
    have hp := List.find?_some hg
    simp only [ne_eq, decide_not, Bool.and_eq_true, Bool.not_eq_true', decide_eq_false_iff_not,
      OrderedSet.contains_eq_true] at hp
    rw [hg]
    exact .served ha (List.mem_of_find?_eq_some hg) (OrderedSet.mem_erase.2 ⟨hp.2, hp.1⟩)
  · rename_i hc
    cases h with
    | free h => exact .free h
    | waiting h => exact .waiting h
    | served h hf hd =>
      exact .served h hf (OrderedSet.mem_erase.2 ⟨hd, fun e => hc (by rw [e])⟩)

theorem needsOf_giveUp (f : FileName) (slots : List Slot) (desired : OrderedSet FileName) :
    needsOf (giveUp f (slots, desired)).1 = needsOf slots := by
  simp only [giveUp]
  split
  · simp [needsOf]
  · rfl

theorem mem_giveUp (hg : g ∈ (giveUp f (slots, desired)).2) : g ∈ desired := by
  simp only [giveUp] at hg
  split at hg
  · exact (OrderedSet.mem_erase.1 hg).1
  · exact hg

/-- A slot keeps a file that is not given up. -/
theorem mem_giveUp_of_chosen (hmem : slot ∈ slots) (ha : slot.assignment = some (.chosen g))
    (hg : g ∈ (giveUp f (slots, desired)).2) : slot ∈ (giveUp f (slots, desired)).1 := by
  simp only [giveUp] at hg ⊢
  split at hg
  · rename_i hall
    rw [if_pos hall]
    have hgf : slot.assignment ≠ some (.chosen f) := fun e => by
      rw [ha] at e
      exact (OrderedSet.mem_erase.1 hg).2 (Assignment.chosen.inj (Option.some.inj e))
    exact List.mem_map.2 ⟨slot, hmem, by rw [reassign, if_neg hgf]⟩
  · rename_i hall
    rw [if_neg hall]
    exact hmem

theorem giveUp_ok (h : Balanced s slots desired) :
    Balanced s (giveUp f (slots, desired)).1 (giveUp f (slots, desired)).2 := by
  have hn := needsOf_giveUp f slots desired
  simp only [giveUp] at hn ⊢
  split
  · rename_i hall
    simp only [hall, if_true] at hn
    refine ⟨fun x hx => ?_, fun g hg => ?_⟩
    · obtain ⟨slot, hmem, rfl⟩ := List.mem_map.1 hx
      exact sound_reassign (h.sound slot hmem) (List.all_eq_true.1 hall slot hmem)
    · exact wanted_congr hn (h.wanted g (OrderedSet.mem_erase.1 hg).1)
  · exact h

theorem mem_prune (hf : f ∈ (prune slots desired).2) : f ∈ desired := by
  unfold prune at hf
  revert hf
  generalize desired.toList = fs
  induction fs with
  | nil => exact id
  | cons g fs ih => exact fun hf => ih (mem_giveUp hf)

theorem mem_prune_of_chosen (hmem : slot ∈ slots) (ha : slot.assignment = some (.chosen f))
    (hf : f ∈ (prune slots desired).2) : slot ∈ (prune slots desired).1 := by
  unfold prune at hf ⊢
  revert hf
  generalize desired.toList = fs
  induction fs with
  | nil => exact fun _ => hmem
  | cons g fs ih => exact fun hf => mem_giveUp_of_chosen (ih (mem_giveUp hf)) ha hf

theorem prune_ok (h : Balanced s slots desired) :
    Balanced s (prune slots desired).1 (prune slots desired).2 ∧
      needsOf (prune slots desired).1 = needsOf slots := by
  unfold prune
  generalize desired.toList = fs
  induction fs with
  | nil => exact ⟨h, rfl⟩
  | cons f fs ih =>
    rw [List.foldr_cons]
    exact ⟨giveUp_ok ih.1, (needsOf_giveUp f _ _).trans ih.2⟩

end Cover

end IncludeAudit
