import Mathlib.Data.List.Forall2

/-!
# Results and lists

General facts that the library lacks, about computations that may fail and about lists.

* `bind_ok`, `bind_error`: a computation in two steps;
* `forall₂_exists_left`, `forall₂_mem`, `forall₂_and`, `forall₂_comp`: lists that correspond element
  by element;
* `filterMap_append_perm`: two choices from one list;
* `eraseDups_removeAll_append`: what a list adds to known elements;
* `filter_mergeSort`: in a stable sort, picking out and sorting can be exchanged.
-/

namespace IncludeAudit

/-! ## Results -/

section Results

variable {ε α β : Type} {x : Except ε α} {next : α → Except ε β} {b : β} {e : ε}

theorem bind_ok (h : x >>= next = .ok b) : ∃ a, x = .ok a ∧ next a = .ok b := by
  cases x with
  | error => cases h
  | ok a => exact ⟨a, rfl, h⟩

/-- If the second step does not fail, the first one did. -/
theorem bind_error (h : x >>= next = .error e) (hnext : ∀ a, next a ≠ .error e) :
    x = .error e := by
  cases x with
  | error =>
    cases h
    rfl
  | ok a => exact absurd h (hnext a)

/-- A result that is checked is there. -/
theorem exists_ok {p : α → Bool} (h : x.toOption.any p = true) : ∃ a, x = .ok a ∧ p a = true := by
  cases x with
  | error => cases h
  | ok a => exact ⟨a, rfl, h⟩

end Results

/-! ## Corresponding lists -/

section Correspondence

variable {α β γ : Type} {R : α → β → Prop} {S : β → γ → Prop} {as : List α} {bs : List β}
  {cs : List γ}

theorem forall₂_exists_left (h : List.Forall₂ R as bs) : ∀ b ∈ bs, ∃ a ∈ as, R a b := by
  induction h with
  | nil => exact fun b hb => absurd hb List.not_mem_nil
  | cons hab _ ih =>
    refine List.forall_mem_cons.2 ⟨⟨_, List.mem_cons_self, hab⟩, fun b hb => ?_⟩
    obtain ⟨a, ha, hr⟩ := ih b hb
    exact ⟨a, List.mem_cons_of_mem _ ha, hr⟩

theorem forall₂_exists_right (h : List.Forall₂ R as bs) : ∀ a ∈ as, ∃ b ∈ bs, R a b :=
  forall₂_exists_left h.flip

/-- Related elements are elements of the two lists. -/
theorem forall₂_mem (h : List.Forall₂ R as bs) :
    List.Forall₂ (fun a b => a ∈ as ∧ b ∈ bs ∧ R a b) as bs := by
  have hleft := (List.forall₂_and_left as bs).2 ⟨fun a ha => ha, h⟩
  have hright := (List.forall₂_and_left bs as).2 ⟨fun b hb => hb, hleft.flip⟩
  exact hright.flip.imp fun a b ⟨hb, ha, hr⟩ => ⟨ha, hb, hr⟩

theorem forall₂_and {R' : α → β → Prop} (h : List.Forall₂ R as bs) (h' : List.Forall₂ R' as bs) :
    List.Forall₂ (fun a b => R a b ∧ R' a b) as bs := by
  induction h with
  | nil => exact .nil
  | cons hab _ ih =>
    cases h' with
    | cons hab' h' => exact .cons ⟨hab, hab'⟩ (ih h')

theorem forall₂_comp (h : List.Forall₂ R as bs) (h' : List.Forall₂ S bs cs) :
    List.Forall₂ (fun a c => ∃ b, R a b ∧ S b c) as cs := by
  induction h generalizing cs with
  | nil =>
    cases h'
    exact .nil
  | cons hab _ ih =>
    cases h' with
    | cons hbc h' => exact .cons ⟨_, hab, hbc⟩ (ih h')

end Correspondence

/-! ## Choices -/

theorem filterMap_singleton {α β : Type} (p : α → Option β) (a : α) :
    [a].filterMap p = (p a).toList := by
  rw [List.filterMap_eq_flatMap_toList, List.flatMap_singleton]

/-- Two choices that never meet may be made element by element. The induction is on the list. -/
theorem filterMap_append_perm {α β : Type} {p q : α → Option β} {as : List α}
    (h : ∀ a ∈ as, p a = none ∨ q a = none) :
    (as.filterMap p ++ as.filterMap q).Perm (as.filterMap fun a => (p a).or (q a)) := by
  induction as with
  | nil => exact .nil
  | cons a as ih =>
    obtain ⟨ha, has⟩ := List.forall_mem_cons.1 h
    simp only [List.filterMap_cons]
    cases hp : p a with
    | none =>
      cases hq : q a with
      | none => exact ih has
      | some b => exact List.perm_middle.trans ((ih has).cons b)
    | some b =>
      rw [hp] at ha
      rw [ha.resolve_left (Option.some_ne_none b)]
      exact (ih has).cons b

/-! ## New elements -/

section New

variable {α : Type} [BEq α]

/-- What is new in two lists, the first one before the second. -/
theorem eraseDups_removeAll_append [LawfulBEq α] (known as bs : List α) :
    ((as ++ bs).removeAll known).eraseDups = (as.removeAll known).eraseDups ++
      (bs.removeAll (known ++ (as.removeAll known).eraseDups)).eraseDups := by
  have hrest : (bs.removeAll known).removeAll (as.removeAll known) =
      bs.removeAll (known ++ (as.removeAll known).eraseDups) := by
    simp only [List.removeAll, List.filter_filter]
    refine List.filter_congr fun x _ => ?_
    rw [Bool.eq_iff_iff]
    simp [List.mem_eraseDups, and_comm]
  have happend : (as ++ bs).removeAll known = as.removeAll known ++ bs.removeAll known :=
    List.filter_append ..
  rw [happend, List.eraseDups_append, hrest]

theorem eraseDups_removeAll_toList (known : List α) (a? : Option α) :
    (a?.toList.removeAll known).eraseDups = a?.toList.removeAll known := by
  cases a? with
  | none => rfl
  | some a => by_cases h : known.elem a <;> simp [List.removeAll, h, List.eraseDups_cons]

end New

/-! ## Stable sorting -/

section Stable

variable {α : Type} {le : α → α → Bool}

/-- The elements in front of the first one that does not precede `a`. -/
theorem takeWhile_split {a : α} {l₁ l₂ : List α} (h₁ : ∀ b ∈ l₁, (!le a b) = true)
    (h₂ : ∀ b ∈ l₂, le a b = true) : (l₁ ++ l₂).takeWhile (fun b => !le a b) = l₁ := by
  rw [List.takeWhile_append_of_pos h₁]
  cases l₂ with
  | nil => simp
  | cons b l₂ => simp [h₂ b List.mem_cons_self]

variable (trans : ∀ a b c, le a b = true → le b c = true → le a c = true)
  (total : ∀ a b, (le a b || le b a) = true)

include trans total

/-- The first element stands in the sorted list after those that precede it strictly. -/
theorem mergeSort_cons_split (a : α) (l : List α) :
    ∃ l₁ l₂, (a :: l).mergeSort le = l₁ ++ a :: l₂ ∧ l.mergeSort le = l₁ ++ l₂ ∧
      (∀ b ∈ l₁, (!le a b) = true) ∧ ∀ b ∈ l₂, le a b = true := by
  obtain ⟨l₁, l₂, hcons, hrest, hbefore⟩ := List.mergeSort_cons trans total a l
  have hsorted := List.pairwise_mergeSort trans total (a :: l)
  rw [hcons] at hsorted
  exact ⟨l₁, l₂, hcons, hrest, hbefore,
    (List.pairwise_cons.1 (List.pairwise_append.1 hsorted).2.1).1⟩

/-- Two elements of which the second precedes the first strictly are exchanged. -/
theorem mergeSort_pair {a b : α} (h : le a b = false) : [a, b].mergeSort le = [b, a] := by
  obtain ⟨l₁, l₂, hcons, hrest, -, hafter⟩ := mergeSort_cons_split trans total a [b]
  rw [List.mergeSort_singleton, List.singleton_eq_append_iff] at hrest
  rcases hrest with ⟨rfl, rfl⟩ | ⟨rfl, rfl⟩
  · rw [hafter b List.mem_cons_self] at h
    cases h
  · exact hcons

/-- The induction is on the list. What stands in front of its first element, once sorted, stands in
front of it in the list of what is picked out as well. -/
theorem filter_mergeSort (p : α → Bool) (l : List α) :
    (l.mergeSort le).filter p = (l.filter p).mergeSort le := by
  induction l with
  | nil => simp
  | cons a l ih =>
    obtain ⟨l₁, l₂, hcons, hrest, hbefore, hafter⟩ := mergeSort_cons_split trans total a l
    rw [hrest, List.filter_append] at ih
    cases hp : p a with
    | false => rw [hcons, List.filter_append, List.filter_cons_of_neg (by simp [hp]), ih,
        List.filter_cons_of_neg (by simp [hp])]
    | true =>
      obtain ⟨m₁, m₂, hcons', hrest', hbefore', hafter'⟩ :=
        mergeSort_cons_split trans total a (l.filter p)
      have happend : l₁.filter p ++ l₂.filter p = m₁ ++ m₂ := ih.trans hrest'
      have hfront : l₁.filter p = m₁ := by
        rw [← takeWhile_split (fun b hb => hbefore b (List.mem_filter.1 hb).1)
          (fun b hb => hafter b (List.mem_filter.1 hb).1), happend,
          takeWhile_split hbefore' hafter']
      rw [hfront] at happend
      rw [hcons, List.filter_cons_of_pos hp, hcons', List.filter_append, hfront,
        List.filter_cons_of_pos hp, List.append_cancel_left happend]

end Stable

end IncludeAudit
