import IncludeAudit.Text.Affix
import IncludeAudit.Text.Blank
import Mathlib.Data.List.DropRight

/-!
# Endings and blanks of a text

A list of endings is tried in turn and the first that fits is dropped. Where none of them ends with
another one, a text has one of them at most, and the order in which they are tried does not matter.

* `dropAny_append`: an ending that was added is the one that is dropped;
* `trim_eq_iff`: what trimming leaves is the text between the blanks at its ends;
* `trim_eq_nil`: nothing is left of a blank text alone.
-/

namespace IncludeAudit.Text

variable {cs core right : List Char}
variable {endings : List (List Char)} {a b ending stem name : List Char}

/-! ## Endings -/

/-- None of the endings ends with another one. -/
def SuffixFree (endings : List (List Char)) : Prop :=
  ∀ a ∈ endings, ∀ b ∈ endings, a <:+ b → a = b

instance : Decidable (SuffixFree endings) :=
  inferInstanceAs (Decidable (∀ a ∈ endings, ∀ b ∈ endings, a <:+ b → a = b))

theorem dropEnd?_eq_none : dropEnd? ending name = none ↔ ¬ ending <:+ name := by
  rw [Option.eq_none_iff_forall_ne_some]
  constructor
  · rintro h ⟨rest, rfl⟩
    exact h rest (dropEnd?_eq_some.2 rfl)
  · intro h rest hrest
    exact h ⟨rest, (dropEnd?_eq_some.1 hrest).symm⟩

theorem dropEnd_append : dropEnd ending (stem ++ ending) = stem := by
  rw [dropEnd, dropEnd?_eq_some.2 rfl, Option.getD_some]

theorem dropEnd_of_not_suffix (h : ¬ ending <:+ name) : dropEnd ending name = name := by
  rw [dropEnd, dropEnd?_eq_none.2 h, Option.getD_none]

/-- A text has at most one of such endings. -/
theorem SuffixFree.eq_of_suffix (free : SuffixFree endings) (ha : a ∈ endings) (hb : b ∈ endings)
    (hna : a <:+ name) (hnb : b <:+ name) : a = b := by
  rcases List.suffix_or_suffix_of_suffix hna hnb with h | h
  · exact free a ha b hb h
  · exact (free b hb a ha h).symm

/-- The text without the first of the endings that it has. -/
def dropAny (endings : List (List Char)) (name : List Char) : List Char :=
  (endings.findSome? fun ending => dropEnd? ending name).getD name

theorem dropAny_append (free : SuffixFree endings) (h : ending ∈ endings) :
    dropAny endings (stem ++ ending) = stem := by
  rw [dropAny]
  cases hfind : endings.findSome? fun e => dropEnd? e (stem ++ ending) with
  | none =>
    have hnone := List.findSome?_eq_none_iff.1 hfind ending h
    exact absurd (List.suffix_append stem ending) (dropEnd?_eq_none.1 hnone)
  | some rest =>
    -- What is found may be listed before what was added. Both end the text, so they are the same.
    obtain ⟨found, hfound, hdrop⟩ := List.exists_of_findSome?_eq_some hfind
    have hparts := dropEnd?_eq_some.1 hdrop
    obtain rfl : found = ending :=
      free.eq_of_suffix hfound h ⟨rest, hparts.symm⟩ (List.suffix_append stem ending)
    exact (List.append_cancel_right hparts).symm

theorem dropAny_of_none (h : ∀ ending ∈ endings, ¬ ending <:+ name) :
    dropAny endings name = name := by
  have hnone : endings.findSome? (fun ending => dropEnd? ending name) = none :=
    List.findSome?_eq_none_iff.2 fun ending hmem => dropEnd?_eq_none.2 (h ending hmem)
  rw [dropAny, hnone, Option.getD_none]

/-! ## Trimming -/

/-- `core` is what `cs` has between the blanks at its two ends. -/
structure IsCore (cs core : List Char) : Prop where
  around : ∃ left right, cs = left ++ core ++ right ∧ ∀ c ∈ left ++ right, isBlank c = true
  first : ∀ c ∈ core.head?, isBlank c = false
  last : ∀ c ∈ core.getLast?, isBlank c = false

theorem trimEnd_eq_rdropWhile : trimEnd cs = cs.rdropWhile isBlank :=
  rfl

/-- A text that does not end with a blank stays when blanks after it are dropped. -/
theorem trimEnd_append (h : ∀ c ∈ core.getLast?, isBlank c = false)
    (hright : ∀ c ∈ right, isBlank c = true) : trimEnd (core ++ right) = core := by
  have hreverse : ∀ c ∈ right.reverse, isBlank c = true := fun c hc =>
    hright c (List.mem_reverse.1 hc)
  rw [trimEnd, List.reverse_append, List.dropWhile_append_of_pos hreverse]
  rcases List.eq_nil_or_concat' core with rfl | ⟨init, c, rfl⟩
  · rfl
  · have hc : isBlank c = false := h c List.getLast?_concat
    rw [List.reverse_concat, List.dropWhile_cons_of_neg (by simp [hc]), List.reverse_cons,
      List.reverse_reverse]

theorem isCore_trim : IsCore cs (trim cs) where
  around := by
    refine ⟨cs.takeWhile isBlank, (cs.dropWhile isBlank).rtakeWhile isBlank, ?_, fun c hc => ?_⟩
    · rw [trim, trimEnd_eq_rdropWhile, List.append_assoc, List.rdropWhile_append_rtakeWhile,
        List.takeWhile_append_dropWhile]
    · rcases List.mem_append.1 hc with hc | hc
      · exact List.mem_takeWhile_imp hc
      · exact List.mem_rtakeWhile_imp hc
  first c hc := by
    have hprefix : trim cs <+: cs.dropWhile isBlank := List.rdropWhile_prefix isBlank _
    obtain ⟨rest, hrest⟩ := hprefix
    have hhead : (cs.dropWhile isBlank).head? = some c := by
      rw [← hrest, List.head?_append, hc, Option.some_or]
    have hnot := List.head?_dropWhile_not isBlank cs
    rwa [hhead] at hnot
  last c hc := by
    have hne : trim cs ≠ [] := fun h => by simp [h] at hc
    have hlast := List.rdropWhile_last_not isBlank (cs.dropWhile isBlank) hne
    rw [List.getLast?_eq_some_getLast hne, Option.mem_some_iff] at hc
    rw [← hc]
    exact Bool.eq_false_iff.2 hlast

theorem IsCore.trim_eq (h : IsCore cs core) : trim cs = core := by
  obtain ⟨left, right, rfl, hblank⟩ := h.around
  have hleft : ∀ c ∈ left, isBlank c = true := fun c hc =>
    hblank c (List.mem_append_left _ hc)
  have hright : ∀ c ∈ right, isBlank c = true := fun c hc =>
    hblank c (List.mem_append_right _ hc)
  rw [trim, List.append_assoc, List.dropWhile_append_of_pos hleft]
  cases core with
  | nil => rw [List.nil_append, List.dropWhile_eq_nil_iff.2 hright]; rfl
  | cons c core =>
    have hc : isBlank c = false := h.first c rfl
    rw [List.cons_append, List.dropWhile_cons_of_neg (by simp [hc]), ← List.cons_append]
    exact trimEnd_append h.last hright

theorem trim_eq_iff : trim cs = core ↔ IsCore cs core :=
  ⟨fun h => h ▸ isCore_trim, IsCore.trim_eq⟩

theorem trim_eq_nil : trim cs = [] ↔ ∀ c ∈ cs, isBlank c = true := by
  rw [trim_eq_iff]
  constructor
  · intro h
    obtain ⟨left, right, rfl, hblank⟩ := h.around
    rwa [List.append_nil]
  · intro h
    exact ⟨⟨cs, [], by simp, by simpa using h⟩, by simp, by simp⟩

end IncludeAudit.Text
