import IncludeAudit.Line.Order
import IncludeAudit.Proofs.General

/-!
# Sorted lines

Lines are sorted by a stable sort, so lines that are picked out of a sorted list stand in the order
in which they would be sorted by themselves.

* `pairwise_sort`, `filter_sort`: the lines that are written;
* `pairwise_standsBefore`: the lines that stand in the file.
-/

namespace IncludeAudit

/-! ## Lines that are written -/

namespace LineOrder

variable {o : LineOrder} {a b c : OutputLine}

theorem le_iff :
    o.le a b = true ↔ o.group a < o.group b ∨ o.group a = o.group b ∧ a.text ≤ b.text := by
  simp [le]

theorem le_trans (o : LineOrder) (a b c : OutputLine) (hab : o.le a b = true)
    (hbc : o.le b c = true) : o.le a c = true := by
  rw [le_iff] at hab hbc ⊢
  rcases hab with hab | ⟨hab, hat⟩ <;> rcases hbc with hbc | ⟨hbc, hbt⟩
  · exact .inl (Nat.lt_trans hab hbc)
  · exact .inl (hbc ▸ hab)
  · exact .inl (hab ▸ hbc)
  · exact .inr ⟨hab.trans hbc, String.le_trans hat hbt⟩

theorem le_total (o : LineOrder) (a b : OutputLine) : (o.le a b || o.le b a) = true := by
  rw [Bool.or_eq_true, le_iff, le_iff]
  rcases Nat.lt_trichotomy (o.group a) (o.group b) with h | h | h
  · exact .inl (.inl h)
  · exact (String.le_total a.text b.text).imp (.inr ⟨h, ·⟩) (.inr ⟨h.symm, ·⟩)
  · exact .inr (.inl h)

theorem pairwise_sort (o : LineOrder) (lines : List OutputLine) :
    (o.sort lines).Pairwise fun a b =>
      o.group a < o.group b ∨ o.group a = o.group b ∧ a.text ≤ b.text :=
  (List.pairwise_mergeSort o.le_trans o.le_total lines).imp le_iff.1

theorem filter_sort (o : LineOrder) (p : OutputLine → Bool) (lines : List OutputLine) :
    (o.sort lines).filter p = o.sort (lines.filter p) :=
  filter_mergeSort o.le_trans o.le_total p lines

theorem sort_pair (h : o.le a b = false) : o.sort [a, b] = [b, a] :=
  mergeSort_pair o.le_trans o.le_total h

theorem sort_perm (o : LineOrder) (lines : List OutputLine) : (o.sort lines).Perm lines :=
  List.mergeSort_perm _ _

end LineOrder

/-! ## Lines that stand in the file -/

namespace LineSpan

variable {s t u : LineSpan}

theorem le_iff : s.le t = true ↔ s.first < t.first ∨ s.first = t.first ∧ s.last ≤ t.last := by
  simp [le]

theorem le_trans (hst : s.le t = true) (htu : t.le u = true) : s.le u = true := by
  rw [le_iff] at hst htu ⊢
  omega

theorem le_total (s t : LineSpan) : s.le t = true ∨ t.le s = true := by
  rw [le_iff, le_iff]
  omega

end LineSpan

namespace OutputLine

theorem standsBefore_trans (a b c : OutputLine) (hab : a.standsBefore b = true)
    (hbc : b.standsBefore c = true) : a.standsBefore c = true := by
  unfold standsBefore at *
  cases ha : a.lines with
  | none => rfl
  | some s =>
    cases hb : b.lines with
    | none => simp [ha, hb] at hab
    | some t =>
      cases hc : c.lines with
      | none => simp [hb, hc] at hbc
      | some u =>
        simp only [ha, hb, hc] at hab hbc ⊢
        exact LineSpan.le_trans hab hbc

theorem standsBefore_total (a b : OutputLine) :
    (a.standsBefore b || b.standsBefore a) = true := by
  unfold standsBefore
  cases a.lines with
  | none => rfl
  | some s =>
    cases b.lines with
    | none => rfl
    | some t => simpa using LineSpan.le_total s t

/-- Lines that stand in the file are sorted by where they stand. -/
theorem pairwise_standsBefore {lines : List OutputLine}
    (h : ∀ l ∈ lines, l.lines.isSome = true) :
    (lines.mergeSort standsBefore).Pairwise fun a b => ∃ s t, a.lines = some s ∧ b.lines = some t ∧
      (s.first < t.first ∨ s.first = t.first ∧ s.last ≤ t.last) := by
  refine (List.pairwise_mergeSort standsBefore_trans standsBefore_total lines).imp_of_mem ?_
  intro a b ha hb hab
  obtain ⟨s, hs⟩ := Option.isSome_iff_exists.1 (h a (List.mem_mergeSort.1 ha))
  obtain ⟨t, ht⟩ := Option.isSome_iff_exists.1 (h b (List.mem_mergeSort.1 hb))
  refine ⟨s, t, hs, ht, LineSpan.le_iff.1 ?_⟩
  simpa only [standsBefore, hs, ht] using hab

end OutputLine

end IncludeAudit
