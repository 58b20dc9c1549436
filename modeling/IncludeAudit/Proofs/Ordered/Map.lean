import IncludeAudit.Ordered.Map
import Mathlib.Data.List.Nodup

/-!
# Places in an ordered map

The keys of an ordered map are distinct, so the entry of a key can be found by looking for it, by its
place, or by membership (`lookup_eq_some_iff_mem`, `indexOf?_eq_some`, `find?_eq_indexOf?`). Writing
keeps every entry in its place (`getElem?_upsert`), and only the last value of a key is kept
(`upsert_upsert`).
-/

namespace IncludeAudit

theorem mem_of_lookup_eq_some {κ ν : Type} [DecidableEq κ] {entries : List (κ × ν)} {k : κ} {v : ν}
    (h : entries.lookup k = some v) : (k, v) ∈ entries := by
  obtain ⟨before, after, hentries, -⟩ := List.lookup_eq_some_iff.1 h
  rw [hentries]
  exact List.mem_append_right _ List.mem_cons_self

/-- With distinct keys, what is looked up is what is listed. -/
theorem lookup_eq_some_iff_mem {κ ν : Type} [DecidableEq κ] {entries : List (κ × ν)} {k : κ} {v : ν}
    (hnodup : (entries.map (·.1)).Nodup) : entries.lookup k = some v ↔ (k, v) ∈ entries := by
  refine ⟨mem_of_lookup_eq_some, fun hmem => ?_⟩
  obtain ⟨w, hw⟩ := Option.isSome_iff_exists.1
    (List.lookup_isSome_iff.2 ⟨(k, v), hmem, beq_self_eq_true k⟩)
  cases List.inj_on_of_nodup_map hnodup (mem_of_lookup_eq_some hw) hmem rfl
  exact hw

namespace OrderedMap

variable {κ ν : Type} [DecidableEq κ] {m m' : OrderedMap κ ν} {k j : κ} {v : ν} {i : Nat}

theorem find?_eq_some : m.find? k = some v ↔ (k, v) ∈ m.entries :=
  lookup_eq_some_iff_mem m.nodup

/-- The place of a key is the only one that has it. -/
theorem indexOf?_eq_some : m.indexOf? k = some i ↔ ∃ v, m.entries[i]? = some (k, v) := by
  rw [indexOf?, List.idxOf?_eq_some_iff]
  constructor
  · rintro ⟨hi, hkey, -⟩
    have hi' : i < m.entries.length := by simpa [keys] using hi
    refine ⟨m.entries[i].2, ?_⟩
    rw [List.getElem?_eq_getElem hi', ← hkey]
    simp [keys]
  · rintro ⟨v, hentry⟩
    obtain ⟨hi, hentry⟩ := List.getElem?_eq_some_iff.1 hentry
    have hi' : i < m.keys.length := by simpa [keys] using hi
    have hkey : m.keys[i] = k := by simp [keys, hentry]
    refine ⟨hi', hkey, fun n hn hsame => ?_⟩
    have : n = i := (List.Nodup.getElem_inj_iff m.nodup).1 (hsame.trans hkey.symm)
    omega

theorem find?_eq_indexOf? (m : OrderedMap κ ν) (k : κ) :
    m.find? k = (m.indexOf? k).bind fun i => m.entries[i]?.map Prod.snd := by
  ext v
  simp only [find?_eq_some, Option.bind_eq_some_iff, indexOf?_eq_some, Option.map_eq_some_iff]
  constructor
  · intro hmem
    obtain ⟨i, hi⟩ := List.getElem?_of_mem hmem
    exact ⟨i, ⟨v, hi⟩, _, hi, rfl⟩
  · rintro ⟨i, ⟨w, hw⟩, e, he, rfl⟩
    rw [hw, Option.some.injEq] at he
    rw [← he]
    exact List.mem_of_getElem? hw

theorem isSome_indexOf? (m : OrderedMap κ ν) (k : κ) : (m.indexOf? k).isSome = m.contains k := by
  rw [contains, find?_eq_indexOf?]
  cases hplace : m.indexOf? k with
  | none => rfl
  | some i =>
    obtain ⟨v, hentry⟩ := indexOf?_eq_some.1 hplace
    simp [hentry]

/-- Writing a key keeps all entries in their places, and their values but that of the key. -/
theorem getElem?_upsert (f : Option ν → ν) (h : m.entries[i]? = some (j, v)) :
    (m.upsert k f).entries[i]? = some (j, if j = k then f (some v) else v) := by
  unfold upsert
  split
  · simp only [adjustEntries, List.getElem?_map, h, Option.map_some]
    split <;> rfl
  · rename_i hk
    have hi : i < m.entries.length := (List.getElem?_eq_some_iff.1 h).1
    have hj : j ≠ k := by
      rintro rfl
      exact hk (List.mem_map_of_mem (f := Prod.fst) (List.mem_of_getElem? h))
    rw [List.getElem?_append_left hi, h, if_neg hj]

/-- What the lists of a map hold after an element was added to one of them. -/
theorem mem_addTo {α : Type} [DecidableEq α] {m : OrderedMap κ (List α)} {a b : α} :
    b ∈ ((m.addTo k a).find? j).getD [] ↔ b ∈ (m.find? j).getD [] ∨ (j = k ∧ b = a) := by
  rw [addTo, find?_upsert]
  split
  · rename_i hj
    subst hj
    rw [Option.getD_some, and_iff_right rfl]
    split
    · rename_i hknown
      refine (or_iff_left_of_imp ?_).symm
      rintro rfl
      exact hknown
    · rw [List.mem_append, List.mem_singleton]
  · rename_i hj
    exact (or_iff_left fun h => hj h.1).symm

/-! ## Writing again -/

omit [DecidableEq κ] in
theorem eq_of_entries (h : m.entries = m'.entries) : m = m' := by
  cases m
  cases m'
  cases h
  rfl

theorem entries_upsert_of_mem (f : Option ν → ν) (h : k ∈ m.keys) :
    (m.upsert k f).entries = adjustEntries k (fun v => f (some v)) m.entries := by
  rw [upsert, dif_pos (show k ∈ m.entries.map Prod.fst from h)]

theorem entries_upsert_of_notMem (f : Option ν → ν) (h : k ∉ m.keys) :
    (m.upsert k f).entries = m.entries ++ [(k, f none)] := by
  rw [upsert, dif_neg (show k ∉ m.entries.map Prod.fst from h)]

/-- Writing the value that a key has changes nothing. -/
theorem upsert_eq_self {f : Option ν → ν} (h : m.find? k = some v) (hf : f (some v) = v) :
    m.upsert k f = m := by
  have hmem : (k, v) ∈ m.entries := find?_eq_some.1 h
  refine eq_of_entries ?_
  rw [entries_upsert_of_mem f (List.mem_map_of_mem hmem), adjustEntries]
  refine (List.map_congr_left fun e he => ?_).trans m.entries.map_id
  split
  · rename_i hkey
    cases List.inj_on_of_nodup_map m.nodup he hmem hkey
    exact Prod.ext rfl hf
  · rfl

/-- Writing a key twice is writing it once. -/
theorem upsert_upsert (m : OrderedMap κ ν) (k : κ) (f g : Option ν → ν) :
    (m.upsert k f).upsert k g = m.upsert k fun old => g (some (f old)) := by
  have hk : k ∈ (m.upsert k f).keys := contains_eq_true.1 (contains_upsert.2 (.inl rfl))
  refine eq_of_entries ?_
  rw [entries_upsert_of_mem g hk]
  by_cases h : k ∈ m.keys
  · rw [entries_upsert_of_mem f h, entries_upsert_of_mem _ h]
    simp only [adjustEntries, List.map_map]
    refine List.map_congr_left fun e _ => ?_
    by_cases hkey : e.1 = k <;> simp [hkey]
  · have hothers : m.entries.map (fun e => if e.1 = k then (e.1, g (some e.2)) else e) = m.entries :=
      (List.map_congr_left fun e he => if_neg fun hkey => h (List.mem_map.2 ⟨e, he, hkey⟩)).trans
        m.entries.map_id
    rw [entries_upsert_of_notMem f h, entries_upsert_of_notMem _ h, adjustEntries, List.map_append,
      hothers, List.map_singleton, if_pos rfl]

/-- Changing what stands at the place of a key changes what is seen of its entry. -/
theorem modify_map {α : Type} {change : α → α} {view view' : κ × ν → α}
    (hi : m.indexOf? k = some i)
    (h : ∀ e ∈ m.entries, view' e = if e.1 = k then change (view e) else view e) :
    (m.entries.map view).modify i change = m.entries.map view' := by
  obtain ⟨v, hv⟩ := indexOf?_eq_some.1 hi
  refine List.ext_getElem? fun n => ?_
  rw [List.getElem?_modify, List.getElem?_map, List.getElem?_map]
  cases he : m.entries[n]? with
  | none => rfl
  | some e =>
    have hplace : i = n ↔ e.1 = k := by
      constructor
      · rintro rfl
        rw [hv, Option.some.injEq] at he
        rw [← he]
      · rintro rfl
        have hn : m.indexOf? e.1 = some n := indexOf?_eq_some.2 ⟨e.2, he⟩
        rw [hi, Option.some.injEq] at hn
        exact hn
    rw [Option.map_some, Option.map_some, h e (List.mem_of_getElem? he), Option.map_eq_map,
      Option.map_some]
    by_cases hkey : e.1 = k
    · rw [if_pos hkey, if_pos (hplace.2 hkey)]
    · rw [if_neg hkey, if_neg (mt hplace.1 hkey)]

end OrderedMap

end IncludeAudit
