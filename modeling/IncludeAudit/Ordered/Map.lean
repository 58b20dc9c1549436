/-!
# Maps in insertion order

An `OrderedMap` lists its entries in the order in which their keys were first inserted. `upsert` is
the one operation that writes: it computes the new value of a key from the old one, if there is one,
and `find?_upsert` says that it changes no other key. Erasing keeps the order of the others.
-/

namespace IncludeAudit

/-- Entries whose keys are distinct. -/
structure OrderedMap (κ ν : Type) where
  entries : List (κ × ν)
  nodup : (entries.map Prod.fst).Nodup

namespace OrderedMap

variable {κ ν : Type}

/-- The map without entries. -/
def empty : OrderedMap κ ν :=
  ⟨[], List.nodup_nil⟩

instance : EmptyCollection (OrderedMap κ ν) := ⟨empty⟩

instance : Inhabited (OrderedMap κ ν) := ⟨empty⟩

/-- The keys, in order. -/
def keys (m : OrderedMap κ ν) : List κ :=
  m.entries.map Prod.fst

/-- The values, in the order of their keys. -/
def values (m : OrderedMap κ ν) : List ν :=
  m.entries.map Prod.snd

/-- The number of entries. -/
def size (m : OrderedMap κ ν) : Nat :=
  m.entries.length

variable [DecidableEq κ]

/-- The value of a key. -/
def find? (m : OrderedMap κ ν) (k : κ) : Option ν :=
  m.entries.lookup k

/-- True of the keys. -/
def contains (m : OrderedMap κ ν) (k : κ) : Bool :=
  (m.find? k).isSome

/-- The place of a key among the keys. -/
def indexOf? (m : OrderedMap κ ν) (k : κ) : Option Nat :=
  m.keys.idxOf? k

/-- Applies `f` to the values of the entries with key `k`. -/
def adjustEntries (k : κ) (f : ν → ν) (entries : List (κ × ν)) : List (κ × ν) :=
  entries.map fun e => if e.1 = k then (e.1, f e.2) else e

theorem keys_adjustEntries (k : κ) (f : ν → ν) (entries : List (κ × ν)) :
    (adjustEntries k f entries).map Prod.fst = entries.map Prod.fst := by
  simp only [adjustEntries, List.map_map]
  refine List.map_congr_left fun e _ => ?_
  simp only [Function.comp_apply]
  split <;> rfl

/-- Writes the value of a key, computed from its present value. -/
def upsert (m : OrderedMap κ ν) (k : κ) (f : Option ν → ν) : OrderedMap κ ν :=
  if h : k ∈ m.entries.map Prod.fst then
    ⟨adjustEntries k (fun v => f (some v)) m.entries, by rw [keys_adjustEntries]; exact m.nodup⟩
  else
    ⟨m.entries ++ [(k, f none)], by
      rw [List.map_append, List.nodup_append]
      refine ⟨m.nodup, by simp, fun x hx y hy => ?_⟩
      have hy : y = k := by simpa using hy
      exact fun e => h (hy ▸ e ▸ hx)⟩

/-- Writes the value of a key. -/
def set (m : OrderedMap κ ν) (k : κ) (v : ν) : OrderedMap κ ν :=
  m.upsert k fun _ => v

/-- Writes the value of a key that has none. -/
def setIfAbsent (m : OrderedMap κ ν) (k : κ) (v : ν) : OrderedMap κ ν :=
  m.upsert k fun old => old.getD v

/-- Adds an element at the end of the list of a key, unless the list has it. -/
def addTo {α : Type} [DecidableEq α] (m : OrderedMap κ (List α)) (k : κ) (a : α) :
    OrderedMap κ (List α) :=
  m.upsert k fun old => if a ∈ old.getD [] then old.getD [] else old.getD [] ++ [a]

/-- Takes the entry of a key out. -/
def erase (m : OrderedMap κ ν) (k : κ) : OrderedMap κ ν :=
  ⟨m.entries.filter (·.1 ≠ k), (List.filter_sublist.map Prod.fst).nodup m.nodup⟩

theorem lookup_eq_none {entries : List (κ × ν)} {k : κ} :
    entries.lookup k = none ↔ k ∉ entries.map Prod.fst := by
  induction entries with
  | nil => simp
  | cons e entries ih =>
    obtain ⟨a, v⟩ := e
    by_cases h : k = a
    · simp [h]
    · have h' : (k == a) = false := by simpa using h
      simp [List.lookup_cons, h', h, ih]

theorem lookup_adjustEntries (k j : κ) (f : ν → ν) (entries : List (κ × ν)) :
    (adjustEntries k f entries).lookup j =
      if j = k then (entries.lookup j).map f else entries.lookup j := by
  induction entries with
  | nil => simp [adjustEntries]
  | cons e entries ih =>
    obtain ⟨a, v⟩ := e
    simp only [adjustEntries, List.map_cons] at ih ⊢
    by_cases ha : a = k
    · subst ha
      by_cases hj : j = a
      · subst hj; simp
      · have hj' : (j == a) = false := by simpa using hj
        rw [if_neg hj] at ih ⊢
        rw [if_pos rfl]
        simp only [List.lookup_cons, hj']
        exact ih
    · rw [if_neg ha]
      by_cases hj : j = a
      · subst hj; simp [ha]
      · have hj' : (j == a) = false := by simpa using hj
        simp only [List.lookup_cons, hj']
        exact ih

theorem find?_upsert (m : OrderedMap κ ν) (k j : κ) (f : Option ν → ν) :
    (m.upsert k f).find? j = if j = k then some (f (m.find? k)) else m.find? j := by
  unfold upsert find?
  split
  · rename_i h
    rw [lookup_adjustEntries]
    split
    · rename_i hj
      subst hj
      cases hl : m.entries.lookup j with
      | none => exact absurd h (lookup_eq_none.1 hl)
      | some v => rfl
    · rfl
  · rename_i h
    simp only [List.lookup_append]
    have hk : m.entries.lookup k = none := lookup_eq_none.2 h
    by_cases hj : j = k
    · subst hj; simp [hk]
    · have hj' : (j == k) = false := by simpa using hj
      simp [List.lookup_cons, hj', hj]

theorem contains_upsert {m : OrderedMap κ ν} {k j : κ} {f : Option ν → ν} :
    (m.upsert k f).contains j = true ↔ j = k ∨ m.contains j = true := by
  rw [contains, find?_upsert]
  split
  · rename_i hj
    simp [hj]
  · rename_i hj
    simp [hj, contains]

theorem contains_eq_true {m : OrderedMap κ ν} {k : κ} : m.contains k = true ↔ k ∈ m.keys := by
  rw [contains, Option.isSome_iff_ne_none, find?, Ne, lookup_eq_none, Decidable.not_not, keys]

theorem contains_erase {m : OrderedMap κ ν} {k j : κ} :
    (m.erase k).contains j = true ↔ j ≠ k ∧ m.contains j = true := by
  simp only [contains_eq_true, keys, erase, List.mem_map, List.mem_filter, decide_eq_true_eq]
  constructor
  · rintro ⟨e, ⟨he, hne⟩, rfl⟩
    exact ⟨hne, e, he, rfl⟩
  · rintro ⟨hne, e, he, rfl⟩
    exact ⟨e, ⟨he, hne⟩, rfl⟩

theorem mem_values_of_find? {m : OrderedMap κ ν} {k : κ} {v : ν} (h : m.find? k = some v) :
    v ∈ m.values := by
  obtain ⟨before, after, hentries, -⟩ := List.lookup_eq_some_iff.1 h
  rw [values, hentries]
  simp

end OrderedMap

end IncludeAudit
