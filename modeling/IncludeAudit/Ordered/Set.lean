/-!
# Sets in insertion order

An `OrderedSet` lists its members in the order in which they were first inserted. Erasing a member
keeps the order of the others. `mem_insert`, `mem_erase` and `mem_union` say which members each
operation leaves.
-/

namespace IncludeAudit

/-- A list without repetitions, read as a set. -/
structure OrderedSet (α : Type) where
  toList : List α
  nodup : toList.Nodup

namespace OrderedSet

variable {α : Type}

/-- The empty set. -/
def empty : OrderedSet α :=
  ⟨[], List.nodup_nil⟩

instance : EmptyCollection (OrderedSet α) := ⟨empty⟩

instance : Inhabited (OrderedSet α) := ⟨empty⟩

instance : Membership α (OrderedSet α) := ⟨fun s a => a ∈ s.toList⟩

theorem mem_def {s : OrderedSet α} {a : α} : a ∈ s ↔ a ∈ s.toList :=
  Iff.rfl

theorem not_mem_empty {b : α} : ¬ b ∈ (empty : OrderedSet α) :=
  List.not_mem_nil

/-- The members with a property. -/
def filter (p : α → Bool) (s : OrderedSet α) : OrderedSet α :=
  ⟨s.toList.filter p, s.nodup.filter _⟩

theorem mem_filter {p : α → Bool} {s : OrderedSet α} {b : α} :
    b ∈ s.filter p ↔ b ∈ s ∧ p b = true := by
  simp [filter, mem_def]

variable [DecidableEq α]

instance (a : α) (s : OrderedSet α) : Decidable (a ∈ s) :=
  inferInstanceAs (Decidable (a ∈ s.toList))

/-- True of the members. -/
def contains (s : OrderedSet α) (a : α) : Bool :=
  decide (a ∈ s)

@[simp]
theorem contains_eq_true {s : OrderedSet α} {a : α} : s.contains a = true ↔ a ∈ s := by
  simp [contains]

/-- Adds a member at the end, unless it is one already. -/
def insert (s : OrderedSet α) (a : α) : OrderedSet α :=
  if h : a ∈ s.toList then s
  else
    ⟨s.toList ++ [a], by
      rw [List.nodup_append]
      refine ⟨s.nodup, by simp, fun x hx y hy => ?_⟩
      rw [List.mem_singleton.1 hy]
      exact fun e => h (e ▸ hx)⟩

/-- Takes a member out. -/
def erase (s : OrderedSet α) (a : α) : OrderedSet α :=
  ⟨s.toList.filter (· ≠ a), s.nodup.filter _⟩

/-- Adds the elements of a list, from its beginning. -/
def insertAll (s : OrderedSet α) (as : List α) : OrderedSet α :=
  as.foldl insert s

/-- The elements of a list in the order of their first occurrences. -/
def ofList (as : List α) : OrderedSet α :=
  empty.insertAll as

/-- The members of the first set, then the others of the second. -/
def union (s t : OrderedSet α) : OrderedSet α :=
  s.insertAll t.toList

theorem mem_insert {s : OrderedSet α} {a b : α} : b ∈ s.insert a ↔ b ∈ s ∨ b = a := by
  unfold insert
  split
  · rename_i h
    exact ⟨Or.inl, fun hb => hb.elim id fun e => e ▸ h⟩
  · simp [mem_def]

theorem mem_erase {s : OrderedSet α} {a b : α} : b ∈ s.erase a ↔ b ∈ s ∧ b ≠ a := by
  simp [erase, mem_def]

theorem mem_insertAll {s : OrderedSet α} {as : List α} {b : α} :
    b ∈ s.insertAll as ↔ b ∈ s ∨ b ∈ as := by
  induction as generalizing s with
  | nil => simp [insertAll]
  | cons a as ih =>
    simp only [insertAll, List.foldl_cons] at ih ⊢
    rw [ih, mem_insert, List.mem_cons, or_assoc]

theorem mem_ofList {as : List α} {b : α} : b ∈ ofList as ↔ b ∈ as := by
  simp [ofList, mem_insertAll, not_mem_empty]

theorem mem_union {s t : OrderedSet α} {b : α} : b ∈ s.union t ↔ b ∈ s ∨ b ∈ t :=
  mem_insertAll

end OrderedSet

end IncludeAudit
