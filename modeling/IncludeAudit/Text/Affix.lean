/-!
# Beginnings, ends and occurrences

Texts are lists of characters here, so that each operation is a recursion on the list:

* `dropStart?`, `dropEnd?`: the text without a given beginning or end, if it has it;
* `breakOn?`, `breakOnLast?`: the text before and after the first or the last occurrence of another.

`breakOn?_eq_some` says that the two parts and the separator make up the text, and
`breakOn?_iff_firstAt` that the occurrence that is found is the first one.
-/

namespace IncludeAudit.Text

/-- The rest of `cs` after `start`, if `cs` begins with it. -/
def dropStart? (start cs : List Char) : Option (List Char) :=
  start.isPrefixOf? cs

/-- What precedes `ending` in `cs`, if `cs` ends with it. -/
def dropEnd? (ending cs : List Char) : Option (List Char) :=
  ending.isSuffixOf? cs

/-- `dropEnd?`, or the whole text if it does not end so. -/
def dropEnd (ending cs : List Char) : List Char :=
  (dropEnd? ending cs).getD cs

/-- The text before and after the first occurrence of `separator`. -/
def breakOn? (separator : List Char) (cs : List Char) : Option (List Char × List Char) :=
  match dropStart? separator cs with
  | some rest => some ([], rest)
  | none =>
    match cs with
    | [] => none
    | c :: cs => (breakOn? separator cs).map fun (before, after) => (c :: before, after)

/-- The text before and after the last occurrence of `separator`. -/
def breakOnLast? (separator cs : List Char) : Option (List Char × List Char) :=
  (breakOn? separator.reverse cs.reverse).map fun (after, before) => (before.reverse, after.reverse)

/-- True if `part` occurs in `cs`. -/
def occurs (part cs : List Char) : Bool :=
  (breakOn? part cs).isSome

@[simp]
theorem dropStart?_nil (cs : List Char) : dropStart? [] cs = some cs :=
  rfl

@[simp]
theorem dropStart?_cons_nil (a : Char) (start : List Char) : dropStart? (a :: start) [] = none :=
  rfl

theorem dropStart?_cons_cons (a c : Char) (start cs : List Char) :
    dropStart? (a :: start) (c :: cs) = if a == c then dropStart? start cs else none :=
  rfl

theorem dropEnd?_eq_reverse (ending cs : List Char) :
    dropEnd? ending cs = (dropStart? ending.reverse cs.reverse).map List.reverse :=
  rfl

theorem dropStart?_eq_some {start cs rest : List Char} :
    dropStart? start cs = some rest ↔ cs = start ++ rest := by
  induction start generalizing cs with
  | nil => simp [eq_comm]
  | cons a start ih =>
    cases cs with
    | nil => simp
    | cons c cs =>
      rw [dropStart?_cons_cons]
      by_cases h : a = c
      · simp [h, ih]
      · simp [h, Ne.symm h]

theorem dropEnd?_eq_some {ending cs rest : List Char} :
    dropEnd? ending cs = some rest ↔ cs = rest ++ ending := by
  have hstart : dropStart? ending.reverse cs.reverse = some rest.reverse ↔
      cs.reverse = ending.reverse ++ rest.reverse := dropStart?_eq_some
  rw [dropEnd?_eq_reverse, Option.map_eq_some_iff]
  constructor
  · rintro ⟨a, ha, rfl⟩
    rw [List.reverse_reverse] at hstart
    have hcs := hstart.1 ha
    simpa using congrArg List.reverse hcs
  · rintro rfl
    exact ⟨rest.reverse, hstart.2 (by simp), by simp⟩

/-- The two parts and the separator make up the text. -/
theorem breakOn?_eq_some {separator cs before after : List Char}
    (h : breakOn? separator cs = some (before, after)) : cs = before ++ separator ++ after := by
  induction cs generalizing before after with
  | nil =>
    rw [breakOn?] at h
    split at h
    · rename_i rest hr
      obtain ⟨rfl, rfl⟩ := Prod.mk.inj (Option.some.inj h)
      simpa using dropStart?_eq_some.1 hr
    · simp at h
  | cons c cs ih =>
    rw [breakOn?] at h
    split at h
    · rename_i rest hr
      obtain ⟨rfl, rfl⟩ := Prod.mk.inj (Option.some.inj h)
      simpa using dropStart?_eq_some.1 hr
    · obtain ⟨⟨b, a⟩, hba, heq⟩ := Option.map_eq_some_iff.1 h
      obtain ⟨rfl, rfl⟩ := Prod.mk.inj heq
      simp [ih hba]

/-- A separator that occurs is found, and no later than where it occurs. -/
theorem breakOn?_of_occurs {separator cs before : List Char} (h : before ++ separator <+: cs) :
    ∃ first after, breakOn? separator cs = some (first, after) ∧ first.length ≤ before.length := by
  induction before generalizing cs with
  | nil =>
    obtain ⟨rest, rfl⟩ := h
    have hstart : dropStart? separator (separator ++ rest) = some rest := dropStart?_eq_some.2 rfl
    exact ⟨[], rest, by unfold breakOn?; simp [hstart], Nat.le_refl 0⟩
  | cons c before ih =>
    obtain ⟨rest, rfl⟩ := h
    cases hstart : dropStart? separator (c :: before ++ separator ++ rest) with
    | some found => exact ⟨[], found, by unfold breakOn?; rw [hstart], Nat.zero_le _⟩
    | none =>
      obtain ⟨first, after, hfound, hle⟩ := ih (List.prefix_append (before ++ separator) rest)
      refine ⟨c :: first, after, ?_, Nat.succ_le_succ hle⟩
      simp only [List.cons_append] at hstart ⊢
      rw [breakOn?, hstart]
      simp only [hfound, Option.map_some]

/-- The first occurrence of `part` in `cs` is after `before`. -/
structure FirstAt (part cs before : List Char) : Prop where
  occurs : before ++ part <+: cs
  least : ∀ b, b ++ part <+: cs → before.length ≤ b.length

/-- Of two occurrences the shorter beginning is one of the other, so there is one first occurrence.
-/
theorem FirstAt.unique {part cs before before' : List Char} (h : FirstAt part cs before)
    (h' : FirstAt part cs before') : before = before' := by
  have hle := h.least before' h'.occurs
  have hbefore : before <+: cs := (List.prefix_append _ _).trans h.occurs
  have hbefore' : before' <+: cs := (List.prefix_append _ _).trans h'.occurs
  exact (List.prefix_of_prefix_length_le hbefore hbefore' hle).eq_of_length
    (Nat.le_antisymm hle (h'.least before h.occurs))

theorem firstAt_of_breakOn? {separator cs before after : List Char}
    (h : breakOn? separator cs = some (before, after)) : FirstAt separator cs before where
  occurs := ⟨after, (breakOn?_eq_some h).symm⟩
  least b hb := by
    obtain ⟨first, rest, hfirst, hle⟩ := breakOn?_of_occurs hb
    rw [h, Option.some.injEq, Prod.mk.injEq] at hfirst
    rw [hfirst.1]
    exact hle

theorem breakOn?_iff_firstAt {separator cs before : List Char} :
    (∃ after, breakOn? separator cs = some (before, after)) ↔ FirstAt separator cs before := by
  refine ⟨fun ⟨after, h⟩ => firstAt_of_breakOn? h, fun h => ?_⟩
  obtain ⟨first, after, hfirst, -⟩ := breakOn?_of_occurs h.occurs
  rw [(firstAt_of_breakOn? hfirst).unique h] at hfirst
  exact ⟨after, hfirst⟩

end IncludeAudit.Text
