import IncludeAudit.Proofs.Ordered.Map
import IncludeAudit.Provider.Overlay
import Mathlib.Data.List.Infix

/-!
# Directories named internal

A file below a directory `internal` is private by convention, and the files that include it provide
it. The directory is looked for as the text `internal/`, and only the first occurrence is looked at.
So a directory whose name merely ends so, such as `notinternal`, hides those below it.

* `firstAt_chars_iff`: the delimiters of a name do not matter;
* `isSome_internalStart?`: the files in which a directory `internal` is found;
* `mem_conventionTargets_observeInclude`: the providers that an include adds;
* `observeInclude_iff`: the convention applies exactly where no directory hides another.
-/

namespace IncludeAudit

namespace Overlay

open Text (FirstAt)

variable {o : Overlay} {f g c includer included : FileName} {before : List Char}

/-! ## The first occurrence -/

/-- A directory `internal` and the slash after it. -/
def internalDirectory : List Char :=
  "internal/".toList

/-- A component of a path begins after `before`. -/
def BeginsComponent (before : List Char) : Prop :=
  before = [] ∨ before.getLast? = some '/'

/-- The path has a directory `internal`, at its beginning or after a slash. -/
def HasInternal (f : FileName) : Prop :=
  ∃ before, before ++ internalDirectory <+: f.path.toList ∧ BeginsComponent before

/-- The first directory whose name ends in `internal` is named so. -/
def HasInternalFirst (f : FileName) : Prop :=
  ∃ before, FirstAt internalDirectory f.path.toList before ∧ BeginsComponent before

theorem HasInternalFirst.hasInternal (h : HasInternalFirst f) : HasInternal f := by
  obtain ⟨before, hfirst, hbegins⟩ := h
  exact ⟨before, hfirst.occurs, hbegins⟩

/-- `internal/` begins and ends otherwise than the delimiters. -/
theorem prefix_chars_iff : before ++ internalDirectory <+: f.chars ↔
    ∃ b, before = f.enclosure.opening :: b ∧ b ++ internalDirectory <+: f.path.toList := by
  rw [FileName.chars, List.cons_append]
  constructor
  · intro h
    cases before with
    | nil =>
      have hfirst : 'i' = f.enclosure.opening := (List.cons_prefix_cons.1 h).1
      cases henclosure : f.enclosure <;> simp [henclosure, Enclosure.opening] at hfirst
    | cons c b =>
      rw [List.cons_append, List.cons_prefix_cons, List.prefix_concat_iff] at h
      obtain ⟨rfl, h⟩ := h
      refine ⟨b, rfl, h.resolve_left fun heq => ?_⟩
      have hlast : some '/' = some f.enclosure.closing := by
        have hlast := congrArg List.getLast? heq
        rwa [List.getLast?_append_of_ne_nil _ (by decide), List.getLast?_concat] at hlast
      cases henclosure : f.enclosure <;> simp [henclosure, Enclosure.closing] at hlast
  · rintro ⟨b, rfl, h⟩
    rw [List.cons_append, List.cons_prefix_cons]
    exact ⟨rfl, h.trans (List.prefix_append _ _)⟩

theorem firstAt_chars_iff : FirstAt internalDirectory f.chars before ↔
    ∃ b, before = f.enclosure.opening :: b ∧ FirstAt internalDirectory f.path.toList b := by
  constructor
  · rintro ⟨hoccurs, hleast⟩
    obtain ⟨b, rfl, hpath⟩ := prefix_chars_iff.1 hoccurs
    exact ⟨b, rfl, hpath, fun c hc =>
      Nat.le_of_succ_le_succ (hleast _ (prefix_chars_iff.2 ⟨c, rfl, hc⟩))⟩
  · rintro ⟨b, rfl, hoccurs, hleast⟩
    refine ⟨prefix_chars_iff.2 ⟨b, rfl, hoccurs⟩, fun c hc => ?_⟩
    obtain ⟨c, rfl, hpath⟩ := prefix_chars_iff.1 hc
    exact Nat.succ_le_succ (hleast c hpath)

theorem beginsComponent_iff {b : List Char} :
    ((f.enclosure.opening :: b).length = 1 ∨ (f.enclosure.opening :: b).getLast? = some '/') ↔
      BeginsComponent b := by
  cases b with
  | nil => simp [BeginsComponent]
  | cons c b => simp [BeginsComponent]

theorem isSome_internalStart? : (internalStart? f).isSome = true ↔ HasInternalFirst f := by
  have hfound : (internalStart? f).isSome = true ↔
      ∃ before, FirstAt internalDirectory f.chars before ∧
        (before.length = 1 ∨ before.getLast? = some '/') := by
    rw [internalStart?, show "internal/".toList = internalDirectory from rfl]
    simp only [← Text.breakOn?_iff_firstAt]
    cases Text.breakOn? internalDirectory f.chars with
    | none => simp
    | some parts =>
      obtain ⟨first, after⟩ := parts
      simp
  rw [hfound]
  simp only [firstAt_chars_iff]
  constructor
  · rintro ⟨_, ⟨b, rfl, hfirst⟩, hbegins⟩
    exact ⟨b, hfirst, beginsComponent_iff.1 hbegins⟩
  · rintro ⟨b, hfirst, hbegins⟩
    exact ⟨_, ⟨b, rfl, hfirst⟩, beginsComponent_iff.2 hbegins⟩

/-! ## Providers by convention -/

theorem mem_conventionTargets_addConvention : c ∈ (o.addConvention f g).conventionTargets included ↔
    c ∈ o.conventionTargets included ∨ (included = f ∧ c = g) :=
  OrderedMap.mem_addTo

/-- A file that has a provider by convention is private by convention. -/
theorem isPrivateByConvention_of_mem (h : c ∈ o.conventionTargets f) :
    o.isPrivateByConvention f = true := by
  rw [conventionTargets] at h
  rw [isPrivateByConvention, OrderedMap.contains]
  cases hfind : o.conventions.find? f with
  | none => simp [hfind] at h
  | some targets => rfl

theorem mem_conventionTargets_observeInternal :
    c ∈ (o.observeInternal includer included).conventionTargets f ↔
      c ∈ o.conventionTargets f ∨
        (f = included ∧ c = includer ∧ includer ≠ included ∧ HasInternalFirst included) := by
  rw [← isSome_internalStart?, observeInternal]
  cases hstart : internalStart? included with
  | none => simp
  | some start =>
    by_cases hself : includer = included
    · simp [hself]
    · simp only [ne_eq, hself, not_false_eq_true, Option.isSome_some, and_true]
      exact mem_conventionTargets_addConvention

/-- An include adds its file to the providers by the first convention, and a file of the same path
below `asm` by the second. -/
theorem mem_conventionTargets_observeInclude :
    c ∈ (o.observeInclude includer included).conventionTargets f ↔
      c ∈ o.conventionTargets f ∨
        (f = included ∧ c = includer ∧ includer ≠ included ∧ HasInternalFirst included) ∨
        (f = included ∧ machineProvider? included = some c) := by
  rw [observeInclude, observeMachine, ← or_assoc, ← mem_conventionTargets_observeInternal]
  cases hprovider : machineProvider? included with
  | none => simp
  | some provider =>
    rw [mem_conventionTargets_addConvention, Option.some.injEq, eq_comm (a := provider)]

/-- Quoted files have no provider by the second convention. -/
theorem machineProvider?_of_quoted (h : f.isAngled = false) : machineProvider? f = none := by
  rw [machineProvider?, if_neg fun hasm => by simp [h] at hasm]

/-- An include of a file below a directory `internal` by another file makes it private and its
includer a provider exactly if no directory hides that one, or if the includer provides the file
anyway. An include of a quoted file without such a directory adds no provider. -/
theorem observeInclude_iff (o : Overlay) (includer included : FileName) :
    (HasInternal included → includer ≠ included →
      ((o.observeInclude includer included).isPrivateByConvention included = true ∧
          includer ∈ (o.observeInclude includer included).conventionTargets included ↔
        HasInternalFirst included ∨ includer ∈ o.conventionTargets included ∨
          machineProvider? included = some includer)) ∧
    (included.isAngled = false → ¬ HasInternal included →
      ∀ f c, c ∈ (o.observeInclude includer included).conventionTargets f ↔
        c ∈ o.conventionTargets f) := by
  constructor
  · intro _ hne
    rw [and_iff_right_of_imp isPrivateByConvention_of_mem, mem_conventionTargets_observeInclude]
    simp only [true_and, ne_eq, hne, not_false_eq_true]
    exact or_left_comm
  · intro hquoted hnone f c
    rw [mem_conventionTargets_observeInclude, machineProvider?_of_quoted hquoted]
    simp [mt HasInternalFirst.hasInternal hnone]

/-- What is known once `a.cc` has included a file. -/
def afterInclude (path : String) : Overlay :=
  ({} : Overlay).observeInclude (.quoted "a.cc") (.quoted path)

/-- The first directory that ends so is `internal`. -/
theorem observeInclude_internal :
    HasInternal (.quoted "foo/internal/x.h") ∧
      FileName.quoted "a.cc" ≠ .quoted "foo/internal/x.h" ∧
      (afterInclude "foo/internal/x.h").isPrivateByConvention (.quoted "foo/internal/x.h") = true ∧
      .quoted "a.cc" ∈
        (afterInclude "foo/internal/x.h").conventionTargets (.quoted "foo/internal/x.h") := by
  have hfirst : HasInternalFirst (.quoted "foo/internal/x.h") :=
    isSome_internalStart?.1 (by decide +kernel)
  have hne : FileName.quoted "a.cc" ≠ .quoted "foo/internal/x.h" := by decide +kernel
  exact ⟨hfirst.hasInternal, hne,
    ((observeInclude_iff {} _ _).1 hfirst.hasInternal hne).2 (.inl hfirst)⟩

/-- The directory `notinternal` hides the one below it. -/
theorem observeInclude_hidden :
    HasInternal (.quoted "notinternal/internal/x.h") ∧
      FileName.quoted "a.cc" ≠ .quoted "notinternal/internal/x.h" ∧
      (afterInclude "notinternal/internal/x.h").isPrivateByConvention
        (.quoted "notinternal/internal/x.h") = false ∧
      (afterInclude "notinternal/internal/x.h").conventionTargets
        (.quoted "notinternal/internal/x.h") = [] := by
  refine ⟨⟨"notinternal/".toList, ?_, .inr ?_⟩, ?_, ?_, ?_⟩ <;> decide +kernel

end Overlay

end IncludeAudit
