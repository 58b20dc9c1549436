import IncludeAudit.FileName.Canonical
import IncludeAudit.Proofs.Text

/-!
# Files that share a canonical name

A stem gets an extension, and before it perhaps the ending of a test or of inline definitions. Of
the extensions, each with its point, none ends with another, and of the endings none does. So what
was added is what is found again, in whatever order they are tried, and the stem is left.

* `canonicalChars_pointed`: the extension does not matter;
* `bareStem_append`: nor does one ending after a stem that has none;
* `replaces_replaceFirst`: how the directories in the stem are renamed;
* `canonicalPath_pairs`: the paths that share a canonical name.
-/

namespace IncludeAudit

namespace FileName

open Text (SuffixFree dropAny FirstAt)

variable {stem name part replacement : List Char} {e ending : String}

/-! ## Extensions -/

/-- The extensions that a canonical name leaves out. -/
def knownExtensions : List String :=
  headerExtensions ++ sourceExtensions

theorem suffixFree_pointed : SuffixFree (knownExtensions.map pointed) := by
  decide

theorem dropExtension_eq : dropExtension name = dropAny (knownExtensions.map pointed) name := by
  rw [dropAny, List.findSome?_map]
  rfl

theorem dropExtension_pointed (h : e ∈ knownExtensions) :
    dropExtension (stem ++ pointed e) = stem := by
  rw [dropExtension_eq, Text.dropAny_append suffixFree_pointed (List.mem_map_of_mem h)]

/-! ## Tests and inline definitions -/

/-- The endings of files that belong to the header without them. -/
def sharedEndings : List String :=
  inlineEnding :: testEndings

/-- The text has none of those endings. -/
def Bare (stem : List Char) : Prop :=
  ∀ ending ∈ sharedEndings, ¬ ending.toList <:+ stem

instance : Decidable (Bare stem) :=
  inferInstanceAs (Decidable (∀ ending ∈ sharedEndings, ¬ ending.toList <:+ stem))

/-- The text without the ending of a test, and then without that of inline definitions. -/
def bareStem (name : List Char) : List Char :=
  Text.dropEnd inlineEnding.toList (dropTestEnding name)

theorem suffixFree_sharedEndings : SuffixFree (sharedEndings.map String.toList) := by
  decide

theorem suffixFree_testEndings : SuffixFree (testEndings.map String.toList) :=
  fun a ha b hb => suffixFree_sharedEndings a (List.mem_cons_of_mem _ ha) b
    (List.mem_cons_of_mem _ hb)

theorem dropTestEnding_eq :
    dropTestEnding name = dropAny (testEndings.map String.toList) name := by
  rw [dropAny, List.findSome?_map]
  rfl

theorem dropTestEnding_of_bare (h : Bare stem) : dropTestEnding stem = stem := by
  rw [dropTestEnding_eq, Text.dropAny_of_none]
  rintro _ hmem
  obtain ⟨ending, hending, rfl⟩ := List.mem_map.1 hmem
  exact h ending (List.mem_cons_of_mem _ hending)

/-- Inline definitions have no ending of a test. -/
theorem dropTestEnding_inline :
    dropTestEnding (stem ++ inlineEnding.toList) = stem ++ inlineEnding.toList := by
  rw [dropTestEnding_eq, Text.dropAny_of_none]
  intro ending hmem hsuffix
  obtain rfl : ending = inlineEnding.toList :=
    suffixFree_sharedEndings.eq_of_suffix (List.mem_cons_of_mem _ hmem) List.mem_cons_self hsuffix
      (List.suffix_append stem _)
  exact absurd hmem (by decide)

theorem dropEnd_inline_of_bare (h : Bare stem) : Text.dropEnd inlineEnding.toList stem = stem :=
  Text.dropEnd_of_not_suffix (h inlineEnding List.mem_cons_self)

theorem bareStem_of_bare (h : Bare stem) : bareStem stem = stem := by
  rw [bareStem, dropTestEnding_of_bare h, dropEnd_inline_of_bare h]

/-- One ending after a stem without any is dropped, whichever it is. -/
theorem bareStem_append (h : Bare stem) (hending : ending ∈ sharedEndings) :
    bareStem (stem ++ ending.toList) = stem := by
  rcases List.mem_cons.1 hending with rfl | htest
  · rw [bareStem, dropTestEnding_inline, Text.dropEnd_append]
  · rw [bareStem, dropTestEnding_eq,
      Text.dropAny_append suffixFree_testEndings (List.mem_map_of_mem htest),
      dropEnd_inline_of_bare h]

/-! ## Directories -/

/-- `Replaces part replacement` relates a text to the one in which the first occurrence of `part`
is replaced. -/
inductive Replaces (part replacement : List Char) : List Char → List Char → Prop
  | absent {name : List Char} (h : ¬ part <:+: name) : Replaces part replacement name name
  | first {before after : List Char} (h : FirstAt part (before ++ part ++ after) before) :
    Replaces part replacement (before ++ part ++ after) (before ++ replacement ++ after)

theorem replaces_replaceFirst :
    Replaces part replacement name (replaceFirst part replacement name) := by
  rw [replaceFirst]
  cases hbreak : Text.breakOn? part name with
  | none =>
    refine .absent ?_
    rintro ⟨before, after, rfl⟩
    obtain ⟨first, rest, hfound, -⟩ :=
      Text.breakOn?_of_occurs (List.prefix_append (before ++ part) after)
    rw [hbreak] at hfound
    cases hfound
  | some parts =>
    obtain ⟨before, after⟩ := parts
    have hfirst := Text.firstAt_of_breakOn? hbreak
    obtain rfl := Text.breakOn?_eq_some hbreak
    exact .first hfirst

/-- `RenamesDirectories stem name` holds if `name` is `stem` with the first `/internal/` read as
`/public/`, and then the first `/include/` as `/src/`. -/
def RenamesDirectories (stem name : List Char) : Prop :=
  ∃ middle, Replaces "/internal/".toList "/public/".toList stem middle ∧
    Replaces "/include/".toList "/src/".toList middle name

/-- The stem with its directories renamed. -/
def renameDirectories (stem : List Char) : List Char :=
  replaceFirst "/include/".toList "/src/".toList
    (replaceFirst "/internal/".toList "/public/".toList stem)

theorem renamesDirectories_renameDirectories :
    RenamesDirectories stem (renameDirectories stem) :=
  ⟨_, replaces_replaceFirst, replaces_replaceFirst⟩

/-! ## Canonical names -/

theorem canonicalChars_eq :
    canonicalChars name = renameDirectories (bareStem (dropExtension name)) :=
  rfl

theorem canonicalChars_pointed (h : e ∈ knownExtensions) :
    canonicalChars (stem ++ pointed e) = renameDirectories (bareStem stem) := by
  rw [canonicalChars_eq, dropExtension_pointed h]

/-- The path of a stem with an extension. -/
def withExtension (stem e : String) : String :=
  stem ++ "." ++ e

theorem toList_withExtension (stem e : String) :
    (withExtension stem e).toList = stem.toList ++ pointed e := by
  rw [withExtension, String.toList_append, String.toList_append, List.append_assoc]
  rfl

theorem canonicalPath_withExtension (stem : String) (h : e ∈ knownExtensions) :
    canonicalPath (withExtension stem e) =
      String.ofList (renameDirectories (bareStem stem.toList)) := by
  rw [canonicalPath, toList_withExtension, canonicalChars_pointed h]

/-- The canonical name of a stem with an extension does not depend on the extension. If the stem
has none of the shared endings, it is the stem with its directories renamed, also after one of
these endings was added to the stem. -/
theorem canonicalPath_pairs (stem : String) :
    (∀ e₁ ∈ knownExtensions, ∀ e₂ ∈ knownExtensions,
      canonicalPath (withExtension stem e₁) = canonicalPath (withExtension stem e₂)) ∧
    (Bare stem.toList →
      RenamesDirectories stem.toList (canonicalPath (withExtension stem "h")).toList ∧
      ∀ ending ∈ sharedEndings, ∀ e ∈ knownExtensions,
        canonicalPath (withExtension (stem ++ ending) e) =
          canonicalPath (withExtension stem "h")) := by
  have hheader : "h" ∈ knownExtensions := by decide
  refine ⟨fun e₁ h₁ e₂ h₂ => ?_, fun hbare => ⟨?_, fun ending hending e he => ?_⟩⟩
  · rw [canonicalPath_withExtension stem h₁, canonicalPath_withExtension stem h₂]
  · rw [canonicalPath_withExtension stem hheader, bareStem_of_bare hbare, String.toList_ofList]
    exact renamesDirectories_renameDirectories
  · rw [canonicalPath_withExtension _ he, canonicalPath_withExtension _ hheader,
      String.toList_append, bareStem_append hbare hending, bareStem_of_bare hbare]

/-- A test of a file below `internal` and `include`, whose stem has a point of its own. -/
theorem canonicalPath_pairs_test :
    "hpp" ∈ knownExtensions ∧ "c++" ∈ knownExtensions ∧ "_unittest" ∈ sharedEndings ∧
      Bare "lib.v2/internal/include/set.h".toList ∧
      canonicalPath (withExtension "lib.v2/internal/include/set.h" "hpp") =
        canonicalPath (withExtension "lib.v2/internal/include/set.h" "c++") ∧
      canonicalPath (withExtension ("lib.v2/internal/include/set.h" ++ "_unittest") "c++") =
        canonicalPath (withExtension "lib.v2/internal/include/set.h" "h") ∧
      canonicalPath "lib.v2/internal/include/set.h_unittest.c++" = "lib.v2/public/src/set.h" := by
  have hhpp : "hpp" ∈ knownExtensions := by decide
  have hcpp : "c++" ∈ knownExtensions := by decide
  have htest : "_unittest" ∈ sharedEndings := by decide
  have hbare : Bare "lib.v2/internal/include/set.h".toList := by decide +kernel
  obtain ⟨hsame, hpaired⟩ := canonicalPath_pairs "lib.v2/internal/include/set.h"
  exact ⟨hhpp, hcpp, htest, hbare, hsame _ hhpp _ hcpp, (hpaired hbare).2 _ htest _ hcpp,
    by decide +kernel⟩

end FileName

end IncludeAudit
