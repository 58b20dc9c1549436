import IncludeAudit.FileName.Basic
import IncludeAudit.Proofs.Text
import Mathlib.Data.String.Basic

/-!
# Names that are read back

Any text names a file: the text without the blanks around it if that has delimiters, and the quoted
path of these characters if not. The text of the file then reads as the same file again, unless it
has an empty path, and only a blank text names such a file.

* `isDelimited_iff`: a text has delimiters if its ends are delimiters and it has three bytes;
* `encloses_text`: the path of a file is a slice of its text;
* `ofText_text_iff`, `path_ofText_eq_empty`: when the text of a file reads as that file;
* `ofText_readBack`: reading any text.
-/

namespace IncludeAudit

namespace FileName

open Text (IsCore trim)

variable {f : FileName} {cs inside : List Char} {closing : Char} {text path : String}

/-! ## Delimiters -/

theorem isBlank_opening (e : Enclosure) : Text.isBlank e.opening = false := by
  cases e <;> decide

theorem isBlank_closing (e : Enclosure) : Text.isBlank e.closing = false := by
  cases e <;> decide

theorem utf8Size_opening (e : Enclosure) : e.opening.utf8Size = 1 := by
  cases e <;> decide

theorem utf8Size_closing (e : Enclosure) : e.closing.utf8Size = 1 := by
  cases e <;> decide

/-- The delimiters of a file are not blank, so its text is not trimmed. -/
theorem isCore_chars (f : FileName) : IsCore f.chars f.chars where
  around := ⟨[], [], by simp, by simp⟩
  first c hc := by
    obtain rfl : f.enclosure.opening = c := Option.some.inj hc
    exact isBlank_opening _
  last c hc := by
    rw [chars, List.getLast?_concat, Option.mem_some_iff] at hc
    rw [← hc]
    exact isBlank_closing _

theorem insideOf?_eq_some :
    insideOf? closing cs = some inside ↔ cs = inside ++ [closing] ∧ inside ≠ [] := by
  rw [← Text.dropEnd?_eq_some, insideOf?]
  cases Text.dropEnd? [closing] cs with
  | none => simp
  | some found =>
    cases found with
    | nil => simp
    | cons c found =>
      simp only [Option.some.injEq, ne_eq, iff_self_and]
      rintro rfl
      exact List.cons_ne_nil c found

theorem ofDelimited?_opening (e : Enclosure) (rest : List Char) :
    ofDelimited? (e.opening :: rest) =
      (insideOf? e.closing rest).map fun path => ⟨e, String.ofList path⟩ := by
  cases e <;> rfl

theorem exists_opening (h : ofDelimited? cs = some f) :
    ∃ (e : Enclosure) (rest : List Char), cs = e.opening :: rest := by
  unfold ofDelimited? at h
  split at h
  · exact ⟨.quotes, _, rfl⟩
  · exact ⟨.angles, _, rfl⟩
  · cases h

/-- What has delimiters is the text of a file with a path. -/
theorem ofDelimited?_eq_some : ofDelimited? cs = some f ↔ cs = f.chars ∧ f.path ≠ "" := by
  constructor
  · intro h
    obtain ⟨e, rest, rfl⟩ := exists_opening h
    rw [ofDelimited?_opening] at h
    obtain ⟨inside, hinside, rfl⟩ := Option.map_eq_some_iff.1 h
    obtain ⟨rfl, hne⟩ := insideOf?_eq_some.1 hinside
    refine ⟨?_, mt String.ofList_eq_empty_iff.1 hne⟩
    rw [chars, String.toList_ofList, List.cons_append]
  · rintro ⟨rfl, hne⟩
    have hinside : insideOf? f.enclosure.closing (f.path.toList ++ [f.enclosure.closing]) =
        some f.path.toList :=
      insideOf?_eq_some.2 ⟨rfl, mt String.toList_eq_nil_iff.1 hne⟩
    rw [chars, List.cons_append, ofDelimited?_opening, hinside, Option.map_some,
      String.ofList_toList]

theorem isDelimited_iff_exists :
    isDelimited text = true ↔ ∃ f : FileName, text = f.text ∧ f.path ≠ "" := by
  rw [isDelimited, Option.isSome_iff_exists]
  refine exists_congr fun f => ?_
  rw [ofDelimited?_eq_some, ← toList_text, String.toList_inj]

/-! ## Slices -/

theorem text_eq (f : FileName) : f.text =
    String.singleton f.enclosure.opening ++ f.path ++ String.singleton f.enclosure.closing := by
  rw [← String.toList_inj]
  simp [chars]

theorem utf8ByteSize_text (f : FileName) : f.text.utf8ByteSize = f.path.utf8ByteSize + 2 := by
  rw [text_eq, String.utf8ByteSize_append, String.utf8ByteSize_append,
    String.utf8ByteSize_singleton, String.utf8ByteSize_singleton, utf8Size_opening,
    utf8Size_closing]
  omega

/-- The text is the path between two delimiters, and from its second byte to the one before its
last it is that path. Both bounds are between characters, so the slice exists. -/
structure Encloses (text path : String) : Prop where
  delimiters : ∃ e : Enclosure, text.toList = e.opening :: path.toList ++ [e.closing]
  start : String.Pos.Raw.IsValid text ⟨1⟩
  stop : String.Pos.Raw.IsValid text ⟨text.utf8ByteSize - 1⟩
  inOrder : 1 ≤ text.utf8ByteSize - 1
  slice : String.Pos.Raw.extract text ⟨1⟩ ⟨text.utf8ByteSize - 1⟩ = path

theorem encloses_text (f : FileName) : Encloses f.text f.path := by
  have hopening : (String.singleton f.enclosure.opening).utf8ByteSize = 1 := by
    rw [String.utf8ByteSize_singleton, utf8Size_opening]
  have hstop : f.text.utf8ByteSize - 1 = 1 + f.path.utf8ByteSize := by
    rw [utf8ByteSize_text]
    omega
  refine ⟨⟨f.enclosure, toList_text f⟩, ?_, ?_, ?_, ?_⟩
  · refine String.Pos.Raw.isValid_iff_exists_append.2 ⟨String.singleton f.enclosure.opening,
      f.path ++ String.singleton f.enclosure.closing, ?_, ?_⟩
    · rw [text_eq, String.append_assoc]
    · rw [String.rawEndPos, hopening]
  · refine String.Pos.Raw.isValid_iff_exists_append.2
      ⟨String.singleton f.enclosure.opening ++ f.path, _, text_eq f, ?_⟩
    rw [hstop, String.rawEndPos, String.utf8ByteSize_append, hopening]
  · omega
  · have hslice := String.extract_of_valid [f.enclosure.opening] f.path.toList
      [f.enclosure.closing]
    rw [← String.utf8ByteSize_ofList, ← String.utf8ByteSize_ofList, String.ofList_toList,
      ← String.singleton_eq_ofList, hopening, ← hstop] at hslice
    exact hslice

/-! ## Three bytes -/

/-- The text has delimiters at its two ends and at least three bytes. -/
def Delimited (text : String) : Prop :=
  3 ≤ text.utf8ByteSize ∧ ∃ e : Enclosure,
    text.toList.head? = some e.opening ∧ text.toList.getLast? = some e.closing

/-- Of three bytes, one at least is not a delimiter. -/
theorem isDelimited_iff : isDelimited text = true ↔ Delimited text := by
  rw [isDelimited_iff_exists]
  constructor
  · rintro ⟨f, rfl, hne⟩
    have hpath : f.path.utf8ByteSize ≠ 0 := mt String.utf8ByteSize_eq_zero_iff.1 hne
    refine ⟨by rw [utf8ByteSize_text]; omega, f.enclosure, ?_, ?_⟩
    · rw [toList_text, chars, List.cons_append, List.head?_cons]
    · rw [toList_text, chars, List.getLast?_concat]
  · rintro ⟨hsize, e, hfirst, hlast⟩
    obtain ⟨rest, hrest⟩ := List.head?_eq_some_iff.1 hfirst
    rcases List.eq_nil_or_concat' rest with rfl | ⟨path, c, rfl⟩
    · -- A quote alone is at both ends of its text.
      have htext : text = String.singleton e.opening := by
        rw [← String.toList_inj, hrest, String.toList_singleton]
      rw [htext, String.utf8ByteSize_singleton, utf8Size_opening] at hsize
      omega
    · rw [hrest, ← List.cons_append, List.getLast?_concat, Option.some.injEq] at hlast
      have htext : text = (FileName.mk e (String.ofList path)).text := by
        rw [← String.toList_inj, toList_text, hrest, chars, hlast, String.toList_ofList,
          List.cons_append]
      refine ⟨_, htext, fun hempty => ?_⟩
      rw [htext, utf8ByteSize_text, hempty, String.utf8ByteSize_empty] at hsize
      omega

/-! ## Reading -/

theorem parse?_eq_some : parse? text = some f ↔ IsCore text.toList f.chars ∧ f.path ≠ "" := by
  rw [parse?, ofDelimited?_eq_some, Text.trim_eq_iff]

theorem parse?_eq_none : parse? text = none ↔ ¬ Delimited (String.ofList (trim text.toList)) := by
  rw [← isDelimited_iff, isDelimited, String.toList_ofList, Bool.not_eq_true,
    Option.isSome_eq_false_iff, Option.isNone_iff_eq_none, parse?]

theorem ofText_of_parse?_eq_none (h : parse? text = none) :
    ofText text = quoted (String.ofList (trim text.toList)) := by
  rw [ofText, h, Option.getD_none]

theorem ofText_of_parse?_eq_some (h : parse? text = some f) : ofText text = f := by
  rw [ofText, h, Option.getD_some]

/-- `Names text f` holds if `f` has the text without the blanks around it as its own text, or as
its quoted path if there are no delimiters. -/
inductive Names (text : String) : FileName → Prop
  | delimited {f : FileName} (core : IsCore text.toList f.text.toList) (h : Delimited f.text) :
    Names text f
  | bare {path : String} (core : IsCore text.toList path.toList) (h : ¬ Delimited path) :
    Names text (quoted path)

theorem names_ofText (text : String) : Names text (ofText text) := by
  cases hparse : parse? text with
  | some f =>
    obtain ⟨hcore, hne⟩ := parse?_eq_some.1 hparse
    rw [ofText_of_parse?_eq_some hparse]
    refine .delimited ?_ (isDelimited_iff.1 (isDelimited_iff_exists.2 ⟨f, rfl, hne⟩))
    rwa [toList_text]
  | none =>
    rw [ofText_of_parse?_eq_none hparse]
    refine .bare ?_ (parse?_eq_none.1 hparse)
    rw [String.toList_ofList]
    exact Text.isCore_trim

/-- Only the texts of the two files with an empty path are read otherwise. -/
theorem ofText_text_iff : ofText f.text = f ↔ f.path ≠ "" := by
  constructor
  · intro h hempty
    obtain ⟨enclosure, path⟩ := f
    obtain rfl : path = "" := hempty
    cases enclosure with
    | quotes => exact absurd h (by decide +kernel)
    | angles => exact absurd h (by decide +kernel)
  · intro h
    refine ofText_of_parse?_eq_some (parse?_eq_some.2 ⟨?_, h⟩)
    rw [toList_text]
    exact isCore_chars f

theorem path_ofText_eq_empty : (ofText text).path = "" ↔ Text.isAllBlank text = true := by
  rw [Text.isAllBlank, List.all_eq_true, ← Text.trim_eq_nil]
  cases hparse : parse? text with
  | some f =>
    obtain ⟨hcore, hne⟩ := parse?_eq_some.1 hparse
    rw [ofText_of_parse?_eq_some hparse, hcore.trim_eq]
    exact iff_of_false hne (List.cons_ne_nil _ _)
  | none =>
    rw [ofText_of_parse?_eq_none hparse, quoted, String.ofList_eq_empty_iff]

/-- A text names a file whose text encloses its path. That text reads as the same file exactly if
the first text is not blank. -/
theorem ofText_readBack (text : String) :
    Names text (ofText text) ∧ Encloses (ofText text).text (ofText text).path ∧
      (ofText (ofText text).text = ofText text ↔ Text.isAllBlank text = false) := by
  refine ⟨names_ofText text, encloses_text _, ?_⟩
  rw [ofText_text_iff, ne_eq, path_ofText_eq_empty, Bool.not_eq_true]

/-- A blank text names `""`, and that text names the file whose path it is. -/
example : (ofText (ofText " ").text).text = "\"\"\"\"" := by decide +kernel

end FileName

end IncludeAudit
