import IncludeAudit.Text.Affix
import IncludeAudit.Text.Blank

/-!
# File names

A file is known by the text that an include directive would use for it: a path in quotes
(`"foo/bar.h"`) or in angle brackets (`<vector>`). A `FileName` keeps the path and which of the two
encloses it, so the delimiters of its text always match.

* `FileName.parse?`: reads a text that has delimiters;
* `FileName.ofText`: reads any text, where a bare path counts as quoted;
* `FileName.text`: the delimited text, by which names are ordered.
-/

namespace IncludeAudit

/-- What encloses the path in the text of a file name. -/
inductive Enclosure where
  | quotes
  | angles
  deriving DecidableEq, Repr

namespace Enclosure

/-- The delimiter before the path. -/
def opening : Enclosure → Char
  | quotes => '"'
  | angles => '<'

/-- The delimiter after the path. -/
def closing : Enclosure → Char
  | quotes => '"'
  | angles => '>'

end Enclosure

/-- The identity of a file: a path and what encloses it. -/
structure FileName where
  enclosure : Enclosure
  path : String
  deriving DecidableEq, Repr

namespace FileName

/-- The file `"path"`. -/
def quoted (path : String) : FileName :=
  ⟨.quotes, path⟩

/-- The file `<path>`. -/
def angled (path : String) : FileName :=
  ⟨.angles, path⟩

/-- The characters of the delimited text. -/
def chars (f : FileName) : List Char :=
  f.enclosure.opening :: f.path.toList ++ [f.enclosure.closing]

/-- The delimited text, as an include directive has it. -/
def text (f : FileName) : String :=
  String.ofList f.chars

instance : ToString FileName := ⟨text⟩

/-- Names are ordered by their delimited text, code point by code point. -/
instance : Ord FileName := ⟨compareOn text⟩

/-- True of a name in angle brackets. -/
def isAngled (f : FileName) : Bool :=
  f.enclosure == .angles

/-- What stands before a final `closing`, unless that is nothing. -/
def insideOf? (closing : Char) (cs : List Char) : Option (List Char) :=
  match Text.dropEnd? [closing] cs with
  | some (c :: inside) => some (c :: inside)
  | _ => none

/-- Reads a text with delimiters around at least one character. -/
def ofDelimited? (cs : List Char) : Option FileName :=
  match cs with
  | '"' :: rest => (insideOf? '"' rest).map fun path => quoted (String.ofList path)
  | '<' :: rest => (insideOf? '>' rest).map fun path => angled (String.ofList path)
  | _ => none

/-- Reads a text with delimiters, after trimming it. -/
def parse? (text : String) : Option FileName :=
  ofDelimited? (Text.trim text.toList)

/-- Reads any text: what has no delimiters after trimming is a quoted path. -/
def ofText (text : String) : FileName :=
  (parse? text).getD (quoted (String.ofList (Text.trim text.toList)))

/-- True of a text that has delimiters around at least one character, as it stands. -/
def isDelimited (text : String) : Bool :=
  (ofDelimited? text.toList).isSome

/-- The path without directories. -/
def baseName (f : FileName) : String :=
  match Text.breakOnLast? ['/'] f.path.toList with
  | some (_, name) => String.ofList name
  | none => f.path

/-- The directories of the path without the last slash, empty if it has none. -/
def directory (f : FileName) : String :=
  match Text.breakOnLast? ['/'] f.path.toList with
  | some (dir, _) => String.ofList dir
  | none => ""

/-- What follows the last point of the base name. -/
def extension? (f : FileName) : Option String :=
  (Text.breakOnLast? ['.'] f.baseName.toList).map fun parts => String.ofList parts.2

/-- The directive that includes the file. -/
def includeLine (f : FileName) : String :=
  "#include " ++ f.text

@[simp]
theorem toList_text (f : FileName) : f.text.toList = f.chars := by
  simp [text]

theorem text_injective {f g : FileName} (h : f.text = g.text) : f = g := by
  have h : f.chars = g.chars := by simpa using congrArg String.toList h
  obtain ⟨e, p⟩ := f
  obtain ⟨e', p'⟩ := g
  simp only [chars, List.cons_append, List.cons.injEq] at h
  have he : e = e' := by cases e <;> cases e' <;> simp_all [Enclosure.opening]
  subst he
  have := String.toList_inj.1 (List.append_cancel_right h.2)
  rw [this]

end FileName

end IncludeAudit
