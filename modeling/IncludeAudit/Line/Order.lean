import IncludeAudit.FileName.Canonical
import IncludeAudit.Line.Basic

/-!
# The order of output lines

Lines are written in groups: the precompiled header, associated headers, inline definitions of the
file itself, quoted includes if the policy puts them first, angled `.h` headers, other angled
headers, the other includes, and the declarations. Within a group they go by their text.
-/

namespace IncludeAudit

/-- What the order of the lines of a file depends on. -/
structure LineOrder where
  precompiled : Option FileName := none
  associated : List FileName := []
  /-- The canonical name of the file to which the lines belong. -/
  canonical : String := ""
  quotedFirst : Bool := false

namespace LineOrder

/-- The group of an include. -/
def fileGroup (o : LineOrder) (f : FileName) : Nat :=
  if o.precompiled = some f then 0
  else if o.associated.contains f then 1
  else if f.isInlineDefinitions && f.canonical == o.canonical then 2
  else if o.quotedFirst && !f.isAngled then 3
  else if f.isAngled && (Text.dropEnd? ".h".toList f.path.toList).isSome then 4
  else if f.isAngled then 5
  else 6

/-- The group of a line. Lower groups are written first. -/
def group (o : LineOrder) (l : OutputLine) : Nat :=
  match l.content with
  | .declaration .. => 7
  | .directive f => o.fileGroup f

/-- True if the first line may stand before the second. -/
def le (o : LineOrder) (a b : OutputLine) : Bool :=
  o.group a < o.group b || (o.group a == o.group b && decide (a.text ≤ b.text))

/-- The lines in order; those with the same group and text stay as they are. -/
def sort (o : LineOrder) (lines : List OutputLine) : List OutputLine :=
  lines.mergeSort o.le

end LineOrder

/-- True if the first line stands in the file no later than the second. Proposed lines come first.
-/
def OutputLine.standsBefore (a b : OutputLine) : Bool :=
  match a.lines, b.lines with
  | none, _ => true
  | some _, none => false
  | some s, some t => s.le t

end IncludeAudit
