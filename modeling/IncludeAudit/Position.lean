import IncludeAudit.FileName.Basic

/-!
# Positions

A position is a line and a column of a file. What a macro produces has two positions: where its
tokens are spelled and where the macro is expanded. A `LineSpan` is the range of lines that an
include directive or a declaration occupies.
-/

namespace IncludeAudit

/-- A line and a column of a file. -/
structure SourcePos where
  file : FileName
  line : Nat
  column : Nat
  deriving DecidableEq, Repr

namespace SourcePos

/-- Positions are ordered by file, line and column. -/
instance : Ord SourcePos :=
  ⟨fun a b =>
    (compare a.file b.file).then ((compare a.line b.line).then (compare a.column b.column))⟩

/-- True if both are in one file and `a` comes first. -/
def isBefore (a b : SourcePos) : Bool :=
  a.file == b.file && (a.line < b.line || (a.line == b.line && a.column < b.column))

/-- The path, the line and the column, with colons between them. -/
def describe (p : SourcePos) : String :=
  p.file.path ++ ":" ++ toString p.line ++ ":" ++ toString p.column

end SourcePos

/-- Where the tokens of an occurrence are written and where they take effect. -/
structure Location where
  spelling : SourcePos
  expansion : SourcePos
  deriving DecidableEq, Repr

namespace Location

/-- The location of what no macro produced. -/
def plain (pos : SourcePos) : Location :=
  ⟨pos, pos⟩

/-- True of what a macro produced. -/
def isMacroExpansion (l : Location) : Bool :=
  l.spelling != l.expansion

end Location

/-- The first and the last line of a range. -/
structure LineSpan where
  first : Nat
  last : Nat
  deriving DecidableEq, Repr

namespace LineSpan

/-- One line. -/
def line (n : Nat) : LineSpan :=
  ⟨n, n⟩

/-- True of the lines from the first to the last. -/
def contains (s : LineSpan) (n : Nat) : Bool :=
  s.first ≤ n && n ≤ s.last

/-- Spans are ordered by their first and then by their last line. -/
def le (a b : LineSpan) : Bool :=
  a.first < b.first || (a.first == b.first && a.last ≤ b.last)

/-- The line number, or the two numbers with a hyphen between them. -/
def describe (s : LineSpan) : String :=
  if s.first = s.last then toString s.first else toString s.first ++ "-" ++ toString s.last

end LineSpan

end IncludeAudit
