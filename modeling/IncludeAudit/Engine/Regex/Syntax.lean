import IncludeAudit.Text.Blank
import IncludeAudit.Engine.Regex.WordChar

/-!
# Regular expressions

The syntax tree of a regular expression, and the sets of characters at its leaves. Groups leave no
trace, since only the fact of a match matters here, and for the same reason greedy and lazy
repetitions are one.
-/

namespace IncludeAudit

/-- A property of characters that a pattern can name. -/
inductive CharProperty where
  | digit
  | word
  | blank
  deriving DecidableEq, Repr

/-- True of the characters with the property. -/
def CharProperty.holds : CharProperty → Char → Bool
  | digit => Text.isDigit
  | word => Text.isWordChar
  | blank => Text.isBlank

/-- A set of characters. -/
inductive CharSet where
  | none
  /-- By code point, both ends included. -/
  | range (low high : Char)
  | property (p : CharProperty)
  | union (a b : CharSet)
  | inter (a b : CharSet)
  | compl (a : CharSet)
  deriving DecidableEq, Repr

namespace CharSet

/-- True of the members. -/
def contains : CharSet → Char → Bool
  | none, _ => false
  | range low high, c => low ≤ c && c ≤ high
  | property p, c => p.holds c
  | union a b, c => a.contains c || b.contains c
  | inter a b, c => a.contains c && b.contains c
  | compl a, c => !a.contains c

/-- One character. -/
def single (c : Char) : CharSet :=
  range c c

/-- The members of the first set that are not in the second. -/
def diff (a b : CharSet) : CharSet :=
  inter a (compl b)

/-- Every character but the end of a line. -/
def dot : CharSet :=
  compl (single '\n')

end CharSet

/-- A condition on a place in a text. -/
inductive Assertion where
  | textStart
  | textEnd
  | wordBoundary
  | noWordBoundary
  | wordStart
  | wordEnd
  deriving DecidableEq, Repr

/-- A regular expression. -/
inductive Regex where
  | empty
  | one (s : CharSet)
  | assert (a : Assertion)
  | seq (r s : Regex)
  | alt (r s : Regex)
  /-- At least `min` times and, if `max` is given, at most so often. -/
  | rep (r : Regex) (min : Nat) (max : Option Nat)
  deriving Repr

namespace Regex

/-- The number of nodes after each bounded repetition is written out. -/
def size : Regex → Nat
  | empty => 0
  | one _ => 1
  | assert _ => 1
  | seq r s => r.size + s.size
  | alt r s => r.size + s.size + 1
  | rep r min (some max) => min * r.size + (max - min) * (r.size + 1)
  | rep r min none => min * r.size + r.size + 1

end Regex

end IncludeAudit
