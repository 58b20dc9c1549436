import IncludeAudit.Engine.Regex.Token

/-!
# Reading regular expressions

Nests the tokens of a pattern. `Regex.compile` also refuses what is too large to be matched. Flags,
named groups, escapes by code point and the classes of Unicode and POSIX are not read.
-/

namespace IncludeAudit

/-- A group that is not read to its end: the alternatives before the last bar and the items after
it, last one first. -/
structure OpenGroup where
  alternatives : List Regex := []
  items : List Regex := []

namespace OpenGroup

/-- The group with one more item. -/
def add (g : OpenGroup) (r : Regex) : OpenGroup :=
  { g with items := r :: g.items }

/-- The items since the last bar, one after the other. -/
def sequence (g : OpenGroup) : Regex :=
  g.items.foldl (fun later r => .seq r later) .empty

/-- The group after a bar. -/
def branch (g : OpenGroup) : OpenGroup :=
  ⟨g.sequence :: g.alternatives, []⟩

/-- The expression that the whole group stands for. -/
def close (g : OpenGroup) : Regex :=
  g.alternatives.foldl (fun later r => .alt r later) g.sequence

/-- Nests the rest of the tokens inside the open groups. A repetition needs an item to repeat, and
every group has to be closed. -/
def read (outer : List OpenGroup) (g : OpenGroup) : List RegexToken → Option Regex
  | [] => if outer.isEmpty then some g.close else none
  | .atom r :: tokens => read outer (g.add r) tokens
  | .openGroup :: tokens => read (g :: outer) {} tokens
  | .closeGroup :: tokens =>
    match outer with
    | [] => none
    | h :: outer => read outer (h.add g.close) tokens
  | .bar :: tokens => read outer g.branch tokens
  | .times min max :: tokens =>
    match g.items with
    | [] => none
    | r :: items => read outer { g with items := .rep r min max :: items } tokens

end OpenGroup

/-- Why a source is no regular expression. -/
inductive RegexError where
  | syntaxError
  | tooLarge
  deriving DecidableEq, Repr

/-- The refusal in words. -/
def RegexError.message : RegexError → String
  | syntaxError => "regex parse error"
  | tooLarge => "Compiled regex exceeds size limit of 10485760 bytes."

namespace Regex

/-- The greatest size of an expression: ten mebibytes, at 32 bytes a node. -/
def maxSize : Nat :=
  327680

/-- Reads an expression. -/
def parse? (source : String) : Option Regex := do
  let units ← RegexUnit.scan source.toList
  let tokens ← RegexToken.scan units
  OpenGroup.read [] {} tokens

/-- Reads an expression that is not too large. -/
def compile (source : String) : Except RegexError Regex :=
  match parse? source with
  | none => .error .syntaxError
  | some r => if r.size ≤ maxSize then .ok r else .error .tooLarge

end Regex

end IncludeAudit
