import IncludeAudit.Document.Basic
import IncludeAudit.Engine.Json
import IncludeAudit.Engine.Yaml.Place

/-!
# YAML scalars

A scalar is plain or stands in quotes. Both may go over several lines, which are folded: one end of
a line counts as a blank, and of more ends the first is dropped. Blanks around the ends of lines are
dropped as well.

A scalar can always be read as a text. A plain one can also be a truth value or null.
-/

namespace IncludeAudit.Yaml

/-- What separates two characters of a scalar. -/
inductive Gap where
  /-- Blanks within a line, last one first. -/
  | blanks (cs : List Char)
  /-- The end of a line and so many more. -/
  | folded (more : Nat)
  /-- The end of a line after a backslash and so many more. -/
  | escaped (more : Nat)

namespace Gap

/-- No separation. -/
def none : Gap :=
  blanks []

/-- The characters that the gap stands for, last one first. -/
def shown : Gap → List Char
  | blanks cs => cs
  | folded 0 => [' ']
  | folded more => List.replicate more '\n'
  | escaped more => List.replicate more '\n'

/-- The gap with one more blank. -/
def addBlank (c : Char) : Gap → Gap
  | blanks cs => blanks (c :: cs)
  | g => g

/-- The gap with one more end of a line. -/
def addBreak : Gap → Gap
  | blanks _ => folded 0
  | folded more => folded (more + 1)
  | escaped more => escaped (more + 1)

/-- True if nothing separates the characters. -/
def isNone : Gap → Bool
  | blanks [] => true
  | _ => false

/-- True of a gap that goes over the end of a line. -/
def isBreak : Gap → Bool
  | blanks _ => false
  | _ => true

end Gap

/-! ## Plain scalars -/

/-- True if a colon comes next that ends a key. Inside brackets one of their marks may follow it. -/
def atColon (inBrackets : Bool) : List PlacedChar → Bool
  | p :: rest =>
    p.char == ':' && (atGap rest || (inBrackets && rest.head?.any (isBracketMark ·.char)))
  | [] => false

/-- True if a plain scalar does not go on with the characters that come next. -/
def endsPlain (inBrackets : Bool) (gap : Gap) : List PlacedChar → Bool
  | [] => true
  | p :: rest =>
    atColon inBrackets (p :: rest) || (inBrackets && isBracketMark p.char)
      || (p.char == '#' && !gap.isNone)

/-- What follows a plain scalar: what comes after the gap, and before it the end of a line if the
gap has one. -/
def afterPlain (gap : Gap) (rest : List PlacedChar) : List PlacedChar :=
  if gap.isBreak then ⟨'\n', 0, 0⟩ :: rest else rest

/-- Reads the rest of a plain scalar: its characters and what follows it. `before` has the
characters so far, last one first. Outside brackets, lines whose first character is left of the
column `least` do not belong to it. -/
def plainFrom (inBrackets : Bool) (least : Nat) (before : List Char) (gap : Gap) :
    List PlacedChar → Option (List Char × List PlacedChar)
  | [] => some (before.reverse, [])
  | p :: rest =>
    if p.char = '\n' then plainFrom inBrackets least before gap.addBreak rest
    else if isGap p.char then
      if gap.isBreak && p.char == '\t' && p.column < least then none
      else plainFrom inBrackets least before (gap.addBlank p.char) rest
    else if endsPlain inBrackets gap (p :: rest)
        || (!inBrackets && gap.isBreak && p.column < least) then
      some (before.reverse, afterPlain gap (p :: rest))
    else plainFrom inBrackets least (p.char :: (gap.shown ++ before)) .none rest

/-- A plain scalar with its readings. -/
def plainScalar (text : String) : Scalar where
  text := some text
  truth := if text = "true" then some true else if text = "false" then some false else none
  isNull := text == "~" || text == "null"

/-- The scalar of a value that is left out. -/
def absent : Document :=
  .scalar (plainScalar "~")

/-- True of the characters with which no plain scalar begins. -/
def isReserved (c : Char) : Bool :=
  isBracketMark c || c == '&' || c == '*' || c == '!' || c == '%' || c == '@' || c == '\x60'

/-- Reads a plain scalar. Outside brackets two more characters announce a scalar of another kind. -/
def plain? (inBrackets : Bool) (least : Nat) (ps : List PlacedChar) :
    Option (Document × List PlacedChar) :=
  match ps with
  | [] => none
  | p :: _ =>
    if isReserved p.char || (!inBrackets && (p.char == '|' || p.char == '>')) then none
    else if atMark '-' ps || atMark '?' ps || atColon inBrackets ps then none
    else (plainFrom inBrackets least [] .none ps).map fun (cs, rest) =>
      (.scalar (plainScalar (String.ofList cs)), rest)

/-! ## Scalars in quotes -/

/-- The source of a scalar in single quotes, after the first one, and what follows it. Of two quotes
the source has one. -/
def singleQuoted? : List PlacedChar → Option (List Char × List PlacedChar)
  | [] => none
  | [p] => if p.char = '\'' then some ([], []) else none
  | p :: q :: rest =>
    if p.char = '\'' then
      if q.char = '\'' then (singleQuoted? rest).map fun (cs, rest) => ('\'' :: cs, rest)
      else some ([], q :: rest)
    else (singleQuoted? (q :: rest)).map fun (cs, rest) => (p.char :: cs, rest)

/-- The source of a scalar in double quotes, after the first one, and what follows it. A quote after
a backslash belongs to the source. -/
def doubleQuoted? (escaping : Bool) : List PlacedChar → Option (List Char × List PlacedChar)
  | [] => none
  | p :: rest =>
    if p.char = '"' && !escaping then some ([], rest)
    else
      (doubleQuoted? (p.char == '\\' && !escaping) rest).map fun (cs, rest) => (p.char :: cs, rest)

/-- Folds the lines of a source without escapes. -/
def fold (gap : Gap) : List Char → List Char
  | [] => gap.shown.reverse
  | c :: cs =>
    if c = '\n' then fold gap.addBreak cs
    else if isGap c then fold (gap.addBlank c) cs
    else gap.shown.reverse ++ c :: fold .none cs

/-- The character of a one-letter escape. -/
def escaped? : Char → Option Char
  | '0' => some '\x00'
  | 'a' => some '\x07'
  | 'b' => some '\x08'
  | 't' => some '\t'
  | '\t' => some '\t'
  | 'n' => some '\n'
  | 'v' => some '\x0b'
  | 'f' => some '\x0c'
  | 'r' => some '\r'
  | 'e' => some '\x1b'
  | ' ' => some ' '
  | '"' => some '"'
  | '\'' => some '\''
  | '\\' => some '\\'
  | 'N' => some '\u0085'
  | '_' => some '\u00a0'
  | 'L' => some '\u2028'
  | 'P' => some '\u2029'
  | _ => none

/-- The number of digits after the letter of an escape that gives a code point. -/
def digitCount? : Char → Option Nat
  | 'x' => some 2
  | 'u' => some 4
  | 'U' => some 8
  | _ => none

/-- The character with the code point that the first digits give. -/
def ofDigits? (count : Nat) (cs : List Char) : Option Char :=
  if cs.length < count then none
  else (JsonText.hexValue? (cs.take count)).bind fun n =>
    if n.isValidChar then some (Char.ofNat n) else none

/-- Reads the escapes of a source and folds its lines. -/
def unescape? (gap : Gap) (cs : List Char) : Option (List Char) :=
  match cs with
  | [] => some gap.shown.reverse
  | '\\' :: '\n' :: rest => (unescape? (.escaped 0) rest).map (gap.shown.reverse ++ ·)
  | '\\' :: c :: rest =>
    match digitCount? c with
    | some count => do
      let d ← ofDigits? count rest
      let ds ← unescape? .none (rest.drop count)
      some (gap.shown.reverse ++ d :: ds)
    | none => do
      let d ← escaped? c
      let ds ← unescape? .none rest
      some (gap.shown.reverse ++ d :: ds)
  | c :: rest =>
    if c = '\n' then unescape? gap.addBreak rest
    else if isGap c then unescape? (gap.addBlank c) rest
    else (unescape? .none rest).map (gap.shown.reverse ++ c :: ·)
termination_by cs.length
decreasing_by all_goals simp only [List.length_cons, List.length_drop]; omega

/-- The scalar of a text in quotes. -/
def quotedScalar (cs : List Char) : Document :=
  .scalar { text := some (String.ofList cs) }

/-- Reads a scalar in quotes. -/
def quoted? : List PlacedChar → Option (Document × List PlacedChar)
  | [] => none
  | p :: rest =>
    if p.char = '\'' then
      (singleQuoted? rest).map fun (cs, rest) => (quotedScalar (fold .none cs), rest)
    else if p.char = '"' then do
      let (cs, rest) ← doubleQuoted? false rest
      let cs ← unescape? .none cs
      some (quotedScalar cs, rest)
    else none

/-- True if a scalar in quotes comes next. -/
def atQuote : List PlacedChar → Bool
  | p :: _ => p.char == '\'' || p.char == '"'
  | [] => false

end IncludeAudit.Yaml
