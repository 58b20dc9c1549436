/-!
# Characters and their places

In YAML the column of a character can decide what it belongs to. So a text is read as the list of
its characters, each with its line and its column. Reading takes characters from the front, and
every step that repeats itself checks with `shorter?` that something was taken, which is why reading
ends.
-/

namespace IncludeAudit

/-- A character of a text and its place, both counted from zero. -/
structure PlacedChar where
  char : Char
  line : Nat
  column : Nat
  deriving DecidableEq, Repr

namespace Yaml

/-- Places characters from a line and a column on, with one line feed at each end of a line. A
carriage return alone ends a line too, but the places go on as within a line. What follows a null
character does not belong to the text. -/
def placeFrom (line column : Nat) : List Char → List PlacedChar
  | [] => []
  | '\x00' :: _ => []
  | '\r' :: '\n' :: cs => ⟨'\n', line, column⟩ :: placeFrom (line + 1) 0 cs
  | '\r' :: cs => ⟨'\n', line, column⟩ :: placeFrom line (column + 1) cs
  | '\n' :: cs => ⟨'\n', line, column⟩ :: placeFrom (line + 1) 0 cs
  | c :: cs => ⟨c, line, column⟩ :: placeFrom line (column + 1) cs

/-- The characters of a text with their places. -/
def place (text : String) : List PlacedChar :=
  placeFrom 0 0 text.toList

/-- The rest of a text, if it is shorter than the bound. -/
def shorter? (bound : Nat) (rest : List PlacedChar) :
    Option { r : List PlacedChar // r.length < bound } :=
  if h : rest.length < bound then some ⟨rest, h⟩ else none

/-- True of the two blank characters within a line. -/
def isGap (c : Char) : Bool :=
  c == ' ' || c == '\t'

/-- True if a blank or the end of the line comes next. -/
def atGap : List PlacedChar → Bool
  | [] => true
  | p :: _ => isGap p.char || p.char == '\n'

/-- True if the given character comes next and a blank or the end of the line after it. -/
def atMark (mark : Char) : List PlacedChar → Bool
  | p :: rest => p.char == mark && atGap rest
  | [] => false

/-- True of the characters that structure lists and maps in brackets. -/
def isBracketMark (c : Char) : Bool :=
  c == ',' || c == '[' || c == ']' || c == '\x7b' || c == '\x7d'

/-- Skips blanks, ends of lines and comments. -/
def skip (inComment : Bool) : List PlacedChar → List PlacedChar
  | [] => []
  | p :: rest =>
    if p.char = '\n' then skip false rest
    else if inComment || p.char == '#' then skip true rest
    else if isGap p.char then skip false rest
    else p :: rest

/-- Skips blanks, ends of lines and comments where no bracket is open. `fresh` says that a key may
come next; there tabs are not skipped, and it holds again after the end of a line. -/
def skipFresh (fresh inComment : Bool) : List PlacedChar → Bool × List PlacedChar
  | [] => (fresh, [])
  | p :: rest =>
    if p.char = '\n' then skipFresh true false rest
    else if inComment || p.char == '#' then skipFresh fresh true rest
    else if p.char = ' ' || (p.char == '\t' && !fresh) then skipFresh fresh false rest
    else (fresh, p :: rest)

end Yaml

end IncludeAudit
