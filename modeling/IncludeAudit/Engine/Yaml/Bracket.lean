import IncludeAudit.Engine.Yaml.Scalar

/-!
# YAML in brackets

Lists in square brackets and maps in braces. Inside them lines and columns do not matter, but for
two rules: a key and its colon stand on one line, and only a key may begin in the column of the
block around the brackets. An item of a list may be a single entry of a map without braces, and an
entry of a map may leave its value out.

All functions have the column `least` where the lines of the block around the brackets begin at the
earliest, which is one right of the column of the block.
-/

namespace IncludeAudit.Yaml

/-- The longest key, with the blanks after it. -/
def keyLimit : Nat :=
  1024

/-- What follows the colon that makes a node a key: `start` begins with the node and `after` is what
follows it. Inside brackets, the colon directly after a quote needs no blank after it. -/
def afterKey? (inBrackets : Bool) (start after : List PlacedChar) : Option (List PlacedChar) :=
  match start, skip false after with
  | p :: _, q :: rest =>
    let adjacent := inBrackets && atQuote start && after.length == rest.length + 1
    if q.char = ':' && p.line == q.line && start.length ≤ rest.length + 1 + keyLimit
        && (adjacent || atColon inBrackets (q :: rest)) then some rest
    else none
  | _, _ => none

/-- What follows the given character, if it comes next. -/
def after? (c : Char) : List PlacedChar → Option (List PlacedChar)
  | p :: rest => if p.char = c then some rest else none
  | [] => none

/-- True if a node that is not a key may begin here: not in the column of the block around the
brackets. -/
def mayStandAlone (least : Nat) (start : List PlacedChar) : Bool :=
  start.head?.all fun p => p.column + 1 != least

mutual

/-- Reads a node inside brackets. -/
def bracketNode? (least : Nat) (ps : List PlacedChar) :
    Option (Document × List PlacedChar) :=
  match ps with
  | [] => none
  | p :: rest =>
    if p.char = '[' then (bracketItems? least rest).map fun (items, rest) => (.list items, rest)
    else if p.char = '\x7b' then
      (bracketEntries? least rest).map fun (entries, rest) => (.map entries, rest)
    else if atQuote (p :: rest) then quoted? (p :: rest)
    else plain? true least (p :: rest)
termination_by 2 * ps.length
decreasing_by all_goals simp only [List.length_cons]; omega

/-- Reads the value of an entry inside brackets, unless it is left out. -/
def bracketValue? (least : Nat) (ps : List PlacedChar) :
    Option (Document × List PlacedChar) := do
  let start := skip false ps
  if (start.head?.any fun p => p.char == ',' || p.char == ']' || p.char == '\x7d') then
    some (absent, start)
  else
    let ⟨start, _⟩ ← shorter? (ps.length + 1) start
    bracketNode? least start
termination_by 2 * ps.length + 1
decreasing_by omega

/-- Reads the items of a list and the bracket after them. -/
def bracketItems? (least : Nat) (ps : List PlacedChar) :
    Option (List Document × List PlacedChar) := do
  let ⟨start, _⟩ ← shorter? (ps.length + 1) (skip false ps)
  match after? ']' start with
  | some rest => some ([], rest)
  | none =>
    let (node, after) ← bracketNode? least start
    let (item, after) ← match afterKey? true start after with
      | none => if mayStandAlone least start then some (node, after) else none
      | some rest => do
        let ⟨rest, _⟩ ← shorter? ps.length rest
        let (value, after) ← bracketValue? least rest
        some (Document.map [(node, value)], after)
    match after? ',' (skip false after) with
    | some rest =>
      let ⟨rest, _⟩ ← shorter? ps.length rest
      let (items, rest) ← bracketItems? least rest
      some (item :: items, rest)
    | none => (after? ']' (skip false after)).map ([item], ·)
termination_by 2 * ps.length + 1
decreasing_by all_goals omega

/-- Reads the entries of a map and the brace after them. -/
def bracketEntries? (least : Nat) (ps : List PlacedChar) :
    Option (List (Document × Document) × List PlacedChar) := do
  let ⟨start, _⟩ ← shorter? (ps.length + 1) (skip false ps)
  match after? '\x7d' start with
  | some rest => some ([], rest)
  | none =>
    let (key, after, colon) ←
      if atColon true start then some (absent, start, after? ':' start)
      else
        (bracketNode? least start).map fun (key, after) =>
          (key, after, afterKey? true start after)
    let (value, after) ← match colon with
      | none => if mayStandAlone least start then some (absent, after) else none
      | some rest => do
        let ⟨rest, _⟩ ← shorter? ps.length rest
        bracketValue? least rest
    match after? ',' (skip false after) with
    | some rest =>
      let ⟨rest, _⟩ ← shorter? ps.length rest
      let (entries, rest) ← bracketEntries? least rest
      some ((key, value) :: entries, rest)
    | none => (after? '\x7d' (skip false after)).map ([(key, value)], ·)
termination_by 2 * ps.length + 1
decreasing_by all_goals omega

end

end IncludeAudit.Yaml
