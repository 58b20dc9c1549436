import IncludeAudit.Engine.Yaml.Bracket

/-!
# YAML blocks

Lists and maps whose items stand below each other: an item begins with a dash and an entry with its
key, all in one column, and what belongs to an item stands right of that column. What begins no item
may stand in the column itself, and so may a list that is the value of an entry.

Document markers, directives, anchors, tags, block scalars and keys after a question mark are not
read.
-/

namespace IncludeAudit.Yaml

/-- Reads a node that is no block, of which the lines after the first begin no further left than the
column `least`. -/
def inline? (least : Nat) (ps : List PlacedChar) : Option (Document × List PlacedChar) :=
  if ps.head?.any fun p => p.char == '[' || p.char == '\x7b' then bracketNode? least ps
  else if atQuote ps then quoted? ps
  else plain? false least ps

/-- Reads a key and its colon. The key may be left out. -/
def blockKey? (least : Nat) (ps : List PlacedChar) : Option (Document × List PlacedChar) :=
  if atColon false ps then (after? ':' ps).map (absent, ·)
  else do
    let (key, after) ← inline? least ps
    let rest ← afterKey? false ps after
    some (key, rest)

/-- Where a block goes on after one of its items. -/
inductive Continuation where
  /-- With a further item. -/
  | item (ps : List PlacedChar)
  | stop

/-- Looks for a further item of a block in the given column. What follows an item stands on a line
of its own and no further right than the items. `isItem` is true of what begins an item; what does
not begin one ends the block if `mayEnd`. -/
def continuation? (column : Nat) (isItem : List PlacedChar → Bool) (mayEnd : Bool)
    (after : List PlacedChar) : Option Continuation :=
  match skipFresh false false after with
  | (_, []) => some .stop
  | (fresh, p :: rest) =>
    if !fresh || column < p.column then none
    else if p.column < column then some .stop
    else if isItem (p :: rest) then some (.item (p :: rest))
    else if mayEnd then some .stop
    else none

mutual

/-- Reads a node and says what follows it, at the place of an item or of the value of an entry
(`inEntry`). A node that begins left of the column `least` is absent, but one column left of it, in
the column of the block itself, two nodes may begin: a list that is the value of an entry, and what
begins no item of the block. `fresh` says that a block may begin on the line. -/
def blockNode? (least : Nat) (inEntry fresh : Bool) (ps : List PlacedChar) :
    Option (Document × List PlacedChar) := do
  let (fresh, start) := skipFresh fresh false ps
  let ⟨start, _⟩ ← shorter? (ps.length + 1) start
  let column := (start.head?.map (·.column)).getD 0
  let inColumn := column + 1 == least
  if start.isEmpty || column + 1 < least then some (absent, ps)
  else if atMark '-' start then
    if inColumn && !inEntry then some (absent, ps)
    else if fresh then (blockItems? column inColumn start).map fun (items, rest) => (.list items, rest)
    else none
  else if fresh && (blockKey? least start).isSome then
    if inColumn then some (absent, ps)
    else (blockEntries? column start).map fun (entries, rest) => (.map entries, rest)
  else inline? least start
termination_by 2 * ps.length + 1
decreasing_by all_goals omega

/-- Reads the items of a list in the given column. A list in the column of a key (`inEntry`) ends
with the next key. -/
def blockItems? (column : Nat) (inEntry : Bool) (ps : List PlacedChar) :
    Option (List Document × List PlacedChar) := do
  let rest ← after? '-' ps
  let ⟨rest, _⟩ ← shorter? ps.length rest
  let (item, after) ← blockNode? (column + 1) false true rest
  match ← continuation? column (atMark '-') inEntry after with
  | .stop => some ([item], after)
  | .item next =>
    let ⟨next, _⟩ ← shorter? ps.length next
    let (items, rest) ← blockItems? column inEntry next
    some (item :: items, rest)
termination_by 2 * ps.length
decreasing_by all_goals omega

/-- Reads the entries of a map in the given column. -/
def blockEntries? (column : Nat) (ps : List PlacedChar) :
    Option (List (Document × Document) × List PlacedChar) := do
  let (key, rest) ← blockKey? (column + 1) ps
  let ⟨rest, _⟩ ← shorter? ps.length rest
  let (value, after) ← blockNode? (column + 1) true (atColon false ps) rest
  match ← continuation? column (fun _ => true) false after with
  | .stop => some ([(key, value)], after)
  | .item next =>
    let ⟨next, _⟩ ← shorter? ps.length next
    let (entries, rest) ← blockEntries? column next
    some ((key, value) :: entries, rest)
termination_by 2 * ps.length
decreasing_by all_goals omega

end

end IncludeAudit.Yaml

namespace IncludeAudit

/-- Reads a YAML text that holds one node. -/
def Document.ofYaml? (text : String) : Option Document := do
  let ps := Yaml.place text
  if (Yaml.skipFresh true false ps).2.isEmpty then none
  let (node, after) ← Yaml.blockNode? 0 false true ps
  if (Yaml.skipFresh false false after).2.isEmpty then some node else none

end IncludeAudit
