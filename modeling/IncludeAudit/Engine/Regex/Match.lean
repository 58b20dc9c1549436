import IncludeAudit.Engine.Regex.Syntax

/-!
# Matching regular expressions

An expression maps the places of a text where it may start to the places where it may end. Both are
finite lists of places, so the number of steps is bounded by the text and not by the number of ways
in which the expression can match. `Regex.matchesText` starts at every place of the text.
-/

namespace IncludeAudit

/-- A place in a text: the character before it and the text after it. -/
structure Place where
  previous : Option Char
  rest : List Char
  deriving DecidableEq, Repr

namespace Place

/-- The place after the next character, if that is a member of the set. -/
def advance? (s : CharSet) (p : Place) : Option Place :=
  match p.rest with
  | [] => none
  | c :: rest => if s.contains c then some ⟨some c, rest⟩ else none

/-- True if a word character stands before the place. -/
def afterWord (p : Place) : Bool :=
  p.previous.any Text.isWordChar

/-- True if a word character stands after the place. -/
def beforeWord (p : Place) : Bool :=
  p.rest.head?.any Text.isWordChar

/-- True if the condition holds at the place. -/
def satisfies (p : Place) : Assertion → Bool
  | .textStart => p.previous.isNone
  | .textEnd => p.rest.isEmpty
  | .wordBoundary => p.afterWord != p.beforeWord
  | .noWordBoundary => p.afterWord == p.beforeWord
  | .wordStart => !p.afterWord && p.beforeWord
  | .wordEnd => p.afterWord && !p.beforeWord

/-- The place before a text and all places after it. -/
def all (previous : Option Char) : List Char → List Place
  | [] => [⟨previous, []⟩]
  | c :: cs => ⟨previous, c :: cs⟩ :: all (some c) cs

end Place

namespace Regex

/-- The places after exactly `n` steps. -/
def exactly (step : List Place → List Place) : Nat → List Place → List Place
  | 0, places => places
  | n + 1, places => if places.isEmpty then [] else exactly step n (step places)

/-- The places in `seen` and those after at most `n` steps from the places in `latest`. -/
def atMost (step : List Place → List Place) : Nat → List Place → List Place → List Place
  | 0, _, seen => seen
  | n + 1, latest, seen =>
    let fresh := ((step latest).filter fun p => !seen.contains p).eraseDups
    if fresh.isEmpty then seen else atMost step n fresh (seen ++ fresh)

/-- A number of steps after which no further place can be reached: each step that reaches a new
place reaches one with a shorter rest than the longest. -/
def stepBound (places : List Place) : Nat :=
  (places.map (·.rest.length)).foldl max 0 + 1

/-- The places where the expression may end if it starts at one of the given places. -/
def step : Regex → List Place → List Place
  | empty => fun places => places
  | one s => fun places => places.filterMap (Place.advance? s)
  | assert a => fun places => places.filter (·.satisfies a)
  | seq r s => fun places => step s (step r places)
  | alt r s => fun places => (step r places ++ step s places).eraseDups
  | rep r min max => fun places =>
    let first := exactly (step r) min places
    atMost (step r) (max.elim (stepBound first) (· - min)) first first

/-- True if some part of the text matches. -/
def matchesText (r : Regex) (text : String) : Bool :=
  !(r.step (Place.all none text.toList)).isEmpty

end Regex

end IncludeAudit
