/-!
# Globs

A glob is a list of tokens that consume a text from its beginning. `?` stands for one character, `*`
for any number of characters, slashes among them, and `[...]` for one character of a class. `**` has
to be a whole component of a path; it stands for nothing, for any beginning that ends in a slash, or
for the whole rest.

* `Glob.parse`: reads the tokens, or tells which rule the pattern breaks first;
* `Glob.matchesChars`: by recursion on the tokens, each of which is tried at every place that it may
  leave.
-/

namespace IncludeAudit

/-- One member of a character class. -/
inductive GlobRange where
  | single (c : Char)
  /-- By code point, both ends included. -/
  | span (low high : Char)
  deriving DecidableEq, Repr

/-- True of the characters in the range. -/
def GlobRange.contains : GlobRange → Char → Bool
  | single c, x => x == c
  | span low high, x => low ≤ x && x ≤ high

/-- What one part of a glob stands for. -/
inductive GlobToken where
  | char (c : Char)
  | anyChar
  | anySequence
  | anyComponents
  | oneOf (members : List GlobRange)
  | noneOf (members : List GlobRange)
  deriving DecidableEq, Repr

/-- The rules that a glob can break. -/
inductive GlobError where
  /-- Three or more asterisks in a row. -/
  | wildcards
  /-- Two asterisks that are no whole path component. -/
  | recursiveWildcards
  /-- A bracket that does not close. -/
  | invalidRange
  deriving DecidableEq, Repr

/-- The rule in words. -/
def GlobError.message : GlobError → String
  | wildcards => "wildcards are either regular `*` or recursive `**`"
  | recursiveWildcards => "recursive wildcards must form a single path component"
  | invalidRange => "invalid range pattern"

/-- A glob. -/
abbrev Glob := List GlobToken

namespace Glob

/-! ## Reading -/

/-- The members of a class: three characters with a hyphen in the middle are a range. -/
def classMembers : List Char → List GlobRange
  | low :: '-' :: high :: rest => .span low high :: classMembers rest
  | c :: rest => .single c :: classMembers rest
  | [] => []

/-- The text before the next closing bracket and the text after it. -/
def upToBracket : List Char → Option (List Char × List Char)
  | [] => none
  | ']' :: rest => some ([], rest)
  | c :: rest => (upToBracket rest).map fun (inside, after) => (c :: inside, after)

/-- Reads a class after its opening bracket. The first character of a class never closes it. -/
def readClass : List Char → Option (GlobToken × List Char)
  | '!' :: first :: rest =>
    (upToBracket rest).map fun (inside, after) => (.noneOf (classMembers (first :: inside)), after)
  | '!' :: [] => none
  | first :: rest =>
    (upToBracket rest).map fun (inside, after) => (.oneOf (classMembers (first :: inside)), after)
  | [] => none

/-- Adds `**`, unless there are two tokens already and the last one is `**`. -/
def addComponents (tokens : List GlobToken) : List GlobToken :=
  match tokens with
  | .anyComponents :: _ :: _ => tokens
  | _ => .anyComponents :: tokens

/-- Reads the rest of a pattern. `previous` is the character before it, and `tokens` holds what is
read already, last token first. -/
def parseFrom (previous : Option Char) (tokens : List GlobToken) (cs : List Char) :
    Except GlobError Glob :=
  match cs with
  | [] => .ok tokens.reverse
  | '*' :: '*' :: '*' :: _ => .error .wildcards
  | '*' :: '*' :: rest =>
    if previous.all (· == '/') then
      match rest with
      | [] => .ok (addComponents tokens).reverse
      | '/' :: rest => parseFrom (some '/') (addComponents tokens) rest
      | _ => .error .recursiveWildcards
    else .error .recursiveWildcards
  | '*' :: rest => parseFrom (some '*') (.anySequence :: tokens) rest
  | '?' :: rest => parseFrom (some '?') (.anyChar :: tokens) rest
  | '[' :: rest =>
    match readClass rest with
    | some (token, after) =>
      if after.length ≤ rest.length then parseFrom (some ']') (token :: tokens) after
      else .error .invalidRange
    | none => .error .invalidRange
  | c :: rest => parseFrom (some c) (.char c :: tokens) rest
termination_by cs.length

/-- Reads a pattern, or gives the first rule that it breaks. -/
def parse (source : String) : Except GlobError Glob :=
  parseFrom none [] source.toList

/-! ## Matching -/

/-- Every end of a text, the whole text first. -/
def ends : List Char → List (List Char)
  | [] => [[]]
  | c :: cs => (c :: cs) :: ends cs

/-- The ends of a text that follow one of its slashes. -/
def endsAfterSlash : List Char → List (List Char)
  | [] => []
  | c :: cs => if c = '/' then cs :: endsAfterSlash cs else endsAfterSlash cs

/-- The characters that a token for one character accepts. -/
def accepts : GlobToken → Char → Bool
  | .char d, c => c == d
  | .anyChar, _ => true
  | .oneOf members, c => members.any (·.contains c)
  | .noneOf members, c => !members.any (·.contains c)
  | .anySequence, _ => false
  | .anyComponents, _ => false

/-- The places at which a token may stop when it starts at the beginning of the text. -/
def stops (token : GlobToken) (cs : List Char) : List (List Char) :=
  match token with
  | .anySequence => ends cs
  | .anyComponents => cs :: endsAfterSlash cs ++ [[]]
  | token =>
    match cs with
    | [] => []
    | c :: cs => if accepts token c then [cs] else []

/-- True if the tokens can consume the whole text. -/
def matchesChars : Glob → List Char → Bool
  | [], cs => cs.isEmpty
  | token :: tokens, cs => (stops token cs).any (matchesChars tokens)

/-- True if the glob stands for the text. -/
def matchesText (glob : Glob) (text : String) : Bool :=
  matchesChars glob text.toList

end Glob

end IncludeAudit
