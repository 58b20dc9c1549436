import IncludeAudit.Engine.Regex.Syntax

/-!
# Tokens of regular expressions

A pattern is read in three passes. The first joins each backslash with the character that it escapes
(`RegexUnit`), the second joins units to tokens (`RegexToken`), and the third, in the parser, nests
the tokens. No pass gives a reason for a refusal: a pattern is a regular expression or it is not.
-/

namespace IncludeAudit

/-- A character as it stands, or one after a backslash. -/
inductive RegexUnit where
  | plain (c : Char)
  | escaped (c : Char)
  deriving DecidableEq, Repr

namespace RegexUnit

/-- Joins each backslash with the next character. A backslash at the end is refused. -/
def scan : List Char → Option (List RegexUnit)
  | [] => some []
  | '\\' :: c :: rest => (scan rest).map (escaped c :: ·)
  | '\\' :: [] => none
  | c :: rest => (scan rest).map (plain c :: ·)

/-- The character that a letter stands for after a backslash. -/
def controlChar? : Char → Option Char
  | 'a' => some '\x07'
  | 'f' => some '\x0c'
  | 'n' => some '\n'
  | 'r' => some '\r'
  | 't' => some '\t'
  | 'v' => some '\x0b'
  | _ => none

/-- The characters that stand for themselves after a backslash: ASCII, neither letters nor digits,
nor the two angle brackets, which are conditions on words. -/
def isEscapable (c : Char) : Bool :=
  c.toNat < 128 && !c.isAlphanum && c != '<' && c != '>'

/-- The character that the unit stands for, if it is one. -/
def char? : RegexUnit → Option Char
  | plain c => some c
  | escaped c => if isEscapable c then some c else controlChar? c

/-- The set that a letter stands for after a backslash. -/
def class? : RegexUnit → Option CharSet
  | escaped 'd' => some (.property .digit)
  | escaped 'D' => some (.compl (.property .digit))
  | escaped 'w' => some (.property .word)
  | escaped 'W' => some (.compl (.property .word))
  | escaped 's' => some (.property .blank)
  | escaped 'S' => some (.compl (.property .blank))
  | _ => none

/-- The set of characters that the unit stands for. -/
def set? (u : RegexUnit) : Option CharSet :=
  u.class?.or (u.char?.map .single)

/-- The condition that a character stands for after a backslash. -/
def assertion? : RegexUnit → Option Assertion
  | escaped 'A' => some .textStart
  | escaped 'z' => some .textEnd
  | escaped 'b' => some .wordBoundary
  | escaped 'B' => some .noWordBoundary
  | escaped '<' => some .wordStart
  | escaped '>' => some .wordEnd
  | _ => none

end RegexUnit

/-- One token of a pattern. -/
inductive RegexToken where
  | atom (r : Regex)
  | openGroup
  | closeGroup
  | bar
  | times (min : Nat) (max : Option Nat)
  deriving Repr

/-! ## Classes -/

/-- The operations between two parts of a class. -/
inductive ClassOperator where
  | intersection
  | difference
  | symmetricDifference
  deriving DecidableEq, Repr

/-- The set that an operation makes of two. -/
def ClassOperator.apply : ClassOperator → CharSet → CharSet → CharSet
  | intersection, a, b => .inter a b
  | difference, a, b => .diff a b
  | symmetricDifference, a, b => .union (.diff a b) (.diff b a)

/-- How far a class is read: at its beginning some characters have a meaning of their own. -/
inductive ClassStage where
  /-- Nothing is read after the bracket. -/
  | opened
  /-- Nothing but the mark of negation is read. -/
  | negated
  /-- Only hyphens are read. -/
  | hyphens
  | body
  deriving DecidableEq, Repr

/-- A class that is not read to its end. -/
structure OpenClass where
  stage : ClassStage := .opened
  isNegated : Bool := false
  /-- The part before the last operator, and that operator. -/
  left : Option (CharSet × ClassOperator) := none
  /-- The members since the last operator. -/
  members : CharSet := .none

namespace OpenClass

/-- The class with further members. -/
def add (f : OpenClass) (s : CharSet) : OpenClass :=
  { f with stage := .body, members := .union f.members s }

/-- The class with a hyphen at its beginning. -/
def addHyphen (f : OpenClass) : OpenClass :=
  { f.add (.single '-') with stage := .hyphens }

/-- The set on the left of the next operator. -/
def combined (f : OpenClass) : CharSet :=
  match f.left with
  | some (left, op) => op.apply left f.members
  | none => f.members

/-- The class after an operator. -/
def operate (f : OpenClass) (op : ClassOperator) : OpenClass :=
  { f with stage := .body, left := some (f.combined, op), members := .none }

/-- The set that the whole class stands for. -/
def close (f : OpenClass) : CharSet :=
  if f.isNegated then .compl f.combined else f.combined

/-- The operator that a unit writes with the next one. -/
def operatorAt? (u : RegexUnit) : List RegexUnit → Option ClassOperator
  | v :: _ =>
    if u ≠ v then none
    else if u = .plain '&' then some .intersection
    else if u = .plain '-' then some .difference
    else if u = .plain '~' then some .symmetricDifference
    else none
  | [] => none

/-- The end of a range that goes on with a hyphen. A hyphen before another hyphen or before a
closing bracket makes no range. -/
def rangeEndAt? : List RegexUnit → Option RegexUnit
  | .plain '-' :: high :: _ => if high = .plain ']' ∨ high = .plain '-' then none else some high
  | _ => none

/-- The range between two units, which must be characters in order. -/
def range? (low high : RegexUnit) : Option CharSet := do
  let low ← low.char?
  let high ← high.char?
  if low ≤ high then some (.range low high) else none

/-- Reads the rest of a class inside other open classes. A class that opens with a closing bracket
or with hyphens has them as members; elsewhere a hyphen before a closing bracket is a member. -/
def read (outer : List OpenClass) (f : OpenClass) :
    List RegexUnit → Option (CharSet × List RegexUnit)
  | [] => none
  | u :: units =>
    if u = .plain '^' ∧ f.stage = .opened then
      read outer { f with stage := .negated, isNegated := true } units
    else if u = .plain '-' ∧ f.stage ≠ .body then
      read outer f.addHyphen units
    else if u = .plain ']' ∧ (f.stage = .opened ∨ f.stage = .negated) then
      read outer (f.add (.single ']')) units
    else if u = .plain ']' then
      match outer with
      | [] => some (f.close, units)
      | g :: outer => read outer (g.add f.close) units
    else if u = .plain '[' then
      read ({ f with stage := .body } :: outer) {} units
    else
      match operatorAt? u units with
      | some op => read outer (f.operate op) units.tail
      | none =>
        match rangeEndAt? units with
        | some high =>
          match range? u high with
          | some s => read outer (f.add s) units.tail.tail
          | none => none
        | none =>
          match u.set? with
          | some s => read outer (f.add s) units
          | none => none
termination_by units => units.length
decreasing_by all_goals (simp only [List.length_cons, List.length_tail]; omega)

end OpenClass

/-! ## Counts -/

namespace RegexToken

/-- True of an unescaped blank character. -/
def isBlankUnit : RegexUnit → Bool
  | .plain c => Text.isBlank c
  | .escaped _ => false

/-- The value of an unescaped digit. -/
def digit? : RegexUnit → Option Nat
  | .plain c => if c.isDigit then some (c.toNat - '0'.toNat) else none
  | .escaped _ => none

/-- The greatest count. -/
def maxCount : Nat :=
  UInt32.size - 1

/-- Reads a decimal number with blanks around it. -/
def readDecimal (units : List RegexUnit) : Option (Nat × List RegexUnit) :=
  let units := units.dropWhile isBlankUnit
  let digits := (units.takeWhile fun u => (digit? u).isSome).filterMap digit?
  let rest := (units.dropWhile fun u => (digit? u).isSome).dropWhile isBlankUnit
  let value := digits.foldl (fun n d => 10 * n + d) 0
  if digits.isEmpty ∨ maxCount < value then none else some (value, rest)

/-- Reads the count of a repetition after its opening brace. -/
def readCount (units : List RegexUnit) : Option (RegexToken × List RegexUnit) :=
  match readDecimal units with
  | some (min, .plain '\x7d' :: rest) => some (times min (some min), rest)
  | some (min, .plain ',' :: .plain '\x7d' :: rest) => some (times min none, rest)
  | some (min, .plain ',' :: rest) =>
    match readDecimal rest with
    | some (max, .plain '\x7d' :: rest) =>
      if min ≤ max then some (times min (some max), rest) else none
    | _ => none
  | _ => none

/-! ## Tokens -/

/-- A repetition and the mark that makes it lazy, if it has one. -/
def dropLazy : List RegexUnit → List RegexUnit
  | .plain '?' :: rest => rest
  | rest => rest

/-- Reads the first token. A group may be marked as not capturing; it may have no other marks. -/
def readFirst (u : RegexUnit) (units : List RegexUnit) : Option (RegexToken × List RegexUnit) :=
  match u with
  | .plain '(' =>
    match units with
    | .plain '?' :: .plain ':' :: rest => some (openGroup, rest)
    | .plain '?' :: _ => none
    | rest => some (openGroup, rest)
  | .plain ')' => some (closeGroup, units)
  | .plain '|' => some (bar, units)
  | .plain '*' => some (times 0 none, dropLazy units)
  | .plain '+' => some (times 1 none, dropLazy units)
  | .plain '?' => some (times 0 (some 1), dropLazy units)
  | .plain '\x7b' => (readCount units).map fun (token, rest) => (token, dropLazy rest)
  | .plain '[' => (OpenClass.read [] {} units).map fun (s, rest) => (atom (.one s), rest)
  | .plain '.' => some (atom (.one .dot), units)
  | .plain '^' => some (atom (.assert .textStart), units)
  | .plain '$' => some (atom (.assert .textEnd), units)
  | u => ((u.assertion?.map .assert).or (u.set?.map .one)).map fun r => (atom r, units)

/-- Splits units into tokens. -/
def scan (units : List RegexUnit) : Option (List RegexToken) :=
  match units with
  | [] => some []
  | u :: units =>
    match readFirst u units with
    | some (token, rest) =>
      if rest.length ≤ units.length then (scan rest).map (token :: ·) else none
    | none => none
termination_by units.length

end RegexToken

end IncludeAudit
