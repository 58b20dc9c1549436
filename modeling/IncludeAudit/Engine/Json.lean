import IncludeAudit.Document.Basic

/-!
# JSON

Reads a JSON text. `JsonToken.scan` splits it into tokens, one character at a time, and the
functions after it nest the tokens, one token at a time, with the open lists and maps on a stack. So
both follow the text and end with it.

A text, `true`, `false` and `null` have one reading each, and a number has none.
-/

namespace IncludeAudit

/-! ## Texts between quotes -/

namespace JsonText

/-- The value of a hexadecimal digit. -/
def hexDigit? (c : Char) : Option Nat :=
  if c.isDigit then some (c.toNat - '0'.toNat)
  else if 'a' ≤ c ∧ c ≤ 'f' then some (c.toNat - 'a'.toNat + 10)
  else if 'A' ≤ c ∧ c ≤ 'F' then some (c.toNat - 'A'.toNat + 10)
  else none

/-- The value of hexadecimal digits. -/
def hexValue? (digits : List Char) : Option Nat :=
  digits.foldlM (fun value c => (hexDigit? c).map (16 * value + ·)) 0

/-- The character of a one-letter escape. -/
def escaped? : Char → Option Char
  | '"' => some '"'
  | '\\' => some '\\'
  | '/' => some '/'
  | 'b' => some '\x08'
  | 'f' => some '\x0c'
  | 'n' => some '\n'
  | 'r' => some '\r'
  | 't' => some '\t'
  | _ => none

/-- The code points of a text, where an escape of four digits gives the number that it writes. -/
def units? : List Char → Option (List Nat)
  | [] => some []
  | '\\' :: 'u' :: a :: b :: c :: d :: rest => do
    let unit ← hexValue? [a, b, c, d]
    let units ← units? rest
    some (unit :: units)
  | '\\' :: c :: rest => do
    let e ← escaped? c
    let units ← units? rest
    some (e.toNat :: units)
  | c :: rest => (units? rest).map (c.toNat :: ·)

/-- True of the first half of a pair. -/
def isHigh (n : Nat) : Bool :=
  0xD800 ≤ n && n ≤ 0xDBFF

/-- True of the second half of a pair. -/
def isLow (n : Nat) : Bool :=
  0xDC00 ≤ n && n ≤ 0xDFFF

/-- The characters of code points, two halves making one. A half alone makes none. -/
def joinPairs? : List Nat → Option (List Char)
  | [] => some []
  | [n] => if isHigh n || isLow n then none else some [Char.ofNat n]
  | n :: m :: rest =>
    if isHigh n then
      if isLow m then
        (joinPairs? rest).map (Char.ofNat (0x10000 + (n - 0xD800) * 0x400 + (m - 0xDC00)) :: ·)
      else none
    else if isLow n then none
    else (joinPairs? (m :: rest)).map (Char.ofNat n :: ·)

end JsonText

/-! ## Tokens -/

/-- A token. -/
inductive JsonToken where
  | openList
  | closeList
  | openMap
  | closeMap
  | comma
  | colon
  /-- What stands between quotes: it can be a key. -/
  | text (s : Scalar)
  | word (s : Scalar)
  deriving DecidableEq, Repr

namespace JsonToken

/-- What is being read. -/
inductive Mode where
  | between
  /-- After an opening quote: the characters so far, last one first, and whether the last one is a
  backslash that escapes the next. -/
  | inText (before : List Char) (escaping : Bool)
  /-- In a number or a name: the characters so far, last one first. -/
  | inWord (before : List Char)

/-- White space between tokens. -/
def isSpace (c : Char) : Bool :=
  c == ' ' || c == '\n' || c == '\t' || c == '\r'

/-- True of the characters of numbers and names. -/
def isWordChar (c : Char) : Bool :=
  c.isAlphanum || c == '+' || c == '-' || c == '.'

/-- The token of a text from its source between the quotes. An escape that writes half a character
leaves a text without a reading. -/
def ofText? (source : List Char) : Option JsonToken :=
  (JsonText.units? source).map fun units =>
    text { text := (JsonText.joinPairs? units).map String.ofList }

/-- True of digits, at least one. -/
def areDigits (cs : List Char) : Bool :=
  !cs.isEmpty && cs.all Char.isDigit

/-- True of an exponent with its sign. -/
def isExponent : List Char → Bool
  | '+' :: cs => areDigits cs
  | '-' :: cs => areDigits cs
  | cs => areDigits cs

/-- True of what may follow the whole part of a number: a fraction, an exponent, or both. -/
def isNumberEnd : List Char → Bool
  | [] => true
  | '.' :: cs =>
    let digits := cs.takeWhile Char.isDigit
    let rest := cs.dropWhile Char.isDigit
    !digits.isEmpty && match rest with
      | [] => true
      | e :: cs => (e == 'e' || e == 'E') && isExponent cs
  | e :: cs => (e == 'e' || e == 'E') && isExponent cs

/-- True of a number without a sign. Its whole part has no zero in front. -/
def isUnsigned : List Char → Bool
  | '0' :: cs => isNumberEnd cs
  | cs =>
    !(cs.takeWhile Char.isDigit).isEmpty && isNumberEnd (cs.dropWhile Char.isDigit)

/-- True of a number. -/
def isNumber : List Char → Bool
  | '-' :: cs => isUnsigned cs
  | cs => isUnsigned cs

/-- The token of a number or a name. -/
def ofWord? (cs : List Char) : Option JsonToken :=
  if cs = "true".toList then some (word { truth := some true })
  else if cs = "false".toList then some (word { truth := some false })
  else if cs = "null".toList then some (word { isNull := true })
  else if isNumber cs then some (word {})
  else none

/-- Reads a character between tokens: the token that it is, if it is one, and what comes next. -/
def begin? (c : Char) : Option (List JsonToken × Mode) :=
  match c with
  | '[' => some ([openList], .between)
  | ']' => some ([closeList], .between)
  | '\x7b' => some ([openMap], .between)
  | '\x7d' => some ([closeMap], .between)
  | ',' => some ([comma], .between)
  | ':' => some ([colon], .between)
  | '"' => some ([], .inText [] false)
  | c =>
    if isSpace c then some ([], .between)
    else if isWordChar c then some ([], .inWord [c])
    else none

/-- Reads one character: the tokens that it completes, and what comes next. -/
def step? (mode : Mode) (c : Char) : Option (List JsonToken × Mode) :=
  match mode with
  | .between => begin? c
  | .inText before true => some ([], .inText (c :: before) false)
  | .inText before false =>
    if c = '"' then (ofText? before.reverse).map fun t => ([t], .between)
    else if c.toNat < 0x20 then none
    else some ([], .inText (c :: before) (c == '\\'))
  | .inWord before =>
    if isWordChar c then some ([], .inWord (c :: before))
    else do
      let t ← ofWord? before.reverse
      let (tokens, mode) ← begin? c
      some (t :: tokens, mode)

/-- The tokens of a text, of which the beginning was read already. -/
def scan (mode : Mode) : List Char → Option (List JsonToken)
  | [] =>
    match mode with
    | .between => some []
    | .inText .. => none
    | .inWord before => (ofWord? before.reverse).map fun t => [t]
  | c :: cs => do
    let (tokens, mode) ← step? mode c
    let rest ← scan mode cs
    some (tokens ++ rest)

end JsonToken

/-! ## Nesting -/

/-- An open list or map: what it has so far, last one first. -/
inductive JsonFrame where
  | list (before : List Document)
  /-- A map that has read a key. -/
  | map (before : List (Document × Document)) (key : Scalar)

namespace JsonFrame

mutual

/-- Reads a value and all that follows. -/
def value? (stack : List JsonFrame) : List JsonToken → Option Document
  | .text s :: rest => close? stack (.scalar s) rest
  | .word s :: rest => close? stack (.scalar s) rest
  | .openList :: .closeList :: rest => close? stack (.list []) rest
  | .openList :: rest => value? (.list [] :: stack) rest
  | .openMap :: .closeMap :: rest => close? stack (.map []) rest
  | .openMap :: rest => key? stack [] rest
  | _ => none

/-- Reads a key and all that follows. -/
def key? (stack : List JsonFrame) (before : List (Document × Document)) :
    List JsonToken → Option Document
  | .text s :: .colon :: rest => value? (.map before s :: stack) rest
  | _ => none

/-- Goes on after a value. -/
def close? (stack : List JsonFrame) (d : Document) : List JsonToken → Option Document
  | [] => if stack.isEmpty then some d else none
  | .comma :: rest =>
    match stack with
    | .list before :: stack => value? (.list (d :: before) :: stack) rest
    | .map before key :: stack => key? stack ((.scalar key, d) :: before) rest
    | [] => none
  | .closeList :: rest =>
    match stack with
    | .list before :: stack => close? stack (.list (d :: before).reverse) rest
    | _ => none
  | .closeMap :: rest =>
    match stack with
    | .map before key :: stack => close? stack (.map ((.scalar key, d) :: before).reverse) rest
    | _ => none
  | _ => none

end

end JsonFrame

/-- Reads a JSON text. -/
def Document.ofJson? (text : String) : Option Document :=
  (JsonToken.scan .between text.toList).bind (JsonFrame.value? [])

end IncludeAudit
