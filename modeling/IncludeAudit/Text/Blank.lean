/-!
# Blank characters

White space is the Unicode property `White_Space`: 25 characters, of which only six are ASCII.

* `isBlank`: membership of the property;
* `trim`: a text without the blank characters at its two ends.
-/

namespace IncludeAudit.Text

/-- The code points of the Unicode property `White_Space`, as inclusive ranges. -/
def blankRanges : List (Nat × Nat) :=
  [(0x09, 0x0D), (0x20, 0x20), (0x85, 0x85), (0xA0, 0xA0), (0x1680, 0x1680), (0x2000, 0x200A),
    (0x2028, 0x2029), (0x202F, 0x202F), (0x205F, 0x205F), (0x3000, 0x3000)]

/-- True of the characters with the property `White_Space`. -/
def isBlank (c : Char) : Bool :=
  blankRanges.any fun r => r.1 ≤ c.toNat && c.toNat ≤ r.2

/-- Drops the blank characters at the end. -/
def trimEnd (cs : List Char) : List Char :=
  (cs.reverse.dropWhile isBlank).reverse

/-- Drops the blank characters at both ends. -/
def trim (cs : List Char) : List Char :=
  trimEnd (cs.dropWhile isBlank)

/-- True of a text that holds blank characters only. -/
def isAllBlank (text : String) : Bool :=
  text.toList.all isBlank

/-- The property has 25 members. -/
example : (blankRanges.map fun r => r.2 + 1 - r.1).sum = 25 := by decide

end IncludeAudit.Text
