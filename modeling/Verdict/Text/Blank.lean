/-
  Blank characters — the Unicode property `White_Space`, and trimming by it.

  The property holds of 25 characters; the ASCII ones are tab, line feed, vertical tab, form feed,
  carriage return and space.  `trim` drops blanks from BOTH ends and keeps those in between.

  Core only.
-/

namespace Verdict.Text

/-- The code points with the Unicode property `White_Space`, as inclusive ranges. -/
def blankRanges : List (Nat × Nat) :=
  [(0x9, 0xD), (0x20, 0x20), (0x85, 0x85), (0xA0, 0xA0), (0x1680, 0x1680), (0x2000, 0x200A),
   (0x2028, 0x2029), (0x202F, 0x202F), (0x205F, 0x205F), (0x3000, 0x3000)]

/-- Is `c` white space in the sense of Unicode? -/
def isBlank (c : Char) : Bool :=
  blankRanges.any fun r => r.1 ≤ c.toNat && c.toNat ≤ r.2

/-- A string without the blanks at its two ends. -/
def trim (s : String) : String :=
  String.ofList ((s.toList.dropWhile isBlank).reverse.dropWhile isBlank).reverse

end Verdict.Text
