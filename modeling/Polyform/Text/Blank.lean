import Polyform.Text.CodePoint

/-!
# Blank characters

The characters that count as white space when text is trimmed: the Unicode property White_Space
together with the four information separators U+001C to U+001F, 29 code points in all. Core's
`Char.isWhitespace` knows four of them.

## Main definitions

* `Text.blankRanges`: the table, as closed ranges.
* `Text.isBlank`: the test.
* `Text.trimList`: text without blank characters at either end.
-/

namespace Polyform

namespace Text

/-- The blank code points, as closed ranges, ascending and apart. -/
def blankRanges : List (Nat × Nat) :=
  [(0x09, 0x0D), (0x1C, 0x20), (0x85, 0x85), (0xA0, 0xA0), (0x1680, 0x1680), (0x2000, 0x200A),
   (0x2028, 0x2029), (0x202F, 0x202F), (0x205F, 0x205F), (0x3000, 0x3000)]

/-- Whether a code point is blank. -/
def isBlank (c : CodePoint) : Bool :=
  blankRanges.any fun r => r.1 ≤ c.val && c.val ≤ r.2

/-- The text without blank code points at either end. -/
def trimList (cs : List CodePoint) : List CodePoint :=
  ((cs.dropWhile isBlank).reverse.dropWhile isBlank).reverse

example : trimList (CodePoint.ofString "\u3000 x\t\n") = CodePoint.ofString "x" := by
  decide +kernel
example : isBlank (.ofChar 'x') = false ∧ isBlank (.ofChar '\u200b') = false := by decide +kernel

end Text

end Polyform
