/-!
# Code points

Text is a sequence of code points. A code point is a number below `0x110000`; most are
characters, but text may also hold a surrogate (`0xD800` to `0xDFFF`) on its own, which no
`Char` can be. Text that reaches the library from outside is therefore a `List CodePoint`, and
it becomes a `String` only where it is known to hold characters, such as a variable name of
ASCII letters.

## Main definitions

* `CodePoint`: a code point.
* `CodePoint.ofChar`, `CodePoint.ofString`: characters as code points.
* `CodePoint.isDigit`, `CodePoint.isAsciiLetter`: ASCII classes.
* `CodePoint.toChar`, `CodePoint.asString`: back to characters.
-/

namespace Polyform

/-- A code point of text: a character, or a surrogate standing alone. -/
structure CodePoint where
  /-- Its number. -/
  val : Nat
deriving DecidableEq, Repr, Inhabited

namespace CodePoint

/-- The code point of a character. -/
def ofChar (c : Char) : CodePoint :=
  ⟨c.toNat⟩

/-- The code points of a string. -/
def ofString (s : String) : List CodePoint :=
  s.toList.map ofChar

/-- Whether the code point is an ASCII digit. -/
def isDigit (c : CodePoint) : Bool :=
  0x30 ≤ c.val && c.val ≤ 0x39

/-- Whether the code point is an ASCII letter. -/
def isAsciiLetter (c : CodePoint) : Bool :=
  (0x41 ≤ c.val && c.val ≤ 0x5A) || (0x61 ≤ c.val && c.val ≤ 0x7A)

/-- The character of a code point; a surrogate, which is no character, gives `'\x00'`. Used
where the code point is known to be a character. -/
def toChar (c : CodePoint) : Char :=
  Char.ofNat c.val

/-- The string of code points that are all characters. -/
def asString (cs : List CodePoint) : String :=
  String.ofList (cs.map toChar)

theorem toChar_ofChar (c : Char) : (ofChar c).toChar = c := by
  simp [toChar, ofChar]

end CodePoint

end Polyform
