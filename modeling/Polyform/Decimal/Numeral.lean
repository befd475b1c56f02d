import Polyform.Decimal.Basic
import Polyform.Text.CodePoint

/-!
# Numerals

A numeral is a run of ASCII digits with at most one point among or after them, and at least one
digit: `12`, `1.5`, `1.`, `.5`, but not `.` or `1e5`. `Decimal.ofNumeral?` reads one into the
decimal it denotes, keeping every digit, so that the double it is rounded to is the one nearest
to the numeral.

## Main definitions

* `Decimal.digitsValue`: the number a run of digits denotes.
* `Decimal.ofNumeral?`: the decimal of a numeral, or nothing.
-/

namespace Polyform

namespace Decimal

/-- The number a run of decimal digits denotes. -/
def digitsValue (cs : List Char) : Nat :=
  cs.foldl (fun n c => 10 * n + (c.toNat - '0'.toNat)) 0

/-- The decimal a numeral denotes, or nothing when the code points are not a numeral. -/
def ofNumeral? (cs : List CodePoint) : Option Decimal :=
  let whole := cs.takeWhile CodePoint.isDigit
  match cs.dropWhile CodePoint.isDigit with
  | [] => if whole.isEmpty then none else some ⟨digitsValue (whole.map CodePoint.toChar), 0⟩
  | c :: frac =>
    if c = .ofChar '.' && frac.all CodePoint.isDigit && !(whole.isEmpty && frac.isEmpty) then
      some ⟨digitsValue ((whole ++ frac).map CodePoint.toChar), -(frac.length : Int)⟩
    else none

example : ofNumeral? (CodePoint.ofString "12.50") = some ⟨1250, -2⟩ := by decide +kernel
example : ofNumeral? (CodePoint.ofString ".5") = some ⟨5, -1⟩ ∧
    ofNumeral? (CodePoint.ofString "1.") = some ⟨1, 0⟩ := by
  decide +kernel
example : ofNumeral? (CodePoint.ofString ".") = none ∧
    ofNumeral? (CodePoint.ofString "1e5") = none := by
  decide +kernel

end Decimal

end Polyform
