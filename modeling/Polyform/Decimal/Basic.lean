/-!
# Decimal numbers

`Decimal` is a non-negative decimal number `coeff * 10 ^ exp`. This file holds the type, the
digits of its coefficient, the cut of a decimal to a number of fractional places, its plain
positional text, and the double nearest to it.

## Main definitions

* `Decimal.normalize`: trailing zeros of the coefficient moved into the exponent.
* `Decimal.truncate`: the cut toward zero at a number of fractional places.
* `Decimal.plain`: positional text with no exponent and no trailing fractional zero.
* `Decimal.toFloat`: the double nearest to the decimal, ties to even.
-/

namespace Polyform

/-- A non-negative decimal number `coeff * 10 ^ exp`. -/
structure Decimal where
  /-- The digits, as one natural number. -/
  coeff : Nat
  /-- The power of ten that scales them. -/
  exp : Int
deriving DecidableEq, Repr

namespace Decimal

/-- The decimal digits of a natural number, most significant first; zero has the digit `0`. -/
def digitsOf (n : Nat) : List Char :=
  Nat.toDigits 10 n

/-- The number of decimal digits of the coefficient (one for zero). -/
def width (d : Decimal) : Nat :=
  (digitsOf d.coeff).length

/-- The exponent of the leading digit: `d` lies in `[10 ^ e, 10 ^ (e + 1))` for `e = d.leadExp`,
when the coefficient is not zero. -/
def leadExp (d : Decimal) : Int :=
  (d.width : Int) - 1 + d.exp

/-- Moves trailing zeros of the coefficient into the exponent; zero becomes `0 * 10 ^ 0`. -/
def normalize (d : Decimal) : Decimal :=
  if h : d.coeff = 0 then ⟨0, 0⟩
  else if d.coeff % 10 = 0 then normalize ⟨d.coeff / 10, d.exp + 1⟩
  else d
termination_by d.coeff
decreasing_by exact Nat.div_lt_self (Nat.pos_of_ne_zero h) (by decide)

/-- Cuts the decimal toward zero after `places` fractional digits. A decimal with no more
fractional digits than that is returned as it is. -/
def truncate (places : Nat) (d : Decimal) : Decimal :=
  if -(places : Int) ≤ d.exp then d
  else ⟨d.coeff / Nat.pow 10 (-(places : Int) - d.exp).toNat, -(places : Int)⟩

/-- Positional text: the digits of the coefficient, with the point set by the exponent and `0`
in front of a point that would otherwise lead. There is no exponent part, and a normalized
decimal has no trailing fractional zero and no point when it is whole. -/
def plain (d : Decimal) : String :=
  let s := digitsOf d.coeff
  if 0 ≤ d.exp then String.ofList (s ++ List.replicate d.exp.toNat '0')
  else
    let f := (-d.exp).toNat
    let padded := List.replicate (f + 1 - s.length) '0' ++ s
    let p := padded.length - f
    String.ofList (padded.take p ++ '.' :: padded.drop p)

/-- The double nearest to the decimal, ties to even; beyond the largest double it is infinite. -/
def toFloat (d : Decimal) : Float :=
  if d.exp < 0 then Float.ofScientific d.coeff true (-d.exp).toNat
  else Float.ofScientific d.coeff false d.exp.toNat

example : (Decimal.mk 112345 (-5)).plain = "1.12345" := by decide
example : (Decimal.mk 1 (-5)).plain = "0.00001" := by decide
example : (Decimal.mk 1 20).plain = "100000000000000000000" := by decide
example : (Decimal.mk 1123456 (-6)).truncate 5 = ⟨112345, -5⟩ := by decide

end Decimal

end Polyform
