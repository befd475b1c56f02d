import Polyform.Binary64.Shortest

/-!
# The text of a double

`Binary64.text` writes a double with the shortest digits that read back. Values whose leading
digit has a decimal exponent from `-4` to `15` are written positionally, with `.0` when they are
whole; the others as a mantissa with at most one digit before the point, then `e`, the sign of
the exponent and at least two exponent digits (`1e+20`, `1.5e-07`). The special values are
`nan`, `inf` and `-inf`, and the zeros are `0.0` and `-0.0`.

This is the text in which stored values of constants and numbers in messages are shown.
-/

namespace Polyform

namespace Binary64

/-- Exponents of the leading digit from `plainFrom` up to, but not including, `plainBelow` are
written positionally. -/
def plainFrom : Int := -4

/-- See `plainFrom`. -/
def plainBelow : Int := 16

/-- The exponent part: `e`, its sign, and at least two digits. -/
def exponentText (e : Int) : String :=
  let ds := Decimal.digitsOf e.natAbs
  let padded := List.replicate (2 - ds.length) '0' ++ ds
  "e" ++ (if e < 0 then "-" else "+") ++ String.ofList padded

/-- The text of a non-zero decimal with the layout above. -/
def layout (d : Decimal) : String :=
  let e := d.leadExp
  if plainFrom ≤ e ∧ e < plainBelow then
    if 0 ≤ d.exp then d.plain ++ ".0" else d.plain
  else
    match Decimal.digitsOf d.coeff with
    | [] => exponentText e
    | [c] => String.singleton c ++ exponentText e
    | c :: rest => String.ofList (c :: '.' :: rest) ++ exponentText e

/-- The shortest text of `x` that reads back to it. -/
def text (x : Float) : String :=
  match shape x with
  | .nan => "nan"
  | .infinite negative => if negative then "-inf" else "inf"
  | .zero negative => if negative then "-0.0" else "0.0"
  | .finite negative v => (if negative then "-" else "") ++ layout v.shortest

end Binary64

end Polyform
