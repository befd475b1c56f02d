/-!
# The bits of a double

A binary64 value is NaN, an infinity, a signed zero, or a signed finite non-zero value
`m * 2 ^ q`. `Binary64.shape` reads this off the bits. `Binary64.saturate` replaces an infinity
by the largest finite double, which is how every sum and product of constants is kept finite.

## Main definitions

* `Binary64.Finite`: a finite positive value `m * 2 ^ q`.
* `Binary64.shape`: what the bits of a double stand for.
* `Binary64.saturate`: infinities clamped to `Binary64.maxFinite`.
-/

namespace Polyform

namespace Binary64

/-- A finite positive double `m * 2 ^ q`. `narrowBelow` marks a power of two above the least
normal double, where the gap to the double below is half the gap to the double above. -/
structure Finite where
  /-- The significand, with the hidden bit for normal values. -/
  m : Nat
  /-- The binary exponent of the last bit of the significand. -/
  q : Int
  /-- The gap below is half the gap above. -/
  narrowBelow : Bool
deriving DecidableEq, Repr

/-- What the bits of a double stand for. -/
inductive Shape where
  /-- Not a number. -/
  | nan
  /-- An infinity, with its sign. -/
  | infinite (negative : Bool)
  /-- A zero, with its sign. -/
  | zero (negative : Bool)
  /-- A finite non-zero value, with its sign and magnitude. -/
  | finite (negative : Bool) (v : Finite)
deriving DecidableEq, Repr

/-- Reads sign, exponent and fraction off the bits of `x`. -/
def shape (x : Float) : Shape :=
  let bits := x.toBits
  let negative := bits >>> 63 == 1
  let e := ((bits >>> 52) &&& 0x7FF).toNat
  let f := (bits &&& 0xFFFFFFFFFFFFF).toNat
  if e = 0x7FF then
    if f = 0 then .infinite negative else .nan
  else if e = 0 then
    if f = 0 then .zero negative else .finite negative ⟨f, -1074, false⟩
  else .finite negative ⟨Nat.pow 2 52 + f, (e : Int) - 1075, f == 0 && e > 1⟩

/-- The largest finite double, `(2 - 2 ^ -52) * 2 ^ 1023`. -/
def maxFinite : Float :=
  Float.ofBits 0x7FEFFFFFFFFFFFFF

/-- An infinity becomes the largest finite double; every other value stays. -/
def saturate (x : Float) : Float :=
  if x.isInf then maxFinite else x

example : shape 1.0 = .finite false ⟨2 ^ 52, -52, true⟩ := by decide
example : shape (-0.0) = .zero true := by decide

end Binary64

end Polyform
