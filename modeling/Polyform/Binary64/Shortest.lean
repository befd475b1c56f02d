import Polyform.Decimal.Basic
import Polyform.Binary64.Basic

/-!
# Shortest decimals that read back

The reals that round to a finite double `v = m * 2 ^ q` (to nearest, ties to even) form an
interval around `v`: from halfway to the double below to halfway to the double above, the ends
included exactly when `m` is even. `Finite.shortest` returns the decimal with the fewest
significant digits in that interval and, among those, the one nearest to `v`; an exact tie goes
to the even coefficient.

The search runs over the grids `10 ^ (k - n)` for `n = 1, 2, …`, where `10 ^ (k - 1) ≤ v < 10 ^ k`.
If any point of a grid lies in the interval, so does one of the two neighbours of `v` on that
grid, since the interval contains `v`; so only the two neighbours are tested. All comparisons
are exact, in natural numbers.

## Main definitions

* `Finite.readsBack`: the decimal lies in the rounding interval of the double.
* `Finite.scale`: the least `k` with `v < 10 ^ k`.
* `Finite.shortest`: the shortest, then nearest, decimal that reads back.
-/

namespace Polyform

namespace Binary64

/-- Compares `a * 10 ^ i` with `n * 2 ^ j`, exactly. -/
def cmpScaled (a : Nat) (i : Int) (n : Nat) (j : Int) : Ordering :=
  compare (a * Nat.pow 10 i.toNat * Nat.pow 2 (-j).toNat)
    (n * Nat.pow 2 j.toNat * Nat.pow 10 (-i).toNat)

namespace Finite

/-- Two factors that turn comparisons on the grid `10 ^ g` into comparisons of whole numbers:
`c * 10 ^ g` against `N * 2 ^ (q - 2)` is `c * a` against `N * b` for `(a, b) = v.gridScales g`,
both sides multiplied by `10 ^ (-g) * 2 ^ (2 - q)`. -/
def gridScales (v : Finite) (g : Int) : Nat × Nat :=
  (Nat.pow 10 g.toNat * Nat.pow 2 (2 - v.q).toNat,
    Nat.pow 10 (-g).toNat * Nat.pow 2 (v.q - 2).toNat)

/-- Whether the scaled value `x` (a number on the grid, times `a`) lies among the reals that
round to `v`, given the factor `b` of `gridScales`. In units of `2 ^ (q - 2)` the value of `v`
is `4m`, the interval runs from `4m - 2` (or `4m - 1` below a power of two) to `4m + 2`, and it
is closed exactly when `m` is even. -/
def inInterval (v : Finite) (x b : Nat) : Bool :=
  let lo := (if v.narrowBelow then 4 * v.m - 1 else 4 * v.m - 2) * b
  let hi := (4 * v.m + 2) * b
  if v.m % 2 = 0 then lo ≤ x && x ≤ hi else lo < x && x < hi

/-- The decimal lies among the reals that round to `v`. -/
def readsBack (v : Finite) (d : Decimal) : Bool :=
  let (a, b) := v.gridScales d.exp
  v.inInterval (d.coeff * a) b

/-- Whether `v < 10 ^ k`. -/
def below (v : Finite) (k : Int) : Bool :=
  cmpScaled 1 k v.m v.q == .gt

/-- Moves `k` to the least exponent with `v < 10 ^ k`, one step at a time, for at most `fuel`
steps. -/
def settle (v : Finite) : Nat → Int → Int
  | 0, k => k
  | fuel + 1, k =>
    if v.below k then
      if v.below (k - 1) then settle v fuel (k - 1) else k
    else settle v fuel (k + 1)

/-- The least `k` with `v < 10 ^ k`, so that `10 ^ (k - 1) ≤ v`. The estimate from the binary
exponent, with `log10 2 ≈ 0.30103`, is off by at most one, and `settle` corrects it. -/
def scale (v : Finite) : Int :=
  let bits : Int := (Nat.log2 v.m : Int) + v.q
  settle v 8 ((bits * 30103) / 100000)

/-- Of the two neighbours of `v` on the grid `10 ^ g`, the one that reads back; if both do, the
nearer, and on an exact tie the one with the even coefficient. The lower neighbour is
`c = ⌊v / 10 ^ g⌋ = ⌊4m * b / a⌋`. -/
def pick (v : Finite) (g : Int) : Option Decimal :=
  let (a, b) := v.gridScales g
  let c := 4 * v.m * b / a
  let lo : Decimal := ⟨c, g⟩
  let hi : Decimal := ⟨c + 1, g⟩
  match v.inInterval (c * a) b, v.inInterval ((c + 1) * a) b with
  | true, true =>
    -- the midpoint of the two neighbours against `v`, both doubled
    match compare ((2 * c + 1) * a) (8 * v.m * b) with
    | .gt => some lo
    | .lt => some hi
    | .eq => if c % 2 = 0 then some lo else some hi
  | true, false => some lo
  | false, true => some hi
  | false, false => none

/-- The exact value of `v` as a decimal. -/
def exact (v : Finite) : Decimal :=
  if 0 ≤ v.q then ⟨v.m * Nat.pow 2 v.q.toNat, 0⟩ else ⟨v.m * Nat.pow 5 (-v.q).toNat, v.q⟩

/-- The decimal with the fewest significant digits that reads back to `v`, the nearest of those,
with trailing zeros moved into the exponent. Seventeen digits always suffice; the exact value
stands behind the search all the same. -/
def shortest (v : Finite) : Decimal :=
  let k := v.scale
  match (List.range 17).findSome? (fun n : Nat => v.pick (k - ((n : Int) + 1))) with
  | some d => d.normalize
  | none => v.exact.normalize

end Finite

end Binary64

end Polyform
