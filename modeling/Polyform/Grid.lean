import Polyform.Binary64.Text

/-!
# The grid of five decimal places

Constants are compared, tested for zero and one, and printed through their value on a grid of
five decimal places. `Grid.truncate` puts a double on it: the shortest decimal of the double is
cut toward zero after the fifth fractional digit and read back as a double. It is the shortest
decimal that is cut, not the binary expansion, so `0.29` stays `0.29`. A double of magnitude
`2 ^ 52` or more is a whole number and stays as it is, and so do NaN and the infinities.

## Main definitions

* `Grid.places`: five.
* `Grid.truncate`: the double on the grid, toward zero.
* `Grid.decimal`: the decimal shown for a double, after truncation.
-/

namespace Polyform

namespace Grid

/-- The number of decimal places kept. -/
def places : Nat := 5

/-- Cuts `x` toward zero at the fifth fractional digit of its shortest decimal. The sign is
kept, so a small negative value becomes `-0.0`. -/
def truncate (x : Float) : Float :=
  match Binary64.shape x with
  | .finite negative v =>
    -- from 2 ^ 52 on, the last bit of the significand is worth 1 or more
    if 0 ≤ v.q then x
    else
      let d := v.shortest
      if -(places : Int) ≤ d.exp then x
      else
        let t := (d.truncate places).toFloat
        if negative then -t else t
  | _ => x

/-- The decimal by which a non-negative value is shown: the shortest decimal of its truncation,
with no trailing zeros; zero for zero. When truncation leaves the double as it is, its own
shortest decimal is that decimal, and it is computed once. -/
def decimal (x : Float) : Decimal :=
  match Binary64.shape x with
  | .finite _ v =>
    let d := v.shortest
    if 0 ≤ v.q ∨ -(places : Int) ≤ d.exp then d
    else
      match Binary64.shape (truncate x) with
      | .finite _ w => w.shortest
      | _ => ⟨0, 0⟩
  | _ => ⟨0, 0⟩

/-- The decimal shown is the shortest decimal of the truncation. -/
theorem decimal_eq_shortest_truncate (x : Float) :
    decimal x = match Binary64.shape (truncate x) with
      | .finite _ w => w.shortest
      | _ => ⟨0, 0⟩ := by
  unfold decimal truncate
  rcases h : Binary64.shape x with _ | _ | _ | ⟨negative, v⟩ <;> simp only [h]
  by_cases hq : 0 ≤ v.q
  · simp [hq, h]
  · by_cases hd : -(places : Int) ≤ v.shortest.exp
    · simp [hq, hd, h]
    · simp [hq, hd]

end Grid

end Polyform
