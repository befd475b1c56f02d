import Polyform.Datum.Basic

/-!
# Equality of supplied values

Two supplied values are equal when they denote the same thing: numbers of any kind by their
exact value, so that `True`, `1` and `1.0` are equal while NaN equals nothing; texts by their
characters; lists item by item; maps when they have the same keys with equal values, in any
order. Values of different kinds are never equal.

## Main definitions

* `Binary64.equalsInt`: a double is exactly an integer.
* `Datum.asNumber?`: the number a datum stands for, if any.
* `Datum.equal`: equality of supplied values.
-/

namespace Polyform

namespace Binary64

/-- Whether the double is exactly the integer `n`; NaN and the infinities are no integer. -/
def equalsInt (x : Float) (n : Int) : Bool :=
  match shape x with
  | .zero _ => n == 0
  | .finite negative v =>
    let whole : Option Nat :=
      if 0 ≤ v.q then some (v.m * Nat.pow 2 v.q.toNat)
      else if v.m % Nat.pow 2 (-v.q).toNat = 0 then some (v.m / Nat.pow 2 (-v.q).toNat) else none
    match whole with
    | some w => (negative == decide (n < 0)) && w == n.natAbs
    | none => false
  | _ => false

example : equalsInt 3.0 3 = true ∧ equalsInt (-2.0) (-2) = true ∧ equalsInt 2.5 2 = false := by
  decide +kernel

end Binary64

namespace Datum

/-- The number a datum stands for in a comparison: a truth value is `0` or `1`, an integer is
itself, a double is itself. -/
def asNumber? : Datum → Option (Int ⊕ Float)
  | .bool b => some (.inl (if b then 1 else 0))
  | .int n => some (.inl n)
  | .float x => some (.inr x)
  | _ => .none

/-- Whether two numbers are equal: integers exactly, doubles as doubles, and an integer with a
double only when the double is exactly that integer. -/
def numberEqual : Int ⊕ Float → Int ⊕ Float → Bool
  | .inl a, .inl b => a == b
  | .inr x, .inr y => x == y
  | .inl a, .inr y => Binary64.equalsInt y a
  | .inr x, .inl b => Binary64.equalsInt x b

mutual

/-- Whether two supplied values are equal. -/
def equal : Datum → Datum → Bool
  | .none, .none => true
  | .str a, .str b => a == b
  | .list xs, .list ys => itemsEqual xs ys
  | .dict es, .dict fs => es.length == fs.length && entriesWithin es fs
  | a, b =>
    match a.asNumber?, b.asNumber? with
    | some x, some y => numberEqual x y
    | _, _ => false

/-- Whether two lists have the same length and equal items, position by position. -/
def itemsEqual : List Datum → List Datum → Bool
  | [], [] => true
  | x :: xs, y :: ys => equal x y && itemsEqual xs ys
  | _, _ => false

/-- Whether every entry of the first map has its key in the second, with an equal value. -/
def entriesWithin : List (List CodePoint × Datum) → List (List CodePoint × Datum) → Bool
  | [], _ => true
  | (k, v) :: es, fs =>
    (match fs.lookup k with
      | .some w => equal v w
      | .none => false) && entriesWithin es fs

end

example : equal (.bool true) (.float 1.0) = true ∧ equal (.str [.ofChar '1']) (.int 1) = false := by
  decide +kernel

end Datum

end Polyform
