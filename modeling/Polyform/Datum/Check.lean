import Polyform.Fault
import Polyform.Grid

/-!
# Checking supplied values

A constant accepts a number that is finite and not negative, and keeps it as a double; an
integer too large for a double is refused before the sign is looked at. A variable accepts a
non-empty text of ASCII letters. Truncation to the grid accepts any number: an integer of
magnitude `2 ^ 52` or more is already whole and comes back unchanged, as an integer.

A truth value is not a number for a constant, but it is one for truncation, where it counts
as `0` or `1`. An expression is neither a number nor a text: each check refuses it as it refuses
any other value of the wrong type.

## Main definitions

* `Datum.toMagnitude?`, `Operand.toMagnitude?`: the value of a constant.
* `Datum.toName?`, `Operand.toName?`: the name of a variable.
* `Datum.truncate?`, `Operand.truncate?`: a number put on the grid.
-/

namespace Polyform

/-- The double nearest to an integer, ties to even; an infinity beyond the largest double. -/
def intToFloat (n : Int) : Float :=
  let x := Decimal.toFloat ⟨n.natAbs, 0⟩
  if n < 0 then -x else x

/-- Whether text is a variable name: at least one code point, all of them ASCII letters. -/
def isName (cs : List CodePoint) : Bool :=
  !cs.isEmpty && cs.all CodePoint.isAsciiLetter

namespace Datum

/-- The double a constant is given, before the checks on its value. -/
def toNumber? : Datum → Except Fault Float
  | .int n =>
    let x := intToFloat n
    if x.isInf then .error (.numberTooLarge n) else .ok x
  | .float x => .ok x
  | d => .error (.notNumber (.plain d))

/-- The value of a constant: a finite number that is not negative. Adding zero turns `-0.0`
into `0.0`. -/
def toMagnitude? (d : Datum) : Except Fault Float := do
  let x ← d.toNumber?
  if x.isNaN || x.isInf then throw (.notFinite x)
  if x < 0 then throw (.negative x)
  return x + 0.0

/-- The name of a variable. -/
def toName? : Datum → Except Fault String
  | .str s => if s.isEmpty then .error (.notName (.plain (.str s)))
    else if isName s then .ok (CodePoint.asString s) else .error (.badName s)
  | d => .error (.notName (.plain d))

/-- An integer put on the grid: unchanged from `2 ^ 52` on, refused beyond the doubles. -/
def truncateInt (n : Int) : Except Fault Datum :=
  let x := intToFloat n
  if x.isInf then .error .intTooLarge
  else if Nat.pow 2 52 ≤ n.natAbs then .ok (.int n)
  else .ok (.float (Grid.truncate x))

/-- A number put on the grid, as `Grid.truncate` says. -/
def truncate? : Datum → Except Fault Datum
  | .float x => .ok (.float (Grid.truncate x))
  | .int n => truncateInt n
  | .bool b => truncateInt (if b then 1 else 0)
  | d => .error (.notReal (.plain d))

end Datum

namespace Operand

/-- The value of a constant given an operand: an expression is not a number. -/
def toMagnitude? : Operand → Except Fault Float
  | .plain d => d.toMagnitude?
  | .expr e => .error (.notNumber (.expr e))

/-- The name of a variable given an operand: an expression is not a text. -/
def toName? : Operand → Except Fault String
  | .plain d => d.toName?
  | .expr e => .error (.notName (.expr e))

/-- An operand put on the grid: an expression is not a number. -/
def truncate? : Operand → Except Fault Datum
  | .plain d => d.truncate?
  | .expr e => .error (.notReal (.expr e))

end Operand

end Polyform
