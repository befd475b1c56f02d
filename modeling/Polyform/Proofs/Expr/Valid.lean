import Polyform.Expr.Parse

/-!
# Valid expressions and the expressions the combinators build

A constant can only be given a double that is zero or finite and positive, with the sign bit
clear (`Binary64.isMagnitude`), and a variable only a non-empty name of ASCII letters
(`Expr.isVarName`). `Expr.valid` asks this of every leaf. These are the expressions that can
exist at all: the checks of `Operand.toMagnitude?` and `Operand.toName?` stand in front of every
constant and variable.

`Expr.Reachable` is smaller: the expressions grown from valid leaves by the six combinators,
each given a valid argument.

## Main definitions

* `Binary64.isMagnitude`: the doubles a constant may hold.
* `Expr.isVarName`: the names a variable may hold.
* `Expr.valid`: every leaf is valid.
* `Expr.Reachable`: built from valid leaves by the combinators.
-/

namespace Polyform

namespace Binary64

/-- A double that a constant may hold: `+0.0` or a finite positive value. -/
def isMagnitude (x : Float) : Bool :=
  match shape x with
  | .zero negative => !negative
  | .finite negative _ => !negative
  | _ => false

end Binary64

namespace Expr

/-- A name that a variable may hold: non-empty, of ASCII letters only. -/
def isVarName (n : String) : Bool :=
  isName (CodePoint.ofString n)

/-- Every constant holds a magnitude and every variable a valid name. -/
def valid : Expr → Bool
  | const x => Binary64.isMagnitude x
  | var n => isVarName n
  | sum l r => l.valid && r.valid
  | prod l r => l.valid && r.valid

@[simp] theorem valid_sum (l r : Expr) : (sum l r).valid = (l.valid && r.valid) := rfl

@[simp] theorem valid_prod (l r : Expr) : (prod l r).valid = (l.valid && r.valid) := rfl

/-- The expressions built from valid constants and variables by the six combinators, each
applied to a valid argument. -/
inductive Reachable : Expr → Prop
  | const {x : Float} : Binary64.isMagnitude x = true → Reachable (const x)
  | var {n : String} : isVarName n = true → Reachable (var n)
  | addExpr {a b : Expr} : Reachable a → Reachable b → Reachable (a.addExpr b)
  | mulExpr {a b : Expr} : Reachable a → Reachable b → Reachable (a.mulExpr b)
  | addVar {a : Expr} {n : String} : Reachable a → isVarName n = true → Reachable (a.addVar n)
  | mulVar {a : Expr} {n : String} : Reachable a → isVarName n = true → Reachable (a.mulVar n)
  | addConst {a : Expr} {x : Float} :
      Reachable a → Binary64.isMagnitude x = true → Reachable (a.addConst x)
  | scale {a : Expr} {x : Float} :
      Reachable a → Binary64.isMagnitude x = true → Reachable (a.scale x)

end Expr

end Polyform
