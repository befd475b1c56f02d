import Polyform.Expr.Parse
import Polyform.Datum.Equal

/-!
# Recipes

A `Recipe` says how to build an expression from supplied values: a constant or a variable from
an operand, a sum or product of two operands as given, the reading of an operand, or a
combinator applied to a recipe with its argument (`Step`). An operand of a sum, a product or a
combinator may also be a plain value, which is not an expression and is refused where an
expression is needed (`Fault.notExpression`); and an expression given where a number, a name or
a text is needed is refused as any value of the wrong type is.

`Recipe.run` builds from the left: the receiver before the argument, the left operand before the
right, and the first refusal is the answer. A value is checked where it is used, so a plain
operand is refused only once everything before it has been built.

## Main definitions

* `Recipe`, `Step`: the ways to build.
* `Recipe.run`: the value a recipe builds.
* `Step.apply`: a combinator applied to an expression.
-/

namespace Polyform

namespace Operand

/-- The expression an operand is, or the refusal of a plain value. -/
def toExpr? : Operand → Except Fault Expr
  | .expr e => .ok e
  | .plain d => .error (.notExpression d)

/-- Whether two operands are the same: two expressions by `Expr.same`, two plain values by
`Datum.equal`; an expression and a plain value never. -/
def same : Operand → Operand → Bool
  | .expr a, .expr b => a.same b
  | .plain a, .plain b => a.equal b
  | _, _ => false

end Operand

mutual

/-- How to build an expression from supplied values. -/
inductive Recipe where
  /-- A constant of the supplied number. -/
  | const (n : Operand)
  /-- A variable of the supplied name. -/
  | var (name : Operand)
  /-- A plain value, not an expression. -/
  | plain (d : Datum)
  /-- The sum of two operands, as given. -/
  | sum (a b : Recipe)
  /-- The product of two operands, as given. -/
  | prod (a b : Recipe)
  /-- The reading of a supplied text. -/
  | parse (text : Operand)
  /-- A combinator applied to what a recipe builds. -/
  | call (on : Recipe) (step : Step)

/-- A combinator with its argument. -/
inductive Step where
  /-- Adds what a recipe builds. -/
  | addExpr (arg : Recipe)
  /-- Multiplies by what a recipe builds. -/
  | mulExpr (arg : Recipe)
  /-- Adds a variable of the supplied name. -/
  | addVar (name : Operand)
  /-- Multiplies by a variable of the supplied name. -/
  | mulVar (name : Operand)
  /-- Adds the supplied number. -/
  | addConst (n : Operand)
  /-- Multiplies by the supplied number. -/
  | scale (n : Operand)

end

mutual

/-- The operand a recipe builds, or the first refusal met, building from the left. -/
def Recipe.run : Recipe → Except Fault Operand
  | .const n => do return .expr (.const (← n.toMagnitude?))
  | .var name => do return .expr (.var (← name.toName?))
  | .plain d => .ok (.plain d)
  | .sum a b => do
    let x ← a.run
    let y ← b.run
    return .expr (.sum (← x.toExpr?) (← y.toExpr?))
  | .prod a b => do
    let x ← a.run
    let y ← b.run
    return .expr (.prod (← x.toExpr?) (← y.toExpr?))
  | .parse text => do return .expr (← Expr.parse? text)
  | .call on step => do
    let x ← on.run
    return .expr (← step.apply (← x.toExpr?))

/-- A combinator applied to an expression, its argument built and checked first. -/
def Step.apply : Step → Expr → Except Fault Expr
  | .addExpr arg, e => do
    let y ← arg.run
    return e.addExpr (← y.toExpr?)
  | .mulExpr arg, e => do
    let y ← arg.run
    return e.mulExpr (← y.toExpr?)
  | .addVar name, e => do return e.addVar (← name.toName?)
  | .mulVar name, e => do return e.mulVar (← name.toName?)
  | .addConst n, e => do return e.addConst (← n.toMagnitude?)
  | .scale n, e => do return e.scale (← n.toMagnitude?)

end

end Polyform
