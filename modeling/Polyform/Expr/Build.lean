import Polyform.Expr.Basic

/-!
# Building expressions

Six combinators extend an expression by a constant, a variable or another expression, under
addition or multiplication, and simplify as they go: zero and one are dropped where they are
neutral, zero absorbs a product, a constant meets a constant by arithmetic, and an operand that
is the same (`Expr.same`) as the receiver, or as one side of a receiving sum, is doubled.

A number enters through the grid: `Grid.truncate` puts it on the grid before it is added or
multiplied, and the result of arithmetic on constants is saturated, so it stays finite.

Only `scale` is recursive: a sum distributes the factor over both sides and adds the results
with `addExpr`. Doubling is multiplication by the constant `2`, and `double` spells it out, so
that `addExpr` needs no multiplication by an arbitrary expression (`double_eq_mulExpr`).

## Main definitions

* `Expr.addConst`, `Expr.addVar`, `Expr.addExpr`: addition.
* `Expr.scale`, `Expr.mulVar`, `Expr.mulExpr`: multiplication.
-/

namespace Polyform

namespace Expr

/-- The constant two, by which an operand is doubled. -/
def two : Expr := const 2

/-- Adds a variable: to zero it is the variable, otherwise the variable goes in front. -/
def addVar (e : Expr) (n : String) : Expr :=
  match e with
  | const _ => if e.isZero then var n else sum (var n) e
  | _ => sum (var n) e

/-- Multiplies by a variable: zero absorbs it, one gives the variable, otherwise the variable
goes in front. -/
def mulVar (e : Expr) (n : String) : Expr :=
  match e with
  | const _ => if e.isZero then const 0 else if e.isOne then var n else prod (var n) e
  | _ => prod (var n) e

/-- Adds a number. A constant adds it; a sum adds it to a side that is the same constant, left
first; anything else gets the number in front, unless the number is zero on the grid. -/
def addConst (e : Expr) (x : Float) : Expr :=
  match e with
  | const c => const (Binary64.saturate (Grid.truncate x + c))
  | sum l r =>
    let t := Grid.truncate x
    if (const t).isZero then e
    else if l.same (const t) then sum (l.addConst t) r
    else if r.same (const t) then sum l (r.addConst t)
    else sum (const t) e
  | _ =>
    let t := Grid.truncate x
    if (const t).isZero then e else sum (const t) e

/-- Doubles an expression: a constant doubles its value on the grid, anything else is multiplied
by `two`. -/
def double (e : Expr) : Expr :=
  match e with
  | const c =>
    if e.isZero then const 0 else if e.isOne then two
    else const (Binary64.saturate (Grid.truncate c * 2))
  | _ => prod e two

/-- Adds an expression. Zero is dropped on either side; two constants add; a variable adds
through `addVar`; an operand that is the same as a sum, or as its left or else its right side,
doubles that part; anything else is a sum. -/
def addExpr (a b : Expr) : Expr :=
  match a with
  | const c =>
    if b.same a then const (Binary64.saturate (c * 2))
    else if a.isZero then b
    else if b.isZero then a
    else b.addConst c
  | var n => if b.isZero then a else b.addVar n
  | sum l r =>
    if b.isZero then a
    else if b.same a then sum l.double r.double
    else if b.same l then sum l.double r
    else if b.same r then sum l r.double
    else sum a b
  | prod _ _ =>
    if b.isZero then a
    else if b.same a then a.double
    else sum a b

/-- Multiplies by a number. A constant multiplies its value; zero on the grid gives zero and
one leaves the expression; a sum distributes the number over both sides and adds the results;
anything else gets the number in front. -/
def scale (e : Expr) (x : Float) : Expr :=
  match e with
  | const c => const (Binary64.saturate (Grid.truncate x * c))
  | sum l r =>
    let t := Grid.truncate x
    if (const t).isZero then const 0
    else if (const t).isOne then e
    else (l.scale t).addExpr (r.scale t)
  | _ =>
    let t := Grid.truncate x
    if (const t).isZero then const 0
    else if (const t).isOne then e
    else prod (const t) e

/-- Multiplies by an expression. Zero on either side gives zero, one on either side is dropped,
a constant receiver scales the operand, a variable goes through `mulVar`, anything else is a
product. -/
def mulExpr (a b : Expr) : Expr :=
  match a with
  | const c =>
    if a.isZero || b.isZero then const 0
    else if a.isOne then b
    else if b.isOne then a
    else b.scale c
  | var n => if b.isZero then const 0 else if b.isOne then a else b.mulVar n
  | _ => if b.isZero then const 0 else if b.isOne then a else prod a b

theorem two_isZero : two.isZero = false := by decide +kernel

theorem two_isOne : two.isOne = false := by decide +kernel

/-- Doubling is multiplication by `two`. -/
theorem double_eq_mulExpr (e : Expr) : e.double = e.mulExpr two := by
  cases e with
  | const c =>
    simp only [double, mulExpr, two_isZero, two_isOne, Bool.or_false, Bool.false_eq_true, if_false]
    rfl
  | var n =>
    simp only [double, mulExpr, two_isZero, two_isOne, Bool.false_eq_true, if_false]
    show _ = if two.isZero then _ else _
    simp only [two_isZero, two_isOne, Bool.false_eq_true, if_false]
  | sum l r => simp only [double, mulExpr, two_isZero, two_isOne, Bool.false_eq_true, if_false]
  | prod l r => simp only [double, mulExpr, two_isZero, two_isOne, Bool.false_eq_true, if_false]

end Expr

end Polyform
