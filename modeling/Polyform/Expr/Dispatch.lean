import Polyform.Expr.Build

/-!
# The combinators as methods

Each of the six combinators is a method of the four kinds of expression, and the method that runs
is the one of the receiver's kind. A method's body may call combinators on other receivers,
among them the results of calls it made before: a sum's `scale` calls `scale` on both sides and
then `addExpr` on what they return; `addExpr` on a sum doubles a side by `mulExpr` with the
constant two; `mulExpr` on a constant calls `scale` on its operand. So `addExpr`, `mulExpr` and
`scale` call one another in a cycle.

`Body` writes a body down as data: it returns a value, or it calls a combinator and goes on with
what that call returns. `Call.body` gives the body of the method each call dispatches to.
`Body.Runs` runs a body, each nested call by the body of its own method. It also counts the
longest chain of nested calls: a body that calls nothing has depth `0`. Nothing here says that a
run ends; `Polyform.Proofs.Expr.Termination` proves it.

The `Expr.double` of `Polyform.Expr.Build` is the doubling by `mulExpr` that the bodies here
call (`Expr.double_eq_mulExpr`). A body that calls no combinator returns what the combinator of
`Polyform.Expr.Build` computes.

## Main definitions

* `Call`: a combinator with its receiver and argument.
* `Call.result`: what the combinator of `Polyform.Expr.Build` returns.
* `Body`, `Call.body`: the body of the method a call dispatches to.
* `Body.Runs`, `Call.Returns`: running a body, and the depth of its nested calls.
-/

namespace Polyform

open Polyform.Expr

/-- A call of one of the six combinators: the receiver first, then the argument. -/
inductive Call where
  /-- Adds an expression. -/
  | addExpr (a b : Expr)
  /-- Multiplies by an expression. -/
  | mulExpr (a b : Expr)
  /-- Adds a variable of the name. -/
  | addVar (e : Expr) (n : String)
  /-- Multiplies by a variable of the name. -/
  | mulVar (e : Expr) (n : String)
  /-- Adds the number. -/
  | addConst (e : Expr) (x : Float)
  /-- Multiplies by the number. -/
  | scale (e : Expr) (x : Float)
deriving Inhabited

/-- What a method's body does: return a value, or call a combinator and go on with what the call
returns. -/
inductive Body where
  /-- Returns the value. -/
  | ret (e : Expr)
  /-- Calls a combinator and goes on with its result. -/
  | call (c : Call) (k : Expr → Body)

namespace Call

/-- What a call returns: the combinator applied to the receiver and the argument. -/
def result : Call → Expr
  | .addExpr a b => a.addExpr b
  | .mulExpr a b => a.mulExpr b
  | .addVar e n => e.addVar n
  | .mulVar e n => e.mulVar n
  | .addConst e x => e.addConst x
  | .scale e x => e.scale x

/-- The body of the method a call dispatches to, by the kind of its receiver. -/
def body : Call → Body
  -- a constant doubles an operand that is the same before it drops a zero
  | .addExpr (const c) b =>
    if b.same (const c) then .ret (const (Binary64.saturate (c * 2)))
    else if (const c).isZero then .ret b
    else if b.isZero then .ret (const c)
    else .call (.addConst b c) .ret
  | .addExpr (var n) b => if b.isZero then .ret (var n) else .call (.addVar b n) .ret
  | .addExpr (sum l r) b =>
    if b.isZero then .ret (sum l r)
    else if b.same (sum l r) then
      .call (.mulExpr l two) fun l' => .call (.mulExpr r two) fun r' => .ret (sum l' r')
    else if b.same l then .call (.mulExpr l two) fun l' => .ret (sum l' r)
    else if b.same r then .call (.mulExpr r two) fun r' => .ret (sum l r')
    else .ret (sum (sum l r) b)
  | .addExpr (prod l r) b =>
    if b.isZero then .ret (prod l r)
    else if b.same (prod l r) then .call (.mulExpr (prod l r) two) .ret
    else .ret (sum (prod l r) b)
  | .mulExpr (const c) b =>
    if (const c).isZero || b.isZero then .ret (const 0)
    else if (const c).isOne then .ret b
    else if b.isOne then .ret (const c)
    else .call (.scale b c) .ret
  | .mulExpr (var n) b =>
    if b.isZero then .ret (const 0) else if b.isOne then .ret (var n) else .call (.mulVar b n) .ret
  -- sums and products share one method, which calls nothing
  | .mulExpr (sum l r) b => .ret ((sum l r).mulExpr b)
  | .mulExpr (prod l r) b => .ret ((prod l r).mulExpr b)
  | .addVar e n => .ret (e.addVar n)
  | .mulVar e n => .ret (e.mulVar n)
  | .addConst (sum l r) x =>
    let t := Grid.truncate x
    if (const t).isZero then .ret (sum l r)
    else if l.same (const t) then .call (.addConst l t) fun l' => .ret (sum l' r)
    else if r.same (const t) then .call (.addConst r t) fun r' => .ret (sum l r')
    else .ret (sum (const t) (sum l r))
  | .addConst (const c) x => .ret ((const c).addConst x)
  | .addConst (var n) x => .ret ((var n).addConst x)
  | .addConst (prod l r) x => .ret ((prod l r).addConst x)
  -- a sum calls `scale` on both sides, then `addExpr` on the two results
  | .scale (sum l r) x =>
    let t := Grid.truncate x
    if (const t).isZero then .ret (const 0)
    else if (const t).isOne then .ret (sum l r)
    else .call (.scale l t) fun l' => .call (.scale r t) fun r' => .call (.addExpr l' r') .ret
  | .scale (const c) x => .ret ((const c).scale x)
  | .scale (var n) x => .ret ((var n).scale x)
  | .scale (prod l r) x => .ret ((prod l r).scale x)

end Call

namespace Body

/-- `Runs b r n`: the body `b` returns `r`, each call it makes running the body of its own
method, and the longest chain of calls nested in the run has `n` calls. -/
inductive Runs : Body → Expr → Nat → Prop where
  /-- A body that returns at once calls nothing. -/
  | ret (e : Expr) : Runs (.ret e) e 0
  /-- The call returns `v` after calls `m` deep, and the rest of the body goes on from `v`. -/
  | call {c : Call} {k : Expr → Body} {v r : Expr} {m n : Nat} :
      Runs c.body v m → Runs (k v) r n → Runs (.call c k) r (max (m + 1) n)

end Body

/-- `c.Returns r n`: the call `c` returns `r`, after nested calls `n` deep. -/
def Call.Returns (c : Call) (r : Expr) (n : Nat) : Prop :=
  c.body.Runs r n

end Polyform
