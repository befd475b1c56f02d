import Polyform.Grid

/-!
# Expressions

An expression is a tree whose leaves are constants and variables and whose inner nodes are sums
and products of two operands. A constant holds a double that is finite and not negative; a
variable holds a name of ASCII letters. Nothing in the tree is simplified: the combinators of
`Polyform.Expr.Build` do that when they build.

The text of an expression writes a sum as `l + r` and a product as `(l)*(r)`. A constant is
written as the shortest decimal of its value on the grid (`Grid.truncate`), positionally and
without trailing zeros or point, so `2.0` is `2` and `1e-05` is `0.00001`.

Two expressions are the same when both are constants whose values on the grid differ by less
than `5e-6`, both are variables of one name, or both are sums, or both products, of one text.

## Main definitions

* `Expr`: the trees.
* `Expr.render`: the text.
* `Expr.same`: sameness.
* `Expr.isZero`, `Expr.isOne`: constants that are zero or one on the grid.
* `Expr.nodes`: every node, the tree first, then its left operand's nodes, then its right's.
-/

namespace Polyform

/-- Sums and products of non-negative constants and named variables. -/
inductive Expr where
  /-- A constant: a finite, non-negative double. -/
  | const (x : Float)
  /-- A variable. -/
  | var (name : String)
  /-- The sum of two operands. -/
  | sum (l r : Expr)
  /-- The product of two operands. -/
  | prod (l r : Expr)
deriving Inhabited

namespace Expr

/-- The four kinds of node. -/
inductive Kind where
  /-- A constant. -/
  | const
  /-- A variable. -/
  | var
  /-- A sum. -/
  | sum
  /-- A product. -/
  | prod
deriving DecidableEq, Repr

/-- The kind of the root of an expression. -/
def kind : Expr → Kind
  | const _ => .const
  | var _ => .var
  | sum _ _ => .sum
  | prod _ _ => .prod

/-- The text of a constant: its decimal on the grid, written positionally. -/
def constText (x : Float) : String :=
  (Grid.decimal x).plain

/-- The text of an expression. -/
def render : Expr → String
  | const x => constText x
  | var n => n
  | sum l r => l.render ++ " + " ++ r.render
  | prod l r => "(" ++ l.render ++ ")*(" ++ r.render ++ ")"

/-- Whether an expression is a constant that is zero on the grid. -/
def isZero : Expr → Bool
  | const x => Grid.truncate x == 0
  | _ => false

/-- Whether an expression is a constant that is one on the grid. -/
def isOne : Expr → Bool
  | const x => Grid.truncate x == 1
  | _ => false

/-- How close two constants on the grid must be to count as the same. -/
def tolerance : Float := 0.000005

/-- Whether two expressions are the same: constants within `tolerance` on the grid, variables
of one name, sums or products of one text. -/
def same : Expr → Expr → Bool
  | const a, const b => (Grid.truncate a - Grid.truncate b).abs < tolerance
  | var a, var b => a == b
  | a@(sum _ _), b@(sum _ _) => a.render == b.render
  | a@(prod _ _), b@(prod _ _) => a.render == b.render
  | _, _ => false

/-- Every node of an expression, the expression first, then the nodes of its left operand, then
those of its right operand. -/
def nodes : Expr → List Expr
  | const x => [const x]
  | var n => [var n]
  | sum l r => sum l r :: (l.nodes ++ r.nodes)
  | prod l r => prod l r :: (l.nodes ++ r.nodes)

example : (sum (var "x") (prod (const 2) (var "y"))).render = "x + (2)*(y)" := by
  decide +kernel

end Expr

end Polyform
