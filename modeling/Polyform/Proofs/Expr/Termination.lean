import Mathlib
import Polyform.Expr.Dispatch

/-!
# Every call of a combinator returns

The combinators call one another in a cycle (`Polyform.Expr.Dispatch`): `scale` on a sum calls
`addExpr` on what two `scale` calls return, `addExpr` on a sum or a product doubles by `mulExpr`
with the constant two, and `mulExpr` on a constant calls `scale` on its operand. No argument
shrinks around the cycle, since `addExpr` is called on fresh results and not on parts of the
receiver. What breaks the cycle is the operand of the doubling: it is a constant, and `scale` on a
constant calls nothing. So the methods return in layers, each calling only the layers before it
or itself on a part of its receiver:

* `addVar` and `mulVar` call nothing;
* `addConst` calls itself on a side of a sum, at most `e.height` deep;
* `mulExpr` by a constant makes at most one call, to a method that calls nothing;
* `addExpr` calls `addConst` on its operand, or doubles by a constant: at most `b.height + 2`
  deep;
* `scale` calls itself on the sides of a sum and `addExpr` on results at most one taller than the
  sides (`Expr.height_scale_le`): at most `e.height + 3` deep;
* `mulExpr` calls `scale` on its operand: at most `b.height + 4` deep.

Each layer returns what the combinator of `Polyform.Expr.Build` computes, and a run of a body
has one result and one depth (`Body.Runs.unique`). So every call returns, with the combinator's
result, after nested calls at most as deep as the receiver's and the argument's heights added,
plus four (`Call.returns_within_height`).
-/

namespace Polyform

namespace Expr

/-- The height of an expression: a constant or a variable has height `0`, a sum or a product one
more than its taller operand. -/
def height : Expr → Nat
  | const _ => 0
  | var _ => 0
  | sum l r => max l.height r.height + 1
  | prod l r => max l.height r.height + 1

variable {e a b : Expr} {x : Float} {n : String}

/-! ## How much taller a combinator makes an expression -/

theorem height_addVar_le : (e.addVar n).height ≤ e.height + 1 := by
  unfold addVar
  split
  · split <;> simp [height]
  · simp [height]

theorem height_double_le : e.double.height ≤ e.height + 1 := by
  unfold double
  split
  · split_ifs <;> simp [height, two]
  · simp [height, two]

theorem height_addConst_le : (e.addConst x).height ≤ e.height + 1 := by
  induction e generalizing x with
  | const c => simp [addConst, height]
  | var m => simp only [addConst]; split_ifs <;> simp [height]
  | sum l r ihl ihr =>
    have hl := ihl (x := Grid.truncate x)
    have hr := ihr (x := Grid.truncate x)
    simp only [addConst]
    split_ifs <;> simp only [height] at hl hr ⊢ <;> omega
  | prod l r => simp only [addConst]; split_ifs <;> simp [height]

theorem height_addExpr_le : (a.addExpr b).height ≤ max a.height b.height + 1 := by
  cases a with
  | const c =>
    have := height_addConst_le (e := b) (x := c)
    simp only [addExpr]
    split_ifs <;> simp only [height] <;> omega
  | var m =>
    have := height_addVar_le (e := b) (n := m)
    simp only [addExpr]
    split_ifs <;> simp only [height] <;> omega
  | sum l r =>
    have hl := height_double_le (e := l)
    have hr := height_double_le (e := r)
    simp only [addExpr]
    split_ifs <;> simp only [height] <;> omega
  | prod l r =>
    have := height_double_le (e := prod l r)
    simp only [addExpr]
    split_ifs <;> simp only [height] at this ⊢ <;> omega

/-- Multiplying by a number makes an expression at most one taller: a coefficient goes in front
of a leaf or a product, and is distributed over the sides of a sum. -/
theorem height_scale_le : (e.scale x).height ≤ e.height + 1 := by
  induction e generalizing x with
  | const c => simp [scale, height]
  | var m => simp only [scale]; split_ifs <;> simp [height]
  | sum l r ihl ihr =>
    simp only [scale]
    split_ifs
    · simp [height]
    · simp [height]
    · have hl := ihl (x := Grid.truncate x)
      have hr := ihr (x := Grid.truncate x)
      have hs := height_addExpr_le (a := l.scale (Grid.truncate x)) (b := r.scale (Grid.truncate x))
      simp only [height] at hl hr ⊢
      omega
  | prod l r => simp only [scale]; split_ifs <;> simp [height]

end Expr

namespace Body

variable {b : Body} {r r₁ r₂ : Expr} {n n₁ n₂ : Nat}

/-- A body has one result and one depth. -/
theorem Runs.unique (h₁ : b.Runs r₁ n₁) (h₂ : b.Runs r₂ n₂) : r₁ = r₂ ∧ n₁ = n₂ := by
  induction h₁ generalizing r₂ n₂ with
  | ret e =>
    cases h₂ with
    | ret => exact ⟨rfl, rfl⟩
  | call _ _ ihc ihk =>
    cases h₂ with
    | call hc hk =>
      obtain ⟨rfl, rfl⟩ := ihc hc
      obtain ⟨rfl, rfl⟩ := ihk hk
      exact ⟨rfl, rfl⟩

/-- A body that returns at once calls nothing, so it is within every depth. -/
theorem Runs.ret_within (e : Expr) (k : Nat) : ∃ m ≤ k, (Body.ret e).Runs e m :=
  ⟨0, Nat.zero_le k, .ret e⟩

/-- A body that makes one call and returns what it returns is one deeper than the call. -/
theorem Runs.call_ret {c : Call} {v : Expr} {m : Nat} (h : c.Returns v m) :
    (Body.call c .ret).Runs v (m + 1) := by
  simpa using Runs.call h (.ret v)

end Body

namespace Call

open Polyform.Expr

variable {e a b : Expr} {x : Float} {n : String}

/-! ## The layers, from the methods that call nothing up to `mulExpr` -/

theorem returns_addVar : (addVar e n).Returns (e.addVar n) 0 := .ret _

theorem returns_mulVar : (mulVar e n).Returns (e.mulVar n) 0 := .ret _

/-- `addConst` calls itself on the side of a sum that is the same as the number. -/
theorem returns_addConst : ∃ m ≤ e.height, (addConst e x).Returns (e.addConst x) m := by
  induction e generalizing x with
  | const c => exact Body.Runs.ret_within _ _
  | var v => exact Body.Runs.ret_within _ _
  | sum l r ihl ihr =>
    obtain ⟨ml, hml, hl⟩ := ihl (x := Grid.truncate x)
    obtain ⟨mr, hmr, hr⟩ := ihr (x := Grid.truncate x)
    have hh : max ml mr + 1 ≤ (sum l r).height := by simp only [height]; omega
    simp only [Returns, body, Expr.addConst]
    split_ifs
    · exact Body.Runs.ret_within _ _
    · exact ⟨_, by omega, .call hl (.ret _)⟩
    · exact ⟨_, by omega, .call hr (.ret _)⟩
    · exact Body.Runs.ret_within _ _
  | prod l r => exact Body.Runs.ret_within _ _

/-- Multiplying by a constant makes at most one call, and that call makes none. -/
theorem returns_mulExpr_const {k : Float} :
    ∃ m ≤ 1, (mulExpr a (const k)).Returns (a.mulExpr (const k)) m := by
  cases a with
  | const c =>
    simp only [Returns, body, Expr.mulExpr]
    split_ifs
    any_goals exact Body.Runs.ret_within _ _
    -- the constant scales the operand, itself a constant
    exact ⟨1, le_rfl, Body.Runs.call_ret (.ret _)⟩
  | var v =>
    simp only [Returns, body, Expr.mulExpr]
    split_ifs
    any_goals exact Body.Runs.ret_within _ _
    exact ⟨1, le_rfl, Body.Runs.call_ret returns_mulVar⟩
  | sum l r => exact Body.Runs.ret_within _ _
  | prod l r => exact Body.Runs.ret_within _ _

/-- Doubling a part of the receiver, by `mulExpr` with two, is the doubling of
`Polyform.Expr.Build`. -/
theorem returns_double : ∃ m ≤ 1, (mulExpr e two).Returns e.double m := by
  rw [double_eq_mulExpr]
  exact returns_mulExpr_const

/-- `addExpr` calls `addConst` or `addVar` on its operand, or doubles parts of its receiver. -/
theorem returns_addExpr : ∃ m ≤ b.height + 2, (addExpr a b).Returns (a.addExpr b) m := by
  cases a with
  | const c =>
    obtain ⟨m, hm, h⟩ := returns_addConst (e := b) (x := c)
    simp only [Returns, body, Expr.addExpr]
    split_ifs
    any_goals exact Body.Runs.ret_within _ _
    -- neither side is zero: the operand takes the constant
    exact ⟨m + 1, by omega, Body.Runs.call_ret h⟩
  | var v =>
    simp only [Returns, body, Expr.addExpr]
    split_ifs
    · exact Body.Runs.ret_within _ _
    · exact ⟨1, by omega, Body.Runs.call_ret returns_addVar⟩
  | sum l r =>
    obtain ⟨ml, hml, hl⟩ := returns_double (e := l)
    obtain ⟨mr, hmr, hr⟩ := returns_double (e := r)
    simp only [Returns, body, Expr.addExpr]
    split_ifs
    any_goals exact Body.Runs.ret_within _ _
    -- the operand is the whole sum, its left side or its right side
    · exact ⟨_, by omega, .call hl (.call hr (.ret _))⟩
    · exact ⟨_, by omega, .call hl (.ret _)⟩
    · exact ⟨_, by omega, .call hr (.ret _)⟩
  | prod l r =>
    obtain ⟨m, hm, h⟩ := returns_double (e := prod l r)
    simp only [Returns, body, Expr.addExpr]
    split_ifs
    any_goals exact Body.Runs.ret_within _ _
    exact ⟨m + 1, by omega, Body.Runs.call_ret h⟩

/-- `scale` calls itself on the sides of a sum, then `addExpr` on the two results. -/
theorem returns_scale : ∃ m ≤ e.height + 3, (scale e x).Returns (e.scale x) m := by
  induction e generalizing x with
  | const c => exact Body.Runs.ret_within _ _
  | var v => exact Body.Runs.ret_within _ _
  | sum l r ihl ihr =>
    simp only [Returns, body, Expr.scale]
    split_ifs
    any_goals exact Body.Runs.ret_within _ _
    obtain ⟨ml, hml, hl⟩ := ihl (x := Grid.truncate x)
    obtain ⟨mr, hmr, hr⟩ := ihr (x := Grid.truncate x)
    obtain ⟨ms, hms, hs⟩ := returns_addExpr (a := l.scale (Grid.truncate x))
      (b := r.scale (Grid.truncate x))
    -- the results are at most one taller than the sides, which bounds the call of `addExpr`
    have hr' := height_scale_le (e := r) (x := Grid.truncate x)
    have hh : max (ml + 1) (max (mr + 1) (ms + 1)) ≤ (sum l r).height + 3 := by
      simp only [height]; omega
    exact ⟨_, hh, .call hl (.call hr (Body.Runs.call_ret hs))⟩
  | prod l r => exact Body.Runs.ret_within _ _

/-- `mulExpr` calls `scale` or `mulVar` on its operand. -/
theorem returns_mulExpr : ∃ m ≤ b.height + 4, (mulExpr a b).Returns (a.mulExpr b) m := by
  cases a with
  | const c =>
    obtain ⟨m, hm, h⟩ := returns_scale (e := b) (x := c)
    simp only [Returns, body, Expr.mulExpr]
    split_ifs
    any_goals exact Body.Runs.ret_within _ _
    exact ⟨m + 1, by omega, Body.Runs.call_ret h⟩
  | var v =>
    simp only [Returns, body, Expr.mulExpr]
    split_ifs
    any_goals exact Body.Runs.ret_within _ _
    exact ⟨1, by omega, Body.Runs.call_ret returns_mulVar⟩
  | sum l r => exact Body.Runs.ret_within _ _
  | prod l r => exact Body.Runs.ret_within _ _

/-! ## Every call returns -/

/-- The height of a call: the receiver's height, plus the argument's when it is an expression. -/
def height : Call → Nat
  | .addExpr a b => a.height + b.height
  | .mulExpr a b => a.height + b.height
  | .addVar e _ => e.height
  | .mulVar e _ => e.height
  | .addConst e _ => e.height
  | .scale e _ => e.height

/-- Each call returns what its combinator computes, after nested calls at most four deeper than
its height. -/
theorem returns (c : Call) : ∃ m ≤ c.height + 4, c.Returns c.result m := by
  cases c with
  | addExpr a b =>
    obtain ⟨m, hm, h⟩ := returns_addExpr (a := a) (b := b)
    exact ⟨m, by simp only [height]; omega, h⟩
  | mulExpr a b =>
    obtain ⟨m, hm, h⟩ := returns_mulExpr (a := a) (b := b)
    exact ⟨m, by simp only [height]; omega, h⟩
  | addVar e n => exact ⟨0, by omega, returns_addVar⟩
  | mulVar e n => exact ⟨0, by omega, returns_mulVar⟩
  | addConst e x =>
    obtain ⟨m, hm, h⟩ := returns_addConst (e := e) (x := x)
    exact ⟨m, by simp only [height]; omega, h⟩
  | scale e x =>
    obtain ⟨m, hm, h⟩ := returns_scale (e := e) (x := x)
    exact ⟨m, by simp only [height]; omega, h⟩

/-- The combinators terminate, although they call one another in a cycle: every call returns,
and whichever way it runs, it returns what the combinator computes, after a chain of nested
calls no deeper than the heights of its receiver and its argument added, plus four. -/
theorem returns_within_height (c : Call) :
    (∃ r m, c.Returns r m) ∧ ∀ r m, c.Returns r m → r = c.result ∧ m ≤ c.height + 4 := by
  obtain ⟨m, hm, h⟩ := c.returns
  refine ⟨⟨_, _, h⟩, fun r m' hr => ?_⟩
  obtain ⟨rfl, rfl⟩ := Body.Runs.unique hr h
  exact ⟨rfl, hm⟩

end Call

end Polyform
