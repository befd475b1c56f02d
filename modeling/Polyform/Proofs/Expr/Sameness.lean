import Polyform.Proofs.Expr.Readable

/-!
# Sameness of expressions

`Expr.same` compares constants by the difference of their truncated doubles against
`Expr.tolerance`, variables by name, and sums and products by their texts. On valid expressions
these tests make one relation: two expressions are the same exactly when they are of one kind
and have one text (`Expr.same_iff_render`), and so exactly when they are of one kind and agree up
to the grouping of their sums and the truncation of their constants. The tests for zero and one
are sameness with the constants `0` and `1`, and sameness is an equivalence.
-/

namespace Polyform

namespace Expr

open Binary64

variable {a b : Expr}

theorem same_const_iff {x y : Float} (hx : isMagnitude x = true) (hy : isMagnitude y = true) :
    same (const x) (const y) = true ↔ constText x = constText y := by
  simp only [same, decide_eq_true_eq]
  rw [Grid.abs_sub_lt_tolerance_iff hx hy, Grid.constText_eq_iff hx hy]

/-- Sameness is agreement of kind and text. -/
theorem same_iff_render (ha : a.valid = true) (hb : b.valid = true) :
    same a b = true ↔ a.kind = b.kind ∧ a.render = b.render := by
  cases a <;> cases b
  case const.const x y =>
    simp only [kind, true_and, render]
    exact same_const_iff ha hb
  case var.var n m => simp [same, render, kind]
  case sum.sum => simp [same, kind]
  case prod.prod => simp [same, kind]
  -- of two kinds: never the same
  all_goals simp [same, kind]

/-- Sameness is agreement of kind and flattening. -/
theorem same_iff_flat (ha : a.valid = true) (hb : b.valid = true) :
    same a b = true ↔ a.kind = b.kind ∧ a.flat = b.flat := by
  rw [same_iff_render ha hb, render_eq_iff_flat_eq ha hb]

theorem isZero_iff_same {e : Expr} (he : e.valid = true) :
    e.isZero = true ↔ same e (const 0) = true := by
  cases e with
  | const x =>
    have h0 : isMagnitude 0 = true := by decide
    rw [isZero, Grid.truncate_beq_zero_iff he, same, decide_eq_true_eq,
      Grid.abs_sub_lt_tolerance_iff he h0]
  | _ => simp [isZero, same]

theorem isOne_iff_same {e : Expr} (he : e.valid = true) :
    e.isOne = true ↔ same e (const 1) = true := by
  cases e with
  | const x =>
    have h1 : isMagnitude 1 = true := by decide
    rw [isOne, Grid.truncate_beq_one_iff he, same, decide_eq_true_eq,
      Grid.abs_sub_lt_tolerance_iff he h1]
  | _ => simp [isOne, same]

/-- Sameness is an equivalence on valid expressions. -/
theorem same_equivalence :
    Equivalence fun a b : {e : Expr // e.valid = true} => same a.1 b.1 = true where
  refl a := (same_iff_render a.2 a.2).mpr ⟨rfl, rfl⟩
  symm {a b} h := by
    rw [same_iff_render a.2 b.2] at h
    exact (same_iff_render b.2 a.2).mpr ⟨h.1.symm, h.2.symm⟩
  trans {a b c} h h' := by
    rw [same_iff_render a.2 b.2] at h
    rw [same_iff_render b.2 c.2] at h'
    exact (same_iff_render a.2 c.2).mpr ⟨h.1.trans h'.1, h.2.trans h'.2⟩

/-- On valid expressions, sameness is agreement of kind and text, and agreement of kind and
flattening; the tolerance test on truncated constants agrees with their texts; the tests for zero
and one are sameness with `0` and `1`; and sameness is an equivalence. -/
theorem same_iff_render_iff_flat :
    (∀ a b : Expr, a.valid = true → b.valid = true →
      (same a b = true ↔ a.kind = b.kind ∧ a.render = b.render) ∧
      (same a b = true ↔ a.kind = b.kind ∧ a.flat = b.flat)) ∧
    (∀ x y : Float, isMagnitude x = true → isMagnitude y = true →
      ((Grid.truncate x - Grid.truncate y).abs < tolerance ↔ constText x = constText y)) ∧
    (∀ e : Expr, e.valid = true →
      (e.isZero = true ↔ same e (const 0) = true) ∧ (e.isOne = true ↔ same e (const 1) = true)) ∧
    Equivalence fun a b : {e : Expr // e.valid = true} => same a.1 b.1 = true :=
  ⟨fun _ _ ha hb => ⟨same_iff_render ha hb, same_iff_flat ha hb⟩,
    fun _ _ hx hy => (Grid.abs_sub_lt_tolerance_iff hx hy).trans (Grid.constText_eq_iff hx hy).symm,
    fun _ he => ⟨isZero_iff_same he, isOne_iff_same he⟩, same_equivalence⟩

/-- Sums that differ only in grouping are the same. -/
theorem same_regrouped_sums :
    same (sum (sum (var "x") (var "y")) (var "z")) (sum (var "x") (sum (var "y") (var "z"))) =
      true :=
  ((same_iff_render_iff_flat.1 _ _ (by decide +kernel) (by decide +kernel)).2).mpr ⟨rfl, rfl⟩

end Expr

end Polyform
