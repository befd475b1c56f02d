import Mathlib
import Polyform.Proofs.Expr.Meaning

/-!
# Zero and one

A constant that is zero on the grid is neutral for sums and absorbs products, and a constant that
is one on the grid is neutral for products; a number added or multiplied in acts the same way,
by where it falls on the grid. The laws are about sameness (`Expr.same`), the equality of
expressions.

They hold for every valid expression but in one case: a zero constant added to a constant that is
zero as well. `Expr.addExpr` asks whether the operand is the same as the receiver before it asks
whether either is zero, and the two are the same; it then doubles the receiver's stored value, not
its value on the grid. A stored value from `0.000005` up to `0.00001` is zero on the grid, but its
double is not (`Expr.zero_add_zero_not_zero`). So the additive laws hold exactly when that double
is zero on the grid too, and the others always (`Expr.zero_one_laws`).
-/

namespace Polyform

open Binary64

namespace Grid

/-- Truncation sees only the shape of a double. -/
theorem shape_truncate_congr {x y : Float} (h : shape x = shape y) :
    shape (truncate x) = shape (truncate y) := by
  unfold truncate
  rw [h]
  split
  · dsimp only
    split_ifs <;> first | exact h | rfl
  · exact h

end Grid

namespace Binary64

variable {x y : Float}

theorem isMagnitude_of_shape_eq (h : shape x = shape y) (hy : isMagnitude y = true) :
    isMagnitude x = true := by
  unfold isMagnitude
  rwa [h]

theorem shape_zero_add (hx : shape x = .zero false) (hy : isMagnitude y = true) :
    shape (x + y) = shape y := by
  rcases shape_of_isMagnitude hy with hy | ⟨w, hy⟩ <;> rw [hy]
  · exact shape_add_zeros hx hy
  · exact shape_add_zero_left hx hy

theorem shape_zero_mul (hx : shape x = .zero false) (hy : isMagnitude y = true) :
    shape (x * y) = .zero false := by
  rcases shape_of_isMagnitude hy with hy | ⟨w, hy⟩
  · exact shape_mul_zeros hx hy
  · exact shape_mul_zero_left hx hy

/-- One times a magnitude is exact. -/
theorem shape_one_mul (hx : shape x = .finite false ⟨2 ^ 52, -52, true⟩)
    (hy : isMagnitude y = true) :
    shape (x * y) = shape y := by
  rcases shape_of_isMagnitude hy with hy | ⟨w, hy⟩ <;> rw [hy]
  · exact shape_mul_zero_right hx hy
  · have h := roundsTo_mul hx hy
    have hone : (⟨2 ^ 52, -52, true⟩ : Finite).val = 1 := by norm_num [Finite.val]
    rw [hone, one_mul] at h
    exact shape_of_roundsTo_val (canonical_of_shape hy) h

/-- Saturating a magnitude of the shape of a magnitude changes nothing. -/
theorem saturate_of_shape_eq (h : shape x = shape y) (hy : isMagnitude y = true) :
    saturate x = x :=
  saturate_of_isMagnitude (isMagnitude_of_shape_eq h hy)

end Binary64

namespace Expr

variable {e a b r : Expr} {x y z o k : Float}

/-! ## Zero and one on the grid -/

theorem same_self (he : e.valid = true) : e.same e = true :=
  (same_iff_render he he).mpr ⟨rfl, rfl⟩

theorem same_comm (ha : a.valid = true) (hb : b.valid = true) : a.same b = b.same a := by
  rw [Bool.eq_iff_iff, same_iff_render ha hb, same_iff_render hb ha]
  exact and_congr eq_comm eq_comm

/-- What is the same as `a` is what is the same as anything `a` is the same as. -/
theorem same_congr_right (ha : a.valid = true) (hb : b.valid = true) (hr : r.valid = true)
    (h : a.same r = true) : b.same a = true ↔ b.same r = true := by
  obtain ⟨hk, hrd⟩ := (same_iff_render ha hr).mp h
  rw [same_iff_render hb ha, hk, hrd, ← same_iff_render hb hr]

/-- An expression is the same as a zero expression exactly when it is zero itself. -/
theorem same_zero_iff (ha : a.valid = true) (hb : b.valid = true) (h : a.isZero = true) :
    b.same a = true ↔ b.isZero = true := by
  have h0 : (const 0).valid = true := by decide
  rw [same_congr_right ha hb h0 ((isZero_iff_same ha).mp h), isZero_iff_same hb]

theorem zero_same_iff (ha : a.valid = true) (hb : b.valid = true) (h : a.isZero = true) :
    a.same b = true ↔ b.isZero = true := by
  rw [same_comm ha hb, same_zero_iff ha hb h]

/-- An expression is the same as a one expression exactly when it is one itself. -/
theorem same_one_iff (ha : a.valid = true) (hb : b.valid = true) (h : a.isOne = true) :
    b.same a = true ↔ b.isOne = true := by
  have h1 : (const 1).valid = true := by decide
  rw [same_congr_right ha hb h1 ((isOne_iff_same ha).mp h), isOne_iff_same hb]

theorem shape_truncate_of_isZero (hx : isMagnitude x = true) (h : (const x).isZero = true) :
    shape (Grid.truncate x) = .zero false := by
  rwa [isZero, Grid.truncate_beq_zero_iff hx, Grid.shape_truncate_zero] at h

theorem shape_truncate_of_isOne (hx : isMagnitude x = true) (h : (const x).isOne = true) :
    shape (Grid.truncate x) = .finite false ⟨2 ^ 52, -52, true⟩ := by
  rwa [isOne, Grid.truncate_beq_one_iff hx, Grid.shape_truncate_one] at h

theorem isZero_of_shape_zero (h : shape x = .zero false) : (const x).isZero = true := by
  have h0 : shape (0 : Float) = .zero false := by decide
  rw [isZero, Grid.truncate_of_zero h]
  exact beq_zero h h0

theorem isZero_of_isOne (hx : isMagnitude x = true) (h : (const x).isOne = true) :
    (const x).isZero = false := by
  rw [Bool.eq_false_iff]
  intro h0
  have := (shape_truncate_of_isZero hx h0).symm.trans (shape_truncate_of_isOne hx h)
  cases this

/-- A number truncated to the grid is zero there exactly when it was. -/
theorem isZero_const_truncate (hx : isMagnitude x = true) :
    (const (Grid.truncate x)).isZero = (const x).isZero := by
  rw [isZero, isZero, Grid.truncate_truncate hx]

theorem isOne_const_truncate (hx : isMagnitude x = true) :
    (const (Grid.truncate x)).isOne = (const x).isOne := by
  rw [isOne, isOne, Grid.truncate_truncate hx]

/-- Two constants of one shape are the same. -/
theorem same_of_shape_eq (hx : isMagnitude x = true) (hy : isMagnitude y = true)
    (h : shape x = shape y) : (const x).same (const y) = true := by
  rw [same_const_iff hx hy, Grid.constText_eq_iff hx hy]
  exact Grid.shape_truncate_congr h

/-! ## Zero and one as operands -/

/-- A zero constant added to an expression gives it back, unless the expression is zero too: the
two are then the same, and the constant's stored value is doubled. -/
theorem zero_addExpr_same_iff (he : e.valid = true) (hz : isMagnitude z = true)
    (hz0 : (const z).isZero = true) :
    ((const z).addExpr e).same e = true ↔
      (e.isZero = true → (const (saturate (z * 2))).isZero = true) := by
  have hzv : (const z).valid = true := hz
  by_cases he0 : e.isZero = true
  · -- the receiver and the operand are the same
    have hs : e.same (const z) = true := (same_zero_iff hzv he hz0).mpr he0
    have hd : (const (saturate (z * 2))).valid = true := isMagnitude_saturate_mul hz isMagnitude_two
    simp only [addExpr, hs, if_true]
    rw [same_zero_iff he hd he0]
    exact ⟨fun h _ => h, fun h => h he0⟩
  · have hs : e.same (const z) = false := by
      rw [Bool.eq_false_iff, ne_eq, same_zero_iff hzv he hz0]
      exact he0
    simp only [addExpr, hs, hz0, Bool.false_eq_true, if_false, if_true]
    exact ⟨fun _ h => absurd h he0, fun _ => same_self he⟩

/-- A zero constant added to an expression from the right gives it back, unless the expression is
a zero constant too, whose stored value is then doubled. -/
theorem addExpr_zero_same_iff (he : e.valid = true) (hz : isMagnitude z = true)
    (hz0 : (const z).isZero = true) :
    (e.addExpr (const z)).same e = true ↔
      ∀ c, e = const c → (const c).isZero = true → (const (saturate (c * 2))).isZero = true := by
  have hzv : (const z).valid = true := hz
  cases e with
  | const c =>
    by_cases hc0 : (const c).isZero = true
    · -- the receiver and the operand are the same
      have hs : (const z).same (const c) = true := (same_zero_iff he hzv hc0).mpr hz0
      have hd : (const (saturate (c * 2))).valid = true :=
        isMagnitude_saturate_mul he isMagnitude_two
      simp only [addExpr, hs, if_true]
      rw [same_zero_iff he hd hc0]
      refine ⟨fun h c' hc' _ => ?_, fun h => h c rfl hc0⟩
      cases hc'
      exact h
    · have hs : (const z).same (const c) = false := by
        rw [Bool.eq_false_iff, ne_eq, zero_same_iff hzv he hz0]
        exact hc0
      simp only [addExpr, hs, hc0, hz0, Bool.false_eq_true, if_false, if_true]
      refine iff_of_true (same_self he) fun c' hc' h => ?_
      cases hc'
      exact absurd h hc0
  | _ =>
    -- a variable, a sum or a product drops a zero operand
    simp only [addExpr, hz0, if_true]
    exact iff_of_true (same_self he) fun c h => by cases h

/-- A zero constant absorbs every product it is the receiver of. -/
theorem zero_mulExpr (hz0 : (const z).isZero = true) : ((const z).mulExpr e) = const 0 := by
  simp [mulExpr, hz0]

/-- A zero constant absorbs every product it is the operand of. -/
theorem mulExpr_zero (hz0 : (const z).isZero = true) : (e.mulExpr (const z)) = const 0 := by
  cases e <;> simp [mulExpr, hz0]

/-- A constant one multiplied by an expression gives it back, or zero for a zero expression. -/
theorem one_mulExpr_same (he : e.valid = true) (ho : isMagnitude o = true)
    (ho1 : (const o).isOne = true) : ((const o).mulExpr e).same e = true := by
  have h0 : (const 0).valid = true := by decide
  by_cases he0 : e.isZero = true
  · simp only [mulExpr, he0, Bool.or_true, if_true]
    exact (zero_same_iff h0 he rfl).mpr he0
  · simp only [mulExpr, isZero_of_isOne ho ho1, ho1, Bool.false_or, he0, Bool.false_eq_true,
      if_false, if_true]
    exact same_self he

/-- An expression multiplied by a constant one is the same as before. -/
theorem mulExpr_one_same (he : e.valid = true) (ho : isMagnitude o = true)
    (ho1 : (const o).isOne = true) : (e.mulExpr (const o)).same e = true := by
  have h0 : (const 0).valid = true := by decide
  have ho0 := isZero_of_isOne ho ho1
  have hov : (const o).valid = true := ho
  cases e with
  | const c =>
    by_cases hc0 : (const c).isZero = true
    · simp only [mulExpr, hc0, Bool.true_or, if_true]
      exact (zero_same_iff h0 he rfl).mpr hc0
    · simp only [mulExpr, hc0, ho0, Bool.or_false, Bool.false_eq_true, if_false, ho1, if_true]
      split_ifs with hc1
      · -- a receiver that is one gives the operand, which is one as well
        exact (same_one_iff he hov hc1).mpr ho1
      · exact same_self he
  | _ =>
    simp only [mulExpr, ho0, ho1, Bool.false_eq_true, if_false, if_true]
    exact same_self he

/-! ## Zero and one as numbers -/

/-- Adding a number that is zero on the grid gives the same expression. -/
theorem addConst_zero_same (hk : isMagnitude k = true) (he : e.valid = true)
    (hk0 : (const k).isZero = true) :
    (e.addConst k).same e = true := by
  have ht0 : (const (Grid.truncate k)).isZero = true := by rwa [isZero_const_truncate hk]
  cases e with
  | const c =>
    -- zero plus the stored value is the stored value
    have hs := shape_zero_add (shape_truncate_of_isZero hk hk0) he
    simp only [addConst]
    rw [saturate_of_shape_eq hs he]
    exact same_of_shape_eq (isMagnitude_of_shape_eq hs he) he hs
  | _ =>
    simp only [addConst, ht0, if_true]
    exact same_self he

/-- Multiplying by a number that is zero on the grid gives zero. -/
theorem scale_zero_isZero (hk : isMagnitude k = true) (he : e.valid = true)
    (hk0 : (const k).isZero = true) :
    (e.scale k).isZero = true := by
  have ht0 : (const (Grid.truncate k)).isZero = true := by rwa [isZero_const_truncate hk]
  cases e with
  | const c =>
    have hs := shape_zero_mul (shape_truncate_of_isZero hk hk0) he
    simp only [scale]
    rw [saturate_of_isMagnitude (isMagnitude_of_shape_zero hs)]
    exact isZero_of_shape_zero hs
  | _ =>
    simp only [scale, ht0, if_true]
    rfl

/-- Multiplying by a number that is one on the grid gives the same expression. -/
theorem scale_one_same (hk : isMagnitude k = true) (he : e.valid = true)
    (hk1 : (const k).isOne = true) :
    (e.scale k).same e = true := by
  have ht := Grid.isMagnitude_truncate hk
  have ht1 : (const (Grid.truncate k)).isOne = true := by rwa [isOne_const_truncate hk]
  have ht0 := isZero_of_isOne ht ht1
  cases e with
  | const c =>
    -- one times the stored value is the stored value
    have hs := shape_one_mul (shape_truncate_of_isOne hk hk1) he
    simp only [scale]
    rw [saturate_of_shape_eq hs he]
    exact same_of_shape_eq (isMagnitude_of_shape_eq hs he) he hs
  | _ =>
    simp only [scale, ht0, ht1, Bool.false_eq_true, if_false, if_true]
    exact same_self he

/-! ## The laws -/

/-- Zero and one for every valid expression `e`, with constants `z` zero and `o` one on the grid
and any number `k` a constant may hold: a product with `z` is zero, a product with `o` is `e`, and
adding `k` is neutral and multiplying by it absorbing when it is zero on the grid, multiplying by
it neutral when it is one. A sum with `z`, on either side, is `e` except when `e` is a zero
constant and the stored value of the receiver, doubled, is not zero on the grid. -/
theorem zero_one_laws (he : e.valid = true) (hz : isMagnitude z = true)
    (hz0 : (const z).isZero = true) (ho : isMagnitude o = true) (ho1 : (const o).isOne = true)
    (hk : isMagnitude k = true) :
    (((const z).addExpr e).same e = true ↔
        (e.isZero = true → (const (saturate (z * 2))).isZero = true)) ∧
      ((e.addExpr (const z)).same e = true ↔
        ∀ c, e = const c → (const c).isZero = true →
          (const (saturate (c * 2))).isZero = true) ∧
      ((const z).mulExpr e).same (const 0) = true ∧ (e.mulExpr (const z)).same (const 0) = true ∧
      ((const o).mulExpr e).same e = true ∧ (e.mulExpr (const o)).same e = true ∧
      ((const k).isZero = true →
        (e.addConst k).same e = true ∧ (e.scale k).same (const 0) = true) ∧
      ((const k).isOne = true → (e.scale k).same e = true) := by
  have h00 : (const 0).same (const 0) = true := by decide
  -- a product that is zero on the grid is the same as zero
  have hscale : (const k).isZero = true → (e.scale k).same (const 0) = true := fun hk0 =>
    (isZero_iff_same (valid_scale he hk)).mp (scale_zero_isZero hk he hk0)
  exact ⟨zero_addExpr_same_iff he hz hz0, addExpr_zero_same_iff he hz hz0,
    by rw [zero_mulExpr hz0]; exact h00, by rw [mulExpr_zero hz0]; exact h00,
    one_mulExpr_same he ho ho1, mulExpr_one_same he ho ho1,
    fun hk0 => ⟨addConst_zero_same hk he hk0, hscale hk0⟩, scale_one_same hk he⟩

/-- The laws at a variable, a stored zero below the grid's step, a one just above one, and a
number below the grid's step. -/
theorem zero_one_laws_near_grid :
    (((const 0.000003).addExpr (var "x")).same (var "x") = true ↔
        ((var "x").isZero = true → (const (saturate (0.000003 * 2))).isZero = true)) ∧
      (((var "x").addExpr (const 0.000003)).same (var "x") = true ↔
        ∀ c, var "x" = const c → (const c).isZero = true →
          (const (saturate (c * 2))).isZero = true) ∧
      ((const 0.000003).mulExpr (var "x")).same (const 0) = true ∧
      ((var "x").mulExpr (const 0.000003)).same (const 0) = true ∧
      ((const 1.000002).mulExpr (var "x")).same (var "x") = true ∧
      ((var "x").mulExpr (const 1.000002)).same (var "x") = true ∧
      ((const 0.000004).isZero = true →
        ((var "x").addConst 0.000004).same (var "x") = true ∧
          ((var "x").scale 0.000004).same (const 0) = true) ∧
      ((const 0.000004).isOne = true → ((var "x").scale 0.000004).same (var "x") = true) :=
  zero_one_laws (by decide) (by decide) (by decide +kernel) (by decide) (by decide +kernel)
    (by decide)

/-- Adding a zero constant to a zero constant need not give it back: `0.000009` is zero on the
grid, but the sum doubles the stored value to `0.000018`, which is not. -/
theorem zero_add_zero_not_zero :
    (const 0.000009).isZero = true ∧
      ((const 0.000009).addExpr (const 0.000009)).same (const 0.000009) = false := by
  decide +kernel

end Expr

end Polyform
