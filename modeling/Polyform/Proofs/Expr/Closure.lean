import Polyform.Proofs.Grid.Truncate

/-!
# The combinators keep expressions valid

Every constant a combinator builds holds a magnitude: the grid keeps magnitudes
(`Grid.isMagnitude_truncate`), and the saturated sum or product of two magnitudes is one again
(`Binary64.isMagnitude_saturate_add`, `Binary64.isMagnitude_saturate_mul`). The variables of the
result are those of the operands or the name given. So each combinator takes valid operands to a
valid expression, and every expression the combinators can build is valid
(`Expr.valid_of_reachable`).
-/

namespace Polyform

namespace Binary64

variable {x y : Float}

@[simp] theorem isMagnitude_zero : isMagnitude 0 = true := by decide

theorem isMagnitude_two : isMagnitude 2 = true := by decide

theorem shape_of_isMagnitude (h : isMagnitude x = true) :
    shape x = .zero false ∨ ∃ v, shape x = .finite false v := by
  unfold isMagnitude at h
  rcases hs : shape x with _ | b | b | ⟨b, v⟩ <;> rw [hs] at h <;> simp_all

theorem isMagnitude_of_shape_zero (h : shape x = .zero false) : isMagnitude x = true := by
  simp [isMagnitude, h]

theorem isMagnitude_of_shape_finite {v : Finite} (h : shape x = .finite false v) :
    isMagnitude x = true := by
  simp [isMagnitude, h]

/-- A double that a non-negative number rounds to is a magnitude, unless it is infinite. -/
theorem isMagnitude_of_roundsTo {X : ℚ} (h : RoundsTo X false x) (hx : x.isInf = false) :
    isMagnitude x = true := by
  unfold RoundsTo at h
  rcases hs : shape x with _ | b | b | ⟨b, v⟩ <;> rw [hs] at h
  · exact h.elim
  · rw [isInf_iff.mpr ⟨b, hs⟩] at hx
    exact absurd hx (by decide)
  · obtain ⟨rfl, -⟩ := h
    exact isMagnitude_of_shape_zero hs
  · obtain ⟨rfl, -⟩ := h
    exact isMagnitude_of_shape_finite hs

/-- Saturation leaves a magnitude as it is. -/
theorem saturate_of_isMagnitude (h : isMagnitude x = true) : saturate x = x := by
  rcases shape_of_isMagnitude h with h | ⟨v, h⟩ <;> simp [saturate, isInf_iff, h]

theorem isMagnitude_saturate (h : isMagnitude x = true) : isMagnitude (saturate x) = true := by
  rw [saturate_of_isMagnitude h]
  exact h

/-- Whatever a non-negative value rounds to saturates to a magnitude. -/
theorem isMagnitude_saturate_of_roundsTo {X : ℚ} (h : RoundsTo X false x) :
    isMagnitude (saturate x) = true := by
  unfold RoundsTo at h
  rcases hs : shape x with _ | b | b | ⟨b, v⟩ <;> rw [hs] at h
  · exact h.elim
  · -- an infinity becomes the largest finite double
    rw [saturate, if_pos (isInf_iff.mpr ⟨b, hs⟩)]
    decide
  · obtain ⟨rfl, -⟩ := h
    exact isMagnitude_saturate (isMagnitude_of_shape_zero hs)
  · obtain ⟨rfl, -⟩ := h
    exact isMagnitude_saturate (isMagnitude_of_shape_finite hs)

theorem isMagnitude_saturate_add (hx : isMagnitude x = true) (hy : isMagnitude y = true) :
    isMagnitude (saturate (x + y)) = true := by
  rcases shape_of_isMagnitude hx with hx | ⟨v, hx⟩ <;>
    rcases shape_of_isMagnitude hy with hy | ⟨w, hy⟩
  · exact isMagnitude_saturate (isMagnitude_of_shape_zero (shape_add_zeros hx hy))
  · exact isMagnitude_saturate (isMagnitude_of_shape_finite (shape_add_zero_left hx hy))
  · exact isMagnitude_saturate (isMagnitude_of_shape_finite (shape_add_zero_right hx hy))
  · exact isMagnitude_saturate_of_roundsTo (roundsTo_add hx hy)

theorem isMagnitude_saturate_mul (hx : isMagnitude x = true) (hy : isMagnitude y = true) :
    isMagnitude (saturate (x * y)) = true := by
  rcases shape_of_isMagnitude hx with hx | ⟨v, hx⟩ <;>
    rcases shape_of_isMagnitude hy with hy | ⟨w, hy⟩
  · exact isMagnitude_saturate (isMagnitude_of_shape_zero (shape_mul_zeros hx hy))
  · exact isMagnitude_saturate (isMagnitude_of_shape_zero (shape_mul_zero_left hx hy))
  · exact isMagnitude_saturate (isMagnitude_of_shape_zero (shape_mul_zero_right hx hy))
  · exact isMagnitude_saturate_of_roundsTo (roundsTo_mul hx hy)

/-- Saturating what a number of at least `w` rounds to gives a finite double of at least `w`. -/
theorem exists_saturate_ge_of_roundsTo {X : ℚ} {w : Finite} (h : RoundsTo X false x)
    (hw : w.Canonical) (hX : w.val ≤ X) :
    ∃ v, shape (saturate x) = .finite false v ∧ w.val ≤ v.val := by
  unfold RoundsTo at h
  rcases hs : shape x with _ | b | b | ⟨b, v⟩ <;> rw [hs] at h
  · exact h.elim
  · -- an infinity becomes the largest double, which is at least every double
    have hmax : shape maxFinite = .finite false ⟨2 ^ 53 - 1, 971, false⟩ := by decide
    have hval : (⟨2 ^ 53 - 1, 971, false⟩ : Finite).val = (2 ^ 53 - 1) * 2 ^ (971 : ℤ) := by
      rw [Finite.val]
      norm_num
    rw [saturate, if_pos (isInf_iff.mpr ⟨b, hs⟩)]
    exact ⟨_, hmax, hval ▸ hw.val_le_max⟩
  · -- a zero lies below every double
    have h1 := hw.two_zpow_le_val
    have h2 : (2 : ℚ) ^ (-1075 : ℤ) < 2 ^ (-1074 : ℤ) :=
      zpow_lt_zpow_right₀ (by norm_num) (by norm_num)
    linarith [h.2]
  · obtain ⟨rfl, hv⟩ := h
    refine ⟨v, ?_, hw.le_of_le_rounds (canonical_of_shape hs) hv hX⟩
    rw [saturate_of_isMagnitude (isMagnitude_of_shape_finite hs), hs]

/-- Adding a magnitude to a positive double, and saturating, never goes below the double. -/
theorem exists_saturate_add_ge {w : Finite} (hx : shape x = .finite false w)
    (hy : isMagnitude y = true) : ∃ v, shape (saturate (x + y)) = .finite false v ∧ w.val ≤ v.val := by
  rcases shape_of_isMagnitude hy with hy | ⟨u, hy⟩
  · have h := shape_add_zero_right hx hy
    exact ⟨w, by rw [saturate_of_isMagnitude (isMagnitude_of_shape_finite h), h], le_rfl⟩
  · refine exists_saturate_ge_of_roundsTo (roundsTo_add hx hy) (canonical_of_shape hx) ?_
    linarith [Finite.val_pos (canonical_of_shape hy).pos]

/-- Doubling a positive double, and saturating, never goes below the double. -/
theorem exists_saturate_mul_two_ge {w : Finite} (hx : shape x = .finite false w) :
    ∃ v, shape (saturate (x * 2)) = .finite false v ∧ w.val ≤ v.val := by
  have h2 : shape (2 : Float) = .finite false ⟨2 ^ 52, -51, true⟩ := by decide
  have hval : (⟨2 ^ 52, -51, true⟩ : Finite).val = 2 := by norm_num [Finite.val]
  refine exists_saturate_ge_of_roundsTo (roundsTo_mul hx h2) (canonical_of_shape hx) ?_
  rw [hval]
  linarith [Finite.val_pos (canonical_of_shape hx).pos]

end Binary64

namespace Expr

open Binary64

variable {e a b : Expr} {x : Float} {n : String}

@[simp] theorem valid_const (x : Float) : (const x).valid = isMagnitude x := rfl

@[simp] theorem valid_var (n : String) : (var n).valid = isVarName n := rfl

@[simp] theorem valid_two : two.valid = true := isMagnitude_two

theorem valid_addVar (he : e.valid = true) (hn : isVarName n = true) :
    (e.addVar n).valid = true := by
  cases e with
  | const c =>
    simp only [addVar]
    split <;> simp_all
  | _ => simp_all [addVar]

theorem valid_mulVar (he : e.valid = true) (hn : isVarName n = true) :
    (e.mulVar n).valid = true := by
  cases e with
  | const c =>
    simp only [mulVar]
    split
    · rfl
    · split <;> simp_all
  | _ => simp_all [mulVar]

theorem valid_addConst (he : e.valid = true) (hx : isMagnitude x = true) :
    (e.addConst x).valid = true := by
  have ht := Grid.isMagnitude_truncate hx
  induction e generalizing x with
  | const c => exact isMagnitude_saturate_add ht he
  | sum l r ihl ihr =>
    simp only [valid_sum, Bool.and_eq_true] at he
    simp only [addConst]
    split_ifs
    · simp [he]
    · simp [ihl he.1 ht (Grid.isMagnitude_truncate ht), he.2]
    · simp [ihr he.2 ht (Grid.isMagnitude_truncate ht), he.1]
    · simp [ht, he]
  | var m =>
    simp only [addConst]
    split <;> simp_all
  | prod l r =>
    simp only [addConst]
    split <;> simp_all

theorem valid_double (he : e.valid = true) : e.double.valid = true := by
  cases e with
  | const c =>
    simp only [double]
    split_ifs
    · exact isMagnitude_zero
    · exact valid_two
    · exact isMagnitude_saturate_mul (Grid.isMagnitude_truncate he) isMagnitude_two
  | _ => simp_all [double]

theorem valid_addExpr (ha : a.valid = true) (hb : b.valid = true) : (a.addExpr b).valid = true := by
  cases a with
  | const c =>
    simp only [addExpr]
    split_ifs
    · exact isMagnitude_saturate_mul ha isMagnitude_two
    · exact hb
    · exact ha
    · exact valid_addConst hb ha
  | var m =>
    simp only [addExpr]
    split
    · exact ha
    · exact valid_addVar hb ha
  | sum l r =>
    simp only [valid_sum, Bool.and_eq_true] at ha
    simp only [addExpr]
    split_ifs <;> simp [valid_double, ha, hb]
  | prod l r =>
    simp only [valid_prod, Bool.and_eq_true] at ha
    simp only [addExpr]
    split_ifs <;> simp [valid_double, ha, hb]

theorem valid_scale (he : e.valid = true) (hx : isMagnitude x = true) : (e.scale x).valid = true := by
  have ht := Grid.isMagnitude_truncate hx
  induction e generalizing x with
  | const c => exact isMagnitude_saturate_mul ht he
  | sum l r ihl ihr =>
    simp only [valid_sum, Bool.and_eq_true] at he
    simp only [scale]
    split_ifs
    · exact isMagnitude_zero
    · simp [he]
    · exact valid_addExpr (ihl he.1 ht (Grid.isMagnitude_truncate ht))
        (ihr he.2 ht (Grid.isMagnitude_truncate ht))
  | var m =>
    simp only [scale]
    split_ifs <;> simp_all
  | prod l r =>
    simp only [scale]
    split_ifs <;> simp_all

theorem valid_mulExpr (ha : a.valid = true) (hb : b.valid = true) : (a.mulExpr b).valid = true := by
  cases a with
  | const c =>
    simp only [mulExpr]
    split_ifs
    · exact isMagnitude_zero
    · exact hb
    · exact ha
    · exact valid_scale hb ha
  | var m =>
    simp only [mulExpr]
    split_ifs
    · exact isMagnitude_zero
    · exact ha
    · exact valid_mulVar hb ha
  | sum l r =>
    simp only [mulExpr]
    split_ifs <;> simp_all
  | prod l r =>
    simp only [mulExpr]
    split_ifs <;> simp_all

/-- Every expression the combinators can build is valid. -/
theorem valid_of_reachable (h : Reachable e) : e.valid = true := by
  induction h with
  | const hx => exact hx
  | var hn => exact hn
  | addExpr _ _ iha ihb => exact valid_addExpr iha ihb
  | mulExpr _ _ iha ihb => exact valid_mulExpr iha ihb
  | addVar _ hn ih => exact valid_addVar ih hn
  | mulVar _ hn ih => exact valid_mulVar ih hn
  | addConst _ hx ih => exact valid_addConst ih hx
  | scale _ hx ih => exact valid_scale ih hx

end Expr

end Polyform
