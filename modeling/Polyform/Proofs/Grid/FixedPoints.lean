import Polyform.Proofs.Binary64.Order
import Polyform.Proofs.Expr.Checked

/-!
# Truncation returns fixed points of itself

Every double that `Grid.truncate` returns is left alone by it (`Grid.truncate_truncate_eq`): a
NaN, an infinity, a zero or a double from `2 ^ 52` on is returned as it is, and any other double
is cut to a zero or, with its sign, to a double on the grid, whose shortest decimal has at most
five places.

On finite doubles that are not below zero truncation only lowers (`Grid.truncate_between`): the
cut decimal is at most the shortest decimal, and rounding keeps order. Two of its results that are
not equal lie at least `Expr.tolerance` apart, the threshold with which constants are compared
(`Grid.tolerance_le_abs_sub_truncate`).
-/

namespace Polyform

namespace Binary64

namespace Finite

namespace Canonical

variable {v w : Finite}

/-- Rounding keeps order: a number that rounds to `w` and lies at most a number that rounds to
`v` puts `w` at most `v`. -/
theorem val_le_of_rounds_le (hw : w.Canonical) (hv : v.Canonical) {X Y : ℚ} (hX : w.Rounds X)
    (hY : v.Rounds Y) (h : X ≤ Y) : w.val ≤ v.val := by
  refine le_of_not_gt fun hlt => ?_
  have hYX := le_of_rounds_of_lt hv hw hlt hY hX
  obtain rfl : X = Y := le_antisymm h hYX
  exact hlt.ne (congrArg val (eq_of_rounds hv hw hY hX))

end Canonical

end Finite

end Binary64

namespace Grid

open Binary64

variable {x y : Float} {b : Bool} {v w : Finite}

/-! ## Fixed points -/

theorem truncate_of_nan (hs : shape x = .nan) : truncate x = x := by
  unfold truncate
  rw [hs]

theorem truncate_of_infinite (hs : shape x = .infinite b) : truncate x = x := by
  unfold truncate
  rw [hs]

theorem truncate_of_exp_lt_neg (hs : shape x = .finite true v) (hq : v.q < 0)
    (he : v.shortest.exp < -(places : ℤ)) :
    truncate x = -(v.shortest.truncate places).toFloat := by
  unfold truncate
  rw [hs]
  simp [not_le.mpr hq, not_le.mpr he]

/-- A zero, or a double of either sign on the grid, is left as it is. -/
theorem truncate_of_grid
    (h : (∃ b, shape x = .zero b) ∨ ∃ b w, shape x = .finite b w ∧ w.OnGrid) :
    truncate x = x := by
  rcases h with ⟨b, hs⟩ | ⟨b, w, hs, hg⟩
  · exact truncate_of_zero hs
  · refine truncate_of_le_exp hs ?_
    simpa [places] using (canonical_of_shape hs).neg_five_le_exp_shortest hg

/-- Truncating twice is truncating once, for every double. -/
theorem truncate_truncate_eq (x : Float) : truncate (truncate x) = truncate x := by
  rcases hs : shape x with _ | b | b | ⟨b, v⟩
  · rw [truncate_of_nan hs, truncate_of_nan hs]
  · rw [truncate_of_infinite hs, truncate_of_infinite hs]
  · rw [truncate_of_zero hs, truncate_of_zero hs]
  · have hv := canonical_of_shape hs
    by_cases hq : 0 ≤ v.q
    · rw [truncate_of_nonneg_q hs hq, truncate_of_nonneg_q hs hq]
    by_cases he : -(places : ℤ) ≤ v.shortest.exp
    · rw [truncate_of_le_exp hs he, truncate_of_le_exp hs he]
    -- the cut decimal converts to `+0.0` or to a double on the grid, and the sign goes back on
    have hgrid := onGrid_toFloat_truncate hv (by omega) (by simp only [places] at he; omega)
    cases b with
    | false =>
      rw [truncate_of_exp_lt hs (by omega) (by omega)]
      refine truncate_of_grid ?_
      rcases hgrid with h | ⟨w, h, hg⟩
      · exact .inl ⟨false, h⟩
      · exact .inr ⟨false, w, h, hg⟩
    | true =>
      rw [truncate_of_exp_lt_neg hs (by omega) (by omega)]
      refine truncate_of_grid ?_
      rcases hgrid with h | ⟨w, h, hg⟩
      · exact .inl ⟨true, shape_neg_zero h⟩
      · exact .inr ⟨true, w, shape_neg_finite h, hg⟩

/-- A magnitude truncates to a finite double: a zero or a double on the grid. -/
theorem isInf_truncate (hx : isMagnitude x = true) : (truncate x).isInf = false := by
  rw [Bool.eq_false_iff]
  intro hi
  obtain ⟨b, hb⟩ := isInf_iff.mp hi
  rcases onGrid_truncate hx with h | ⟨w, h, -⟩ <;> rw [h] at hb <;> cases hb

/-! ## Finite doubles not below zero -/

/-- A finite double that is not below zero truncates to a zero or to a double on the grid. -/
theorem truncate_cases_of_nonneg (hf : x.isFinite = true) (h0 : 0 ≤ x) :
    (∃ b, shape (truncate x) = .zero b) ∨
      ∃ w, shape (truncate x) = .finite false w ∧ w.OnGrid := by
  rcases shape_of_nonneg hf h0 with ⟨b, hs⟩ | ⟨v, hs⟩
  · rw [truncate_of_zero hs]
    exact .inl ⟨b, hs⟩
  · rcases onGrid_truncate (isMagnitude_of_shape_finite hs) with h | h
    · exact .inl ⟨false, h⟩
    · exact .inr h

/-- The shortest decimal of what a finite double not below zero truncates to has at most five
places. -/
theorem exp_shortest_truncate (hf : x.isFinite = true) (h0 : 0 ≤ x)
    (hs : shape (truncate x) = .finite b w) : -(places : ℤ) ≤ w.shortest.exp := by
  rcases truncate_cases_of_nonneg hf h0 with ⟨c, h⟩ | ⟨w', h, hg⟩ <;> rw [h] at hs
  · cases hs
  · cases hs
    simpa [places] using (canonical_of_shape h).neg_five_le_exp_shortest hg

/-- A finite double that is not below zero truncates to a double between zero and itself. -/
theorem truncate_between (hf : x.isFinite = true) (h0 : 0 ≤ x) :
    0 ≤ truncate x ∧ truncate x ≤ x := by
  have hz : shape (0 : Float) = .zero false := by decide
  rcases shape_of_nonneg hf h0 with ⟨b, hs⟩ | ⟨v, hs⟩
  · rw [truncate_of_zero hs]
    exact ⟨h0, zero_le_zero hs hs⟩
  have hv := canonical_of_shape hs
  have hrefl : x ≤ x := (le_iff_val_le hs hs).mpr le_rfl
  by_cases hq : 0 ≤ v.q
  · rw [truncate_of_nonneg_q hs hq]
    exact ⟨h0, hrefl⟩
  by_cases he : -(places : ℤ) ≤ v.shortest.exp
  · rw [truncate_of_le_exp hs he]
    exact ⟨h0, hrefl⟩
  rw [truncate_of_exp_lt hs (by omega) (by omega)]
  have hR := roundsTo_toFloat (v.shortest.truncate places)
  unfold RoundsTo at hR
  rcases onGrid_toFloat_truncate hv (by omega) (by simp only [places] at he; omega)
    with ht | ⟨w, ht, -⟩
  · exact ⟨zero_le_zero hz ht, zero_le_finite ht hs⟩
  · rw [ht] at hR
    refine ⟨zero_le_finite hz ht, (le_iff_val_le ht hs).mpr ?_⟩
    -- the cut decimal rounds to `w` and lies at most the shortest decimal, which rounds to `v`
    exact (canonical_of_shape ht).val_le_of_rounds_le hv hR.2 (Finite.rounds_shortest hv.pos)
      (Decimal.val_truncate_le _ _)

/-- Two truncations of finite doubles not below zero that are not equal lie at least the
comparison threshold apart. -/
theorem tolerance_le_abs_sub_truncate (hfx : x.isFinite = true) (h0x : 0 ≤ x)
    (hfy : y.isFinite = true) (h0y : 0 ≤ y) (hne : (truncate x == truncate y) = false) :
    Expr.tolerance ≤ (truncate x - truncate y).abs :=
  le_abs_sub shape_tolerance (by norm_num [Finite.val]) (truncate_cases_of_nonneg hfx h0x)
    (truncate_cases_of_nonneg hfy h0y) hne

/-- Truncation maps onto a grid of its own fixed points. Truncating twice gives the same double
as truncating once, for every double. A finite double not below zero truncates to a double
between zero and itself, whose shortest decimal has at most five places; and two such truncations
that are not equal differ by at least the threshold with which constants are compared. -/
theorem truncate_onto_fixed_grid :
    (∀ x : Float, truncate (truncate x) = truncate x) ∧
      (∀ x : Float, x.isFinite = true → 0 ≤ x →
        (0 ≤ truncate x ∧ truncate x ≤ x) ∧
          ∀ b w, shape (truncate x) = .finite b w → -(places : ℤ) ≤ w.shortest.exp) ∧
      ∀ x y : Float, x.isFinite = true → 0 ≤ x → y.isFinite = true → 0 ≤ y →
        (truncate x == truncate y) = false → Expr.tolerance ≤ (truncate x - truncate y).abs :=
  ⟨truncate_truncate_eq, fun _ hf h0 => ⟨truncate_between hf h0,
    fun _ _ hs => exp_shortest_truncate hf h0 hs⟩,
    fun _ _ hfx h0x hfy h0y hne => tolerance_le_abs_sub_truncate hfx h0x hfy h0y hne⟩

/-- `0.123456` truncates to `0.12345`, and `0.12346` stays: the two are a grid step apart. -/
theorem truncate_neighbours_apart :
    (0.123456 : Float).isFinite = true ∧ 0 ≤ (0.123456 : Float) ∧
      (0.12346 : Float).isFinite = true ∧ 0 ≤ (0.12346 : Float) ∧
      (truncate 0.123456 == truncate 0.12346) = false ∧
      ((0 ≤ truncate 0.123456 ∧ truncate 0.123456 ≤ 0.123456) ∧
        ∀ b w, shape (truncate 0.123456) = .finite b w → -(places : ℤ) ≤ w.shortest.exp) ∧
      Expr.tolerance ≤ (truncate 0.123456 - truncate 0.12346).abs := by
  have hf : (0.123456 : Float).isFinite = true := by decide
  have h0 : 0 ≤ (0.123456 : Float) := by decide
  have hf' : (0.12346 : Float).isFinite = true := by decide
  have h0' : 0 ≤ (0.12346 : Float) := by decide
  have hne : (truncate 0.123456 == truncate 0.12346) = false := by decide +kernel
  exact ⟨hf, h0, hf', h0', hne, truncate_onto_fixed_grid.2.1 _ hf h0,
    truncate_onto_fixed_grid.2.2 _ _ hf h0 hf' h0' hne⟩

end Grid

end Polyform
