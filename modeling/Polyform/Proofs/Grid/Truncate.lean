import Polyform.Proofs.Binary64.Search
import Polyform.Proofs.Expr.Valid

/-!
# Truncation puts constants on the grid

Every double a constant may hold is taken by `Grid.truncate` to `+0.0` or to a double on the grid
of five places (`Grid.onGrid_truncate`): a double from `2 ^ 52` on is whole, a double whose
shortest decimal has at most five places rounds that decimal, and otherwise the decimal cut at five
places converts to the double nearest to it.

Truncating again changes nothing (`Grid.truncate_truncate`): the shortest decimal of a double
on the grid has at most five places. On such doubles three tests agree with sameness of the
truncated double: the difference against
`Expr.tolerance` (`Grid.abs_sub_lt_tolerance_iff`), equality of the texts shown
(`Grid.constText_eq_iff`), and the equality tests against zero and one.
-/

namespace Polyform

namespace Decimal

theorem truncate_of_lt {d : Decimal} {p : ℕ} (h : d.exp < -(p : ℤ)) :
    d.truncate p = ⟨d.coeff / 10 ^ (-(p : ℤ) - d.exp).toNat, -(p : ℤ)⟩ := by
  unfold truncate
  rw [if_neg (by omega), Nat.pow_eq]

/-- Cutting digits off never makes a decimal larger. -/
theorem val_truncate_le (d : Decimal) (p : ℕ) : (d.truncate p).val ≤ d.val := by
  unfold truncate
  split
  · exact le_rfl
  · rename_i h
    set k := (-(p : ℤ) - d.exp).toNat
    have hk : d.exp = -(p : ℤ) - k := by omega
    have hdiv : ((d.coeff / 10 ^ k : ℕ) : ℚ) * 10 ^ k ≤ d.coeff := by
      exact_mod_cast Nat.div_mul_le_self d.coeff (10 ^ k)
    have hpos : (0 : ℚ) < 10 ^ (-(p : ℤ) - k) := zpow_pos (by norm_num) _
    have hsplit : (10 : ℚ) ^ (-(p : ℤ)) = 10 ^ k * 10 ^ (-(p : ℤ) - k) := by
      rw [← zpow_natCast, ← zpow_add₀ (by norm_num), add_sub_cancel]
    simp only [val, hk, hsplit]
    calc ((d.coeff / 10 ^ k : ℕ) : ℚ) * (10 ^ k * 10 ^ (-(p : ℤ) - k))
        = ((d.coeff / 10 ^ k : ℕ) : ℚ) * 10 ^ k * 10 ^ (-(p : ℤ) - k) := by ring
      _ ≤ d.coeff * 10 ^ (-(p : ℤ) - k) := by gcongr

/-- A decimal of at least `10 ^ -p` keeps at least `10 ^ -p` when cut at `p` places: it has at
least one unit of the place it is cut at. -/
theorem le_val_truncate {d : Decimal} {p : ℕ} (h : (10 : ℚ) ^ (-(p : ℤ)) ≤ d.val) :
    (10 : ℚ) ^ (-(p : ℤ)) ≤ (d.truncate p).val := by
  by_cases hle : -(p : ℤ) ≤ d.exp
  · rwa [truncate, if_pos hle]
  rw [truncate_of_lt (not_le.mp hle)]
  set k := (-(p : ℤ) - d.exp).toNat
  have hk : d.exp = -(p : ℤ) - k := by omega
  have hsplit : (10 : ℚ) ^ (-(p : ℤ)) = 10 ^ k * 10 ^ (-(p : ℤ) - k) := by
    rw [← zpow_natCast, ← zpow_add₀ (by norm_num), add_sub_cancel]
  have hpos : (0 : ℚ) < 10 ^ (-(p : ℤ) - k) := zpow_pos (by norm_num) _
  have hc : 10 ^ k ≤ d.coeff := by
    rw [val, hk, hsplit] at h
    exact_mod_cast le_of_mul_le_mul_right h hpos
  have h1 : (1 : ℚ) ≤ ((d.coeff / 10 ^ k : ℕ) : ℚ) := by
    exact_mod_cast (Nat.le_div_iff_mul_le (by positivity)).mpr (by simpa using hc)
  rw [val]
  calc (10 : ℚ) ^ (-(p : ℤ)) = 1 * 10 ^ (-(p : ℤ)) := (one_mul _).symm
    _ ≤ _ := by gcongr

end Decimal

namespace Binary64

namespace Finite

variable {v : Finite}

/-- From `2 ^ 52` on a double is a whole number, a point of every decimal grid. -/
theorem onGrid_of_nonneg_q (hm : 0 < v.m) (hq : 0 ≤ v.q) : v.OnGrid := by
  refine ⟨v.m * 2 ^ v.q.toNat * 10 ^ 5, by positivity, ?_⟩
  have : ((v.m * 2 ^ v.q.toNat * 10 ^ 5 : ℕ) : ℚ) / 10 ^ 5 = v.val := by
    rw [val, show (2 : ℚ) ^ v.q = 2 ^ v.q.toNat by rw [← zpow_natCast, Int.toNat_of_nonneg hq]]
    push_cast
    field_simp
    norm_num
  rw [this]
  exact rounds_val v

/-- A double whose shortest decimal has at most five places rounds a point of the grid. -/
theorem onGrid_of_le_exp (hm : 0 < v.m) (he : -5 ≤ v.shortest.exp) : v.OnGrid := by
  refine ⟨v.shortest.coeff * 10 ^ (v.shortest.exp + 5).toNat,
    Nat.mul_pos (coeff_shortest_pos hm) (by positivity), ?_⟩
  have : ((v.shortest.coeff * 10 ^ (v.shortest.exp + 5).toNat : ℕ) : ℚ) / 10 ^ 5 =
      v.shortest.val := by
    have h5 : (10 : ℚ) ^ (v.shortest.exp + 5).toNat = 10 ^ v.shortest.exp * 10 ^ 5 := by
      rw [← zpow_natCast, Int.toNat_of_nonneg (by omega), zpow_add₀ (by norm_num)]
      rfl
    push_cast
    rw [h5, Decimal.val]
    field_simp
  rw [this]
  exact rounds_shortest hm

/-- Below `2 ^ 52`, what rounds to a double is below `2 ^ 53`. -/
theorem rounds_lt_of_neg_q (hv : v.Canonical) (hq : v.q < 0) {X : ℚ} (hX : v.Rounds X) :
    X < 2 ^ 53 := by
  have hm : (v.m : ℚ) + 1 ≤ 2 ^ 53 := by exact_mod_cast hv.lt
  have hp : (2 : ℚ) ^ v.q ≤ 2 ^ (-1 : ℤ) := zpow_le_zpow_right₀ (by norm_num) (by omega)
  have := two_zpow_pos v.q
  have := hX.2.1
  unfold val at this
  norm_num at hp
  nlinarith

/-- The shortest decimal of a double at least a double on the grid is at least `10 ^ -5`: what
rounds to the larger double lies above the grid point of the smaller, and a double on the grid
has a shortest decimal of at most five places. -/
theorem Canonical.le_val_shortest {w : Finite} (hw : w.Canonical) (hv : v.Canonical)
    (hg : w.OnGrid) (hle : w.val ≤ v.val) : (10 : ℚ) ^ (-5 : ℤ) ≤ v.shortest.val := by
  rcases hle.lt_or_eq with hlt | heq
  · obtain ⟨D, hD, hR⟩ := hg
    have hX := hw.le_of_rounds_of_lt hv hlt hR (rounds_shortest hv.pos)
    have hD1 : (1 : ℚ) ≤ D := by exact_mod_cast hD
    calc (10 : ℚ) ^ (-5 : ℤ) = 1 / 10 ^ 5 := by norm_num
      _ ≤ D / 10 ^ 5 := by gcongr
      _ ≤ v.shortest.val := hX
  · obtain rfl := hw.eq_of_val_eq hv heq
    have he := hw.neg_five_le_exp_shortest hg
    have hc : (1 : ℚ) ≤ w.shortest.coeff := by exact_mod_cast coeff_shortest_pos hw.pos
    rw [Decimal.val]
    calc (10 : ℚ) ^ (-5 : ℤ) ≤ 10 ^ w.shortest.exp := zpow_le_zpow_right₀ (by norm_num) he
      _ = 1 * 10 ^ w.shortest.exp := (one_mul _).symm
      _ ≤ _ := by gcongr

end Finite

end Binary64

namespace Grid

open Binary64

variable {x y : Float}

variable {b : Bool} {v : Finite}

theorem truncate_of_zero (hs : shape x = .zero b) : truncate x = x := by
  unfold truncate
  rw [hs]

theorem truncate_of_nonneg_q (hs : shape x = .finite b v) (hq : 0 ≤ v.q) : truncate x = x := by
  unfold truncate
  rw [hs]
  simp [hq]

theorem truncate_of_le_exp (hs : shape x = .finite b v) (he : -(places : ℤ) ≤ v.shortest.exp) :
    truncate x = x := by
  unfold truncate
  rw [hs]
  simp [he]

theorem truncate_of_exp_lt (hs : shape x = .finite false v) (hq : v.q < 0)
    (he : v.shortest.exp < -(places : ℤ)) :
    truncate x = (v.shortest.truncate places).toFloat := by
  unfold truncate
  rw [hs]
  simp [not_le.mpr hq, not_le.mpr he]

/-- The decimal cut at five places converts to `+0.0` or to a double on the grid. -/
theorem onGrid_toFloat_truncate {v : Finite} (hv : v.Canonical) (hq : v.q < 0)
    (he : v.shortest.exp < -5) : OnGrid (v.shortest.truncate places).toFloat := by
  have h1 : (v.shortest.truncate places).val ≤ v.shortest.val := Decimal.val_truncate_le _ _
  have hexp : (v.shortest.truncate places).exp = -5 := by
    rw [Decimal.truncate_of_lt (by simp [places]; omega)]
    rfl
  generalize v.shortest.truncate places = d at h1 hexp ⊢
  rcases Nat.eq_zero_or_pos d.coeff with h0 | hc
  · -- nothing is left: the cut is zero
    left
    have : d = ⟨0, -5⟩ := by rw [← hexp, ← h0]
    rw [this]
    decide
  · have hR := roundsTo_toFloat d
    have hval : d.val = (d.coeff : ℚ) / 10 ^ 5 := by
      rw [Decimal.val, hexp]
      norm_num
      ring
    have hge : (1 : ℚ) / 10 ^ 5 ≤ d.val := by
      rw [hval]
      have : (1 : ℚ) ≤ d.coeff := by exact_mod_cast hc
      gcongr
    unfold RoundsTo at hR
    split at hR
    · -- the cut is far above the least subnormal
      have : (2 : ℚ) ^ (-1075 : ℤ) < 1 / 10 ^ 5 :=
        lt_of_le_of_lt (zpow_le_zpow_right₀ (by norm_num) (by norm_num : (-1075 : ℤ) ≤ -17))
          (by norm_num)
      linarith [hR.2]
    · rename_i b w hw
      obtain ⟨rfl, hwR⟩ := hR
      exact .inr ⟨w, hw, d.coeff, hc, hval ▸ hwR⟩
    · -- and below `2 ^ 53`
      have h2 := Finite.rounds_lt_of_neg_q hv hq (Finite.rounds_shortest hv.pos)
      exact ((lt_irrefl _) (hR.2.trans_lt ((h1.trans_lt h2).trans two_pow_53_lt_overflow))).elim
    · exact hR.elim

/-- Truncation takes every double a constant may hold to `+0.0` or onto the grid. -/
theorem onGrid_truncate (hx : isMagnitude x = true) : OnGrid (truncate x) := by
  unfold isMagnitude at hx
  rcases hs : shape x with _ | b | b | ⟨b, v⟩ <;> rw [hs] at hx
  · simp at hx
  · simp at hx
  · -- `+0.0` stays
    have hb : b = false := by simpa using hx
    subst hb
    rw [truncate_of_zero hs]
    exact .inl hs
  · have hb : b = false := by simpa using hx
    subst hb
    have hv := canonical_of_shape hs
    by_cases hq : 0 ≤ v.q
    · rw [truncate_of_nonneg_q hs hq]
      exact .inr ⟨v, hs, Finite.onGrid_of_nonneg_q hv.pos hq⟩
    by_cases he : -(places : ℤ) ≤ v.shortest.exp
    · rw [truncate_of_le_exp hs he]
      exact .inr ⟨v, hs, Finite.onGrid_of_le_exp hv.pos he⟩
    · rw [truncate_of_exp_lt hs (by omega) (by omega)]
      exact onGrid_toFloat_truncate hv (by omega) (by simp only [places] at he; omega)

theorem isMagnitude_truncate (hx : isMagnitude x = true) : isMagnitude (truncate x) = true := by
  rcases onGrid_truncate hx with h | ⟨v, h, -⟩ <;> simp [isMagnitude, h]

/-- Truncating twice is truncating once. -/
theorem truncate_truncate (hx : isMagnitude x = true) : truncate (truncate x) = truncate x := by
  rcases onGrid_truncate hx with h | ⟨v, h, hg⟩
  · exact truncate_of_zero h
  · refine truncate_of_le_exp h ?_
    have := (canonical_of_shape h).neg_five_le_exp_shortest hg
    simpa [places] using this

/-! ## Tests on the grid -/

theorem normalized_decimal (x : Float) : (decimal x).Normalized := by
  rw [decimal_eq_shortest_truncate]
  split
  · exact Finite.normalized_shortest _
  · exact Decimal.normalized_zero

/-- The decimal shown for a double that a constant may hold is the same exactly when the
truncated doubles are. -/
theorem decimal_eq_iff (hx : isMagnitude x = true) (hy : isMagnitude y = true) :
    decimal x = decimal y ↔ shape (truncate x) = shape (truncate y) := by
  -- zero is shown as `0`, a positive double by a decimal that is not zero
  have hne : ∀ {w : Finite}, w.Canonical → (⟨0, 0⟩ : Decimal) ≠ w.shortest := fun hw h =>
    (Finite.coeff_shortest_pos hw.pos).ne' (by rw [← h])
  rw [decimal_eq_shortest_truncate, decimal_eq_shortest_truncate]
  rcases onGrid_truncate hx with h₁ | ⟨v, h₁, -⟩ <;>
    rcases onGrid_truncate hy with h₂ | ⟨w, h₂, -⟩ <;> simp only [h₁, h₂]
  · exact iff_of_false (hne (canonical_of_shape h₂)) (by simp)
  · exact iff_of_false (hne (canonical_of_shape h₁)).symm (by simp)
  · rw [Shape.finite.injEq]
    exact ⟨fun h => ⟨rfl, Finite.eq_of_shortest_eq (canonical_of_shape h₁) (canonical_of_shape h₂) h⟩,
      fun h => h.2 ▸ rfl⟩

/-- A truncated double is shown as the double it came from. -/
theorem decimal_truncate (hx : isMagnitude x = true) : decimal (truncate x) = decimal x := by
  rw [decimal_eq_shortest_truncate, truncate_truncate hx, ← decimal_eq_shortest_truncate]

/-- The text of a constant is the same exactly when the truncated doubles are. -/
theorem constText_eq_iff (hx : isMagnitude x = true) (hy : isMagnitude y = true) :
    Expr.constText x = Expr.constText y ↔ shape (truncate x) = shape (truncate y) := by
  rw [← decimal_eq_iff hx hy]
  exact ⟨Decimal.plain_injective (normalized_decimal x) (normalized_decimal y),
    congrArg Decimal.plain⟩

/-- The double `5e-6`, a little above `5 * 10 ^ -6`. -/
theorem shape_tolerance : shape Expr.tolerance = .finite false ⟨5902958103587057, -70, false⟩ := by
  decide

/-- The difference of two truncated constants is below the tolerance exactly when they are the
same double. -/
theorem abs_sub_lt_tolerance_iff (hx : isMagnitude x = true) (hy : isMagnitude y = true) :
    (truncate x - truncate y).abs < Expr.tolerance ↔ shape (truncate x) = shape (truncate y) :=
  abs_sub_lt_iff_shape_eq shape_tolerance (by norm_num [Finite.val]) (onGrid_truncate hx)
    (onGrid_truncate hy)

theorem shape_truncate_zero : shape (truncate 0) = .zero false := by
  decide

theorem shape_truncate_one : shape (truncate 1) = .finite false ⟨2 ^ 52, -52, true⟩ := by
  decide +kernel

theorem truncate_beq_zero_iff (hx : isMagnitude x = true) :
    (truncate x == 0) = true ↔ shape (truncate x) = shape (truncate 0) := by
  have h0 : shape (0 : Float) = .zero false := by decide
  rw [shape_truncate_zero]
  rcases onGrid_truncate hx with h | ⟨v, h, -⟩ <;> rw [h]
  · exact iff_of_true (beq_zero h h0) rfl
  · simp [beq_finite_zero h h0]

theorem truncate_beq_one_iff (hx : isMagnitude x = true) :
    (truncate x == 1) = true ↔ shape (truncate x) = shape (truncate 1) := by
  have h1 : shape (1 : Float) = .finite false ⟨2 ^ 52, -52, true⟩ := by decide
  rw [shape_truncate_one]
  rcases onGrid_truncate hx with h | ⟨v, h, -⟩ <;> rw [h]
  · simp [beq_zero_finite h h1]
  · rw [beq_iff_val_eq h h1, Shape.finite.injEq]
    exact ⟨fun hv => ⟨rfl, (canonical_of_shape h).eq_of_val_eq (canonical_of_shape h1) hv⟩,
      fun hv => hv.2 ▸ rfl⟩

/-! ## Doubles at or above the grid -/

/-- A truncated double that is not zero is a double on the grid. -/
theorem exists_onGrid_of_beq_zero (hx : isMagnitude x = true) (h : (truncate x == 0) = false) :
    ∃ w, shape (truncate x) = .finite false w ∧ w.OnGrid := by
  rcases onGrid_truncate hx with hz | hw
  · have h0 : shape (0 : Float) = .zero false := by decide
    rw [beq_zero hz h0] at h
    exact absurd h (by decide)
  · exact hw

/-- A double at least a double on the grid does not truncate to zero: its shortest decimal, and
so the decimal cut from it, is at least `10 ^ -5`. -/
theorem truncate_beq_zero_of_le {w v : Finite} (hw : w.Canonical) (hg : w.OnGrid)
    (hy : shape y = .finite false v) (hle : w.val ≤ v.val) : (truncate y == 0) = false := by
  have h0 : shape (0 : Float) = .zero false := by decide
  have hv := canonical_of_shape hy
  by_cases hq : 0 ≤ v.q
  · rw [truncate_of_nonneg_q hy hq]
    exact beq_finite_zero hy h0
  by_cases he : -(places : ℤ) ≤ v.shortest.exp
  · rw [truncate_of_le_exp hy he]
    exact beq_finite_zero hy h0
  have he' : v.shortest.exp < -5 := by simp only [places] at he; omega
  rw [truncate_of_exp_lt hy (by omega) (by omega)]
  rcases onGrid_toFloat_truncate hv (by omega) he' with hz | ⟨u, hu, -⟩
  · -- the cut keeps at least `10 ^ -5`, far above what rounds to zero
    have hcut : (10 : ℚ) ^ (-(places : ℤ)) ≤ (v.shortest.truncate places).val :=
      Decimal.le_val_truncate (by simpa [places] using hw.le_val_shortest hv hg hle)
    have hR := roundsTo_toFloat (v.shortest.truncate places)
    unfold RoundsTo at hR
    rw [hz] at hR
    have hsmall : (2 : ℚ) ^ (-1075 : ℤ) < 10 ^ (-(places : ℤ)) :=
      lt_of_le_of_lt (zpow_le_zpow_right₀ (by norm_num) (by norm_num : (-1075 : ℤ) ≤ -17))
        (by norm_num [places])
    linarith [hR.2]
  · exact beq_finite_zero hu h0

end Grid

end Polyform
