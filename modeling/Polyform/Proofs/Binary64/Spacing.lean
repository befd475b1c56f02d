import Polyform.Proofs.Binary64.Conversion

/-!
# Doubles on the grid of five places lie far apart

A double is on the grid when it is what a positive multiple of `10 ^ -5` rounds to
(`Finite.OnGrid`). Two such doubles are equal or more than `5.2 * 10 ^ -6` apart
(`Finite.Canonical.sep_of_onGrid`): their grid points are `10 ^ -5` apart or more, and each
double lies within half a gap of its point.

So a threshold double of value at most `5.2 * 10 ^ -6` tells such doubles apart: the difference of
two of them, or of `+0.0`, is below it exactly when the two are the same
(`abs_sub_lt_iff_shape_eq`).
-/

namespace Polyform

namespace Binary64

namespace Finite

/-- The double is what a positive point of the grid of five decimal places rounds to. -/
def OnGrid (v : Finite) : Prop :=
  ∃ D : ℕ, 0 < D ∧ v.Rounds (D / 10 ^ 5)

namespace Canonical

variable {v w u : Finite}

/-- Rounding keeps order: what rounds to a smaller double is at most what rounds to a larger. -/
theorem le_of_rounds_of_lt (hv : v.Canonical) (hw : w.Canonical) (hlt : v.val < w.val)
    {X Y : ℚ} (hX : v.Rounds X) (hY : w.Rounds Y) : X ≤ Y := by
  have := add_le_of_lt hv hw hlt
  have := le_sub_of_lt hv hw hlt
  linarith [hX.2.1, hY.1]

/-- Doubles that round two numbers `10 ^ -5` or more apart are more than `5.2 * 10 ^ -6` apart.
Each lies within half a gap of its number; the gap below the larger and above the smaller are at
most the distance between them, and where both are small the distance is a whole number of the
smaller's gaps. -/
theorem sep_of_rounds (hv : v.Canonical) (hw : w.Canonical) (hlt : v.val < w.val) {X Y : ℚ}
    (hX : v.Rounds X) (hY : w.Rounds Y) (hXY : X + 1 / 100000 ≤ Y) :
    52 / 10000000 ≤ w.val - v.val := by
  have hs := add_le_of_lt hv hw hlt
  have hg := le_sub_of_lt hv hw hlt
  have hgw := half_le_gapBelow w
  have hgv := gapBelow_le v
  have hnear : 1 / 100000 - 2 ^ w.q / 2 - 2 ^ v.q / 2 ≤ w.val - v.val := by
    linarith [hX.1, hY.2.1]
  have hmono : ∀ a b : ℤ, a ≤ b → (2 : ℚ) ^ a ≤ 2 ^ b := fun a b h =>
    zpow_le_zpow_right₀ (by norm_num) h
  rcases le_or_gt (-16) w.q with hwq | hwq
  · -- the gap below the larger is at least `2 ^ -17`
    have h := hmono _ _ hwq
    norm_num at h
    linarith
  rcases le_or_gt (-17) v.q with hvq | hvq
  · -- the gap above the smaller is at least `2 ^ -17`
    have h := hmono _ _ hvq
    norm_num at h
    linarith
  rcases lt_or_ge w.q (-17) with hwq' | hwq'
  · -- both gaps are at most `2 ^ -18`
    have h₁ := hmono w.q (-18) (by omega)
    have h₂ := hmono v.q (-18) (by omega)
    norm_num at h₁ h₂
    linarith
  rcases lt_or_ge v.q (-18) with hvq' | hvq'
  · have h₁ := hmono w.q (-17) (by omega)
    have h₂ := hmono v.q (-19) (by omega)
    norm_num at h₁ h₂
    linarith
  · -- `w.q = -17` and `v.q = -18`: more than one gap of `v` apart, so two
    have hw17 : w.q = -17 := by omega
    have hv18 : v.q = -18 := by omega
    rw [hw17, hv18] at hnear
    norm_num at hnear
    have hmore : v.val + 2 ^ v.q < w.val := by
      rw [hv18]
      norm_num
      linarith
    have h := add_two_le_of_lt hv hw hmore
    rw [hv18] at h
    norm_num at h
    linarith

/-- Two doubles on the grid are equal or more than `5.2 * 10 ^ -6` apart. -/
theorem sep_of_onGrid (hv : v.Canonical) (hw : w.Canonical) (hgv : v.OnGrid) (hgw : w.OnGrid)
    (hne : v ≠ w) : 52 / 10000000 ≤ |v.val - w.val| := by
  wlog hlt : v.val < w.val generalizing v w
  · have hgt : w.val < v.val := lt_of_le_of_ne (not_lt.mp hlt) fun h => hne (eq_of_val_eq hv hw h.symm)
    rw [abs_sub_comm]
    exact this hw hv hgw hgv (Ne.symm hne) hgt
  obtain ⟨D, -, hD⟩ := hgv
  obtain ⟨E, -, hE⟩ := hgw
  have hle : (D : ℚ) / 10 ^ 5 ≤ E / 10 ^ 5 := le_of_rounds_of_lt hv hw hlt hD hE
  have hDE : D ≠ E := fun h => hne (eq_of_rounds hv hw hD (h ▸ hE))
  have hsucc : D + 1 ≤ E := by
    have : (D : ℚ) ≤ E := by linarith
    have : D ≤ E := by exact_mod_cast this
    omega
  have hsucc' : ((D + 1 : ℕ) : ℚ) ≤ E := by exact_mod_cast hsucc
  push_cast at hsucc'
  rw [abs_sub_comm, abs_of_pos (sub_pos.mpr hlt)]
  exact sep_of_rounds hv hw hlt hD hE (by linarith)

/-- A double on the grid is at least `10 ^ -5` less half a gap, so at least any double up to
`10 ^ -5`. -/
theorem le_of_onGrid (hu : u.Canonical) (hu' : u.val ≤ 1 / 100000) (hw : w.Canonical)
    (hg : w.OnGrid) : u.val ≤ w.val := by
  obtain ⟨D, hD, hR⟩ := hg
  refine le_of_le_rounds hu hw hR ?_
  have : (1 : ℚ) ≤ D := by exact_mod_cast hD
  linarith

end Canonical

end Finite

/-- The double is `+0.0` or a double on the grid of five places. -/
def OnGrid (x : Float) : Prop :=
  shape x = .zero false ∨ ∃ v, shape x = .finite false v ∧ v.OnGrid

variable {x y t : Float} {u : Finite}

/-- The difference of two doubles, of magnitude below the largest double each. -/
theorem abs_sub_lt_overflow {v w : Finite} (hv : v.Canonical) (hw : w.Canonical) :
    |v.val - w.val| < 2 ^ 1024 - 2 ^ 970 := by
  have := Finite.val_pos hv.pos
  have := Finite.val_pos hw.pos
  have hv' := hv.val_lt_overflow
  have hw' := hw.val_lt_overflow
  generalize (2 : ℚ) ^ 1024 - 2 ^ 970 = B at hv' hw' ⊢
  rw [abs_sub_lt_iff]
  constructor <;> linarith

/-- The difference of two different doubles on the grid is, in magnitude, a double at least
every double up to `5.2 * 10 ^ -6`: the exact difference is that far from zero, rounding does not
cross such a double, and the difference stays below the overflow threshold. -/
theorem exists_shape_abs_sub {v w : Finite} (hx : shape x = .finite false v) (hgv : v.OnGrid)
    (hy : shape y = .finite false w) (hgw : w.OnGrid) (hne : v ≠ w) :
    ∃ r, shape (x - y).abs = .finite false r ∧
      ∀ u : Finite, u.Canonical → u.val ≤ 52 / 10000000 → u.val ≤ r.val := by
  have hv := canonical_of_shape hx
  have hw := canonical_of_shape hy
  have hsep := hv.sep_of_onGrid hw hgv hgw hne
  have hR := roundsTo_sub hx hy fun h => hne (hv.eq_of_val_eq hw h)
  unfold RoundsTo at hR
  split at hR
  · -- the difference is far above the least subnormal
    have : (2 : ℚ) ^ (-1075 : ℤ) < 52 / 10000000 :=
      lt_of_le_of_lt (zpow_le_zpow_right₀ (by norm_num) (by norm_num : (-1075 : ℤ) ≤ -18))
        (by norm_num)
    linarith [hR.2]
  · rename_i r hr
    exact ⟨r, shape_abs_finite hr, fun u hu hu' =>
      hu.le_of_le_rounds (canonical_of_shape hr) hR.2 (by linarith)⟩
  · exact absurd hR.2 (not_le.mpr (abs_sub_lt_overflow hv hw))
  · exact hR.elim

/-- Against a threshold of at most `5.2 * 10 ^ -6`, the difference of two doubles on the grid is
below it exactly when they are the same double. -/
theorem abs_sub_lt_iff_shape_eq (ht : shape t = .finite false u) (hu : u.val ≤ 52 / 10000000)
    (hx : OnGrid x) (hy : OnGrid y) : (x - y).abs < t ↔ shape x = shape y := by
  have hcu := canonical_of_shape ht
  have hu' : u.val ≤ 1 / 100000 := by linarith
  rcases hx with hx | ⟨v, hx, hgv⟩ <;> rcases hy with hy | ⟨w, hy, hgw⟩
  · exact iff_of_true (zero_lt (shape_abs_zero (shape_sub_zeros hx hy)) ht) (hx.trans hy.symm)
  · have hle := hcu.le_of_onGrid hu' (canonical_of_shape hy) hgw
    rw [lt_iff_val_lt (shape_abs_finite (shape_sub_zero_left hx hy)) ht, hx, hy]
    simp [hle]
  · have hle := hcu.le_of_onGrid hu' (canonical_of_shape hx) hgv
    rw [lt_iff_val_lt (shape_abs_finite (shape_sub_zero_right hx hy)) ht, hx, hy]
    simp [hle]
  · by_cases hvw : v = w
    · subst hvw
      exact iff_of_true (zero_lt (shape_abs_zero (shape_sub_self hx hy)) ht) (hx.trans hy.symm)
    · obtain ⟨r, hr, hle⟩ := exists_shape_abs_sub hx hgv hy hgw hvw
      rw [hx, hy, lt_iff_val_lt hr ht]
      exact iff_of_false (not_lt.mpr (hle u hcu hu)) (by simpa using hvw)

end Binary64

end Polyform
