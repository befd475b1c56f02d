import Mathlib
import Polyform.Binary64.Shortest

/-!
# The values of doubles and of decimals

`Finite.val` is the rational `m * 2 ^ q` that a finite double stands for, and `Decimal.val` the
rational a decimal stands for. `Finite.Rounds v X` says that `X` lies in the rounding interval of
`v`: within half the gap to the double above and half the gap to the double below, the ends
included exactly when the significand is even. `readsBack_iff` says that the exact test in
natural numbers of `Finite.readsBack` decides this.

The significand and exponent read off the bits are canonical (`Finite.Canonical`). For canonical
doubles the value determines the double (`Canonical.eq_of_val_eq`), no other double lies within
a gap of one (`Canonical.gap`), and two rounding intervals never meet (`Canonical.eq_of_rounds`).
-/

namespace Polyform

namespace Decimal

/-- The rational a decimal stands for. -/
def val (d : Decimal) : ℚ :=
  d.coeff * 10 ^ d.exp

end Decimal

namespace Binary64

namespace Finite

/-- The rational `m * 2 ^ q`. -/
def val (v : Finite) : ℚ :=
  v.m * 2 ^ v.q

/-- The gap to the double below: half the gap above at the bottom of a binade. -/
def gapBelow (v : Finite) : ℚ :=
  if v.narrowBelow then 2 ^ (v.q - 1) else 2 ^ v.q

/-- `X` rounds to `v`: it lies within half a gap of `v` on either side, and at an end only when
the significand is even. -/
def Rounds (v : Finite) (X : ℚ) : Prop :=
  v.val - v.gapBelow / 2 ≤ X ∧ X ≤ v.val + 2 ^ v.q / 2 ∧
    (v.m % 2 = 1 → v.val - v.gapBelow / 2 < X ∧ X < v.val + 2 ^ v.q / 2)

/-- A finite positive double as its bits give it: a significand below `2 ^ 53` that has all
`53` bits except at the least exponent, an exponent from `-1074` to `971`, and a narrow gap below
exactly at the bottom of a binade above the least exponent. -/
structure Canonical (v : Finite) : Prop where
  pos : 0 < v.m
  lt : v.m < 2 ^ 53
  q_ge : -1074 ≤ v.q
  q_le : v.q ≤ 971
  normal : -1074 < v.q → 2 ^ 52 ≤ v.m
  narrow : v.narrowBelow = true ↔ v.m = 2 ^ 52 ∧ -1074 < v.q

theorem two_zpow_pos (z : ℤ) : (0 : ℚ) < 2 ^ z := zpow_pos (by norm_num) z

theorem val_pos {v : Finite} (h : 0 < v.m) : 0 < v.val := by
  unfold val
  have := two_zpow_pos v.q
  have : (0 : ℚ) < v.m := by exact_mod_cast h
  positivity

theorem gapBelow_pos (v : Finite) : 0 < v.gapBelow := by
  unfold gapBelow
  split <;> exact two_zpow_pos _

theorem gapBelow_le (v : Finite) : v.gapBelow ≤ 2 ^ v.q := by
  unfold gapBelow
  split
  · exact zpow_le_zpow_right₀ (by norm_num) (by omega)
  · exact le_rfl

theorem two_zpow_succ (z : ℤ) : (2 : ℚ) ^ z = 2 ^ (z - 1) * 2 := by
  rw [← zpow_add_one₀ (by norm_num), sub_add_cancel]

theorem half_le_gapBelow (v : Finite) : 2 ^ v.q / 2 ≤ v.gapBelow := by
  unfold gapBelow
  split
  · rw [two_zpow_succ v.q]
    simp
  · have := two_zpow_pos v.q
    linarith

/-- A value on the grid `2 ^ q` is a whole multiple of any finer grid. -/
theorem val_eq_mul_of_le {v : Finite} {q : ℤ} (h : q ≤ v.q) :
    v.val = ((v.m * 2 ^ (v.q - q).toNat : ℕ) : ℚ) * 2 ^ q := by
  unfold val
  push_cast
  rw [← zpow_natCast, Int.toNat_of_nonneg (by omega), mul_assoc, ← zpow_add₀ (by norm_num),
    sub_add_cancel]

/-! ## The exact test of `readsBack` -/

/-- A power with an integer exponent, as a quotient of two natural powers. -/
theorem zpow_eq_div_toNat (c : ℚ) (hc : c ≠ 0) (z : ℤ) :
    c ^ z = c ^ z.toNat / c ^ (-z).toNat := by
  conv_lhs => rw [← Int.toNat_sub_toNat_neg z]
  rw [zpow_sub₀ hc, zpow_natCast, zpow_natCast]

/-- The two factors of `gridScales` turn the decimal `⟨c, g⟩` into `c * 10 ^ g * 2 ^ (2 - q)`. -/
theorem gridScales_ratio (v : Finite) (c : ℕ) (g : ℤ) :
    ((c * (v.gridScales g).1 : ℕ) : ℚ) =
      (v.gridScales g).2 * ((c * 10 ^ g : ℚ) * 2 ^ (2 - v.q)) := by
  simp only [gridScales, Nat.pow_eq, Nat.cast_mul, Nat.cast_pow, Nat.cast_ofNat]
  rw [zpow_eq_div_toNat 10 (by norm_num) g, zpow_eq_div_toNat 2 (by norm_num) (2 - v.q),
    neg_sub]
  have h1 : (10 : ℚ) ^ (-g).toNat ≠ 0 := by positivity
  have h2 : (2 : ℚ) ^ (v.q - 2).toNat ≠ 0 := by positivity
  field_simp

/-- The lower end of the rounding interval, in units of `2 ^ (q - 2)`. -/
theorem lower_scaled (v : Finite) :
    (v.val - v.gapBelow / 2) * 2 ^ (2 - v.q) =
      if v.narrowBelow then 4 * (v.m : ℚ) - 1 else 4 * (v.m : ℚ) - 2 := by
  have hq : (2 : ℚ) ^ v.q * 2 ^ (2 - v.q) = 4 := by
    rw [← zpow_add₀ (by norm_num), add_sub_cancel]; norm_num
  have hq1 : (2 : ℚ) ^ (v.q - 1) * 2 ^ (2 - v.q) = 2 := by
    rw [← zpow_add₀ (by norm_num)]; norm_num
  unfold val gapBelow
  split
  · linear_combination (v.m : ℚ) * hq - hq1 / 2
  · linear_combination ((v.m : ℚ) - 1 / 2) * hq

/-- The upper end of the rounding interval, in units of `2 ^ (q - 2)`. -/
theorem upper_scaled (v : Finite) : (v.val + 2 ^ v.q / 2) * 2 ^ (2 - v.q) = 4 * v.m + 2 := by
  have hq : (2 : ℚ) ^ v.q * 2 ^ (2 - v.q) = 4 := by
    rw [← zpow_add₀ (by norm_num), add_sub_cancel]; norm_num
  unfold val
  linear_combination ((v.m : ℚ) + 1 / 2) * hq

/-- Comparing a natural multiple of `b` with `b * S` compares the multiplier with `S`. -/
theorem natCast_mul_le_iff {L x b : ℕ} {S : ℚ} (hb : 0 < b) (hx : (x : ℚ) = b * S) :
    L * b ≤ x ↔ (L : ℚ) ≤ S := by
  have hb' : (0 : ℚ) < b := by exact_mod_cast hb
  rw [← Nat.cast_le (α := ℚ), Nat.cast_mul, hx, mul_comm (L : ℚ), mul_le_mul_iff_right₀ hb']

theorem le_natCast_mul_iff {L x b : ℕ} {S : ℚ} (hb : 0 < b) (hx : (x : ℚ) = b * S) :
    x ≤ L * b ↔ S ≤ L := by
  have hb' : (0 : ℚ) < b := by exact_mod_cast hb
  rw [← Nat.cast_le (α := ℚ), Nat.cast_mul, hx, mul_comm (L : ℚ), mul_le_mul_iff_right₀ hb']

theorem natCast_mul_lt_iff {L x b : ℕ} {S : ℚ} (hb : 0 < b) (hx : (x : ℚ) = b * S) :
    L * b < x ↔ (L : ℚ) < S := by
  rw [← not_le, le_natCast_mul_iff hb hx, not_le]

theorem lt_natCast_mul_iff {L x b : ℕ} {S : ℚ} (hb : 0 < b) (hx : (x : ℚ) = b * S) :
    x < L * b ↔ S < L := by
  rw [← not_le, natCast_mul_le_iff hb hx, not_le]

/-- `readsBack` decides exactly whether the decimal rounds to the double. -/
theorem readsBack_iff {v : Finite} (hm : 0 < v.m) (d : Decimal) :
    v.readsBack d = true ↔ v.Rounds d.val := by
  have hb : 0 < (v.gridScales d.exp).2 := by simp only [gridScales, Nat.pow_eq]; positivity
  have hx := gridScales_ratio v d.coeff d.exp
  set S := d.val * 2 ^ (2 - v.q) with hS
  have hx' : ((d.coeff * (v.gridScales d.exp).1 : ℕ) : ℚ) = (v.gridScales d.exp).2 * S := by
    rw [hx, hS, Decimal.val]
  have hpos : (0 : ℚ) < 2 ^ (2 - v.q) := two_zpow_pos _
  have hcast : ((if v.narrowBelow then 4 * v.m - 1 else 4 * v.m - 2 : ℕ) : ℚ) =
      if v.narrowBelow then 4 * (v.m : ℚ) - 1 else 4 * (v.m : ℚ) - 2 := by
    split <;> push_cast [show 1 ≤ 4 * v.m by omega, show 2 ≤ 4 * v.m by omega] <;> ring
  have hcast' : ((4 * v.m + 2 : ℕ) : ℚ) = 4 * v.m + 2 := by push_cast; ring
  have hlo : (v.val - v.gapBelow / 2 ≤ d.val ↔
      (if v.narrowBelow then 4 * (v.m : ℚ) - 1 else 4 * (v.m : ℚ) - 2) ≤ S) := by
    rw [← lower_scaled, hS, mul_le_mul_iff_left₀ hpos]
  have hlo' : (v.val - v.gapBelow / 2 < d.val ↔
      (if v.narrowBelow then 4 * (v.m : ℚ) - 1 else 4 * (v.m : ℚ) - 2) < S) := by
    rw [← lower_scaled, hS, mul_lt_mul_iff_left₀ hpos]
  have hhi : (d.val ≤ v.val + 2 ^ v.q / 2 ↔ S ≤ 4 * v.m + 2) := by
    rw [← upper_scaled, hS, mul_le_mul_iff_left₀ hpos]
  have hhi' : (d.val < v.val + 2 ^ v.q / 2 ↔ S < 4 * v.m + 2) := by
    rw [← upper_scaled, hS, mul_lt_mul_iff_left₀ hpos]
  unfold readsBack inInterval Rounds
  rcases Nat.mod_two_eq_zero_or_one v.m with h | h
  · simp only [h, if_true, Bool.and_eq_true, decide_eq_true_eq, natCast_mul_le_iff hb hx',
      le_natCast_mul_iff hb hx', hcast, hcast', hlo, hhi, zero_ne_one, false_implies, and_true]
  · simp only [h, one_ne_zero, if_false, Bool.and_eq_true, decide_eq_true_eq,
      natCast_mul_lt_iff hb hx', lt_natCast_mul_iff hb hx', hcast, hcast', hlo, hhi, hlo', hhi',
      forall_const]
    constructor
    · rintro ⟨h1, h2⟩; exact ⟨h1.le, h2.le, h1, h2⟩
    · rintro ⟨-, -, h1, h2⟩; exact ⟨h1, h2⟩

/-- A double rounds its own value. -/
theorem rounds_val (v : Finite) : v.Rounds v.val := by
  have := gapBelow_pos v
  have := two_zpow_pos v.q
  exact ⟨by linarith, by linarith, fun _ => ⟨by linarith, by linarith⟩⟩

/-! ## Canonical doubles -/

namespace Canonical

variable {v w : Finite}

/-- Below a canonical double on a coarser grid, every double is at most the last one of the
binade below. -/
theorem val_le_of_q_lt (hw : w.Canonical) (hq : w.q < v.q) :
    w.val ≤ (2 ^ 53 - 1) * 2 ^ (v.q - 1) := by
  have hm : (w.m : ℚ) + 1 ≤ 2 ^ 53 := by exact_mod_cast hw.lt
  have hp : (2 : ℚ) ^ w.q ≤ 2 ^ (v.q - 1) := zpow_le_zpow_right₀ (by norm_num) (by omega)
  unfold val
  have := two_zpow_pos w.q
  calc (w.m : ℚ) * 2 ^ w.q ≤ (2 ^ 53 - 1) * 2 ^ w.q := by gcongr; linarith
    _ ≤ (2 ^ 53 - 1) * 2 ^ (v.q - 1) := by gcongr

/-- A canonical double on a coarser grid is the larger: its significand is full. -/
theorem val_lt_of_q_lt (hv : v.Canonical) (hw : w.Canonical) (hlt : w.q < v.q) :
    w.val < v.val := by
  have h1 := val_le_of_q_lt hw hlt
  have hm : (2 : ℚ) ^ 52 ≤ v.m := by exact_mod_cast hv.normal (by have := hw.q_ge; omega)
  have h2 : (2 : ℚ) ^ 52 * 2 ^ v.q ≤ v.val := by
    unfold val; have := two_zpow_pos v.q; gcongr
  have h3 : (2 : ℚ) ^ v.q = 2 ^ (v.q - 1) * 2 := two_zpow_succ v.q
  have := two_zpow_pos (v.q - 1)
  nlinarith

/-- Canonical doubles of one value are equal. -/
theorem eq_of_val_eq (hv : v.Canonical) (hw : w.Canonical) (h : v.val = w.val) : v = w := by
  have hq : v.q = w.q := by
    by_contra hne
    rcases lt_or_gt_of_ne hne with hlt | hgt
    · exact absurd h (val_lt_of_q_lt hw hv hlt).ne
    · exact absurd h (val_lt_of_q_lt hv hw hgt).ne'
  have hm : v.m = w.m := by
    unfold val at h
    rw [hq] at h
    exact_mod_cast mul_right_cancel₀ (two_zpow_pos w.q).ne' h
  have hn : v.narrowBelow = w.narrowBelow := by
    rw [Bool.eq_iff_iff, hv.narrow, hw.narrow, hm, hq]
  cases v; cases w
  simp_all

/-- No other canonical double lies within a gap of a canonical double. -/
theorem gap (hv : v.Canonical) (hw : w.Canonical) (hne : w.val ≠ v.val) :
    w.val ≤ v.val - v.gapBelow ∨ v.val + 2 ^ v.q ≤ w.val := by
  have hp := two_zpow_pos v.q
  rcases lt_or_ge w.q v.q with hlt | hle
  · -- on a finer grid: at most the last double of the binade below
    left
    have h1 := val_le_of_q_lt hw hlt
    have hm : 2 ^ 52 ≤ v.m := hv.normal (by have := hw.q_ge; omega)
    have h2 := two_zpow_succ v.q
    have := two_zpow_pos (v.q - 1)
    unfold gapBelow val
    split
    · rename_i hn
      rw [(hv.narrow.mp hn).1]
      unfold val at h1
      push_cast
      nlinarith
    · rename_i hn
      have hm' : (2 : ℚ) ^ 52 + 1 ≤ v.m := by
        have : v.m ≠ 2 ^ 52 := fun h => hn (hv.narrow.mpr ⟨h, by have := hw.q_ge; omega⟩)
        exact_mod_cast (show 2 ^ 52 + 1 ≤ v.m by omega)
      unfold val at h1
      nlinarith
  · -- on the same grid or a coarser one: a whole number of gaps away
    rw [val_eq_mul_of_le hle] at hne ⊢
    generalize w.m * 2 ^ (w.q - v.q).toNat = n at hne ⊢
    unfold val at hne ⊢
    have hn : n ≠ v.m := fun h => hne (by rw [h])
    have hgap := gapBelow_le v
    rcases lt_or_gt_of_ne hn with hlt | hgt
    · left
      have : (n : ℚ) + 1 ≤ v.m := by exact_mod_cast hlt
      nlinarith
    · right
      have : (v.m : ℚ) + 1 ≤ n := by exact_mod_cast hgt
      nlinarith

/-- A double one gap above a canonical double has the other parity. -/
theorem parity_of_succ (hv : v.Canonical) (hw : w.Canonical) (h : w.val = v.val + 2 ^ v.q) :
    w.m % 2 ≠ v.m % 2 := by
  have hp := two_zpow_pos v.q
  rcases lt_trichotomy w.q v.q with hlt | heq | hgt
  · have h1 := val_le_of_q_lt hw hlt
    have hm : (2 : ℚ) ^ 52 ≤ v.m := by exact_mod_cast hv.normal (by have := hw.q_ge; omega)
    have h2 := two_zpow_succ v.q
    have h3 : (2 : ℚ) ^ 52 * 2 ^ v.q ≤ v.m * 2 ^ v.q := by gcongr
    unfold val at h h1
    linarith
  · unfold val at h
    rw [heq] at h
    have : (w.m : ℚ) = v.m + 1 :=
      mul_right_cancel₀ hp.ne' (h.trans (by ring) : (w.m : ℚ) * 2 ^ v.q = (v.m + 1) * 2 ^ v.q)
    have : w.m = v.m + 1 := by exact_mod_cast this
    omega
  · -- `w` on a coarser grid: then `v` is the last double of its binade and `w` the first above
    have hwm : (2 : ℚ) ^ 52 ≤ w.m := by exact_mod_cast hw.normal (by have := hv.q_ge; omega)
    have hvm : (v.m : ℚ) + 1 ≤ 2 ^ 53 := by exact_mod_cast hv.lt
    have hpw : (2 : ℚ) ^ w.q = 2 ^ (w.q - v.q).toNat * 2 ^ v.q := by
      rw [← zpow_natCast, ← zpow_add₀ (by norm_num), Int.toNat_of_nonneg (by omega),
        sub_add_cancel]
    have hk : (2 : ℚ) ^ (w.q - v.q).toNat ≥ 2 := by
      calc (2 : ℚ) ^ (w.q - v.q).toNat ≥ 2 ^ 1 :=
            pow_le_pow_right₀ (by norm_num) (by omega)
        _ = 2 := by norm_num
    unfold val at h
    rw [hpw] at h
    have hvw : (w.m : ℚ) * 2 ^ (w.q - v.q).toNat = v.m + 1 :=
      mul_right_cancel₀ hp.ne' (by rw [mul_assoc, h]; ring)
    have h1 : (w.m : ℚ) * 2 ^ (w.q - v.q).toNat ≥ 2 ^ 52 * 2 := by gcongr
    have h2 : (w.m : ℚ) = 2 ^ 52 ∧ (2 : ℚ) ^ (w.q - v.q).toNat = 2 := by
      constructor <;> nlinarith
    have : v.m + 1 = 2 ^ 53 := by
      have : (v.m : ℚ) + 1 = 2 ^ 53 := by rw [← hvw, h2.1, h2.2]; norm_num
      exact_mod_cast this
    have : w.m = 2 ^ 52 := by exact_mod_cast h2.1
    omega

/-- A larger canonical double is at least a gap above. -/
theorem add_le_of_lt (hv : v.Canonical) (hw : w.Canonical) (hlt : v.val < w.val) :
    v.val + 2 ^ v.q ≤ w.val := by
  rcases gap hv hw hlt.ne' with h | h
  · have := gapBelow_pos v; linarith
  · exact h

/-- A smaller canonical double is at least the gap below the larger one away. -/
theorem le_sub_of_lt (hv : v.Canonical) (hw : w.Canonical) (hlt : v.val < w.val) :
    v.val ≤ w.val - w.gapBelow := by
  rcases gap hw hv hlt.ne with h | h
  · exact h
  · have := two_zpow_pos w.q; linarith

/-- A canonical double more than one gap above another is at least two gaps above it. -/
theorem add_two_le_of_lt (hv : v.Canonical) (hw : w.Canonical) (h : v.val + 2 ^ v.q < w.val) :
    v.val + 2 * 2 ^ v.q ≤ w.val := by
  have hs := two_zpow_pos v.q
  have hq : v.q ≤ w.q := le_of_not_gt fun hlt => by
    have := val_lt_of_q_lt hv hw hlt
    linarith
  rw [val_eq_mul_of_le hq] at h ⊢
  generalize w.m * 2 ^ (w.q - v.q).toNat = N at h ⊢
  unfold val at h ⊢
  -- on the grid `2 ^ v.q`, more than one step up is at least two
  have h1 : ((v.m + 1 : ℕ) : ℚ) < N := by
    push_cast
    exact lt_of_mul_lt_mul_right (by linarith) hs.le
  have h2 : ((v.m + 2 : ℕ) : ℚ) ≤ N := by exact_mod_cast (show v.m + 2 ≤ N by exact_mod_cast h1)
  push_cast at h2
  nlinarith

/-- The rounding interval of a canonical double lies below that of any larger one, meeting it at
most at an end that one of the two leaves out. -/
theorem not_rounds_of_lt (hv : v.Canonical) (hw : w.Canonical) (hlt : v.val < w.val) {X : ℚ}
    (hX : v.Rounds X) (hY : w.Rounds X) : False := by
  have hup := add_le_of_lt hv hw hlt
  have hdown := le_sub_of_lt hv hw hlt
  obtain ⟨-, hX2, hX3⟩ := hX
  obtain ⟨hY1, -, hY3⟩ := hY
  -- the two ends meet only if `w` is one gap above `v`, and then they are shared
  have hsucc : w.val = v.val + 2 ^ v.q := by linarith
  have hXv : X = v.val + 2 ^ v.q / 2 := by linarith
  have hXw : X = w.val - w.gapBelow / 2 := by linarith
  have hv2 : v.m % 2 = 0 := by
    rcases Nat.mod_two_eq_zero_or_one v.m with h | h
    · exact h
    · exact absurd hXv (hX3 h).2.ne
  have hw2 : w.m % 2 = 0 := by
    rcases Nat.mod_two_eq_zero_or_one w.m with h | h
    · exact h
    · exact absurd hXw (hY3 h).1.ne'
  exact parity_of_succ hv hw hsucc (by omega)

/-- A rational rounds to at most one canonical double. -/
theorem eq_of_rounds (hv : v.Canonical) (hw : w.Canonical) {X : ℚ} (hX : v.Rounds X)
    (hY : w.Rounds X) : v = w := by
  rcases lt_trichotomy v.val w.val with hlt | heq | hgt
  · exact (not_rounds_of_lt hv hw hlt hX hY).elim
  · exact eq_of_val_eq hv hw heq
  · exact (not_rounds_of_lt hw hv hgt hY hX).elim

/-- Rounding never crosses a double: what rounds to `v` and lies above `u` puts `v` above `u`. -/
theorem le_of_le_rounds {u : Finite} (hu : u.Canonical) (hv : v.Canonical) {X : ℚ}
    (hX : v.Rounds X) (h : u.val ≤ X) : u.val ≤ v.val := by
  refine le_of_not_gt fun hlt => ?_
  have := add_le_of_lt hv hu hlt
  have := two_zpow_pos v.q
  linarith [hX.2.1]

end Canonical

end Finite

end Binary64

end Polyform
