import Polyform.Proofs.Binary64.Rounding

/-!
# Arithmetic on doubles

The operations of `Float` that the grid of five places uses, each stated through `RoundsTo`: a
quotient rounds to nearest (`roundsTo_div`, and `roundsTo_fdiv` for two doubles), and so do a
difference, a sum and a product (`roundsTo_sub`, `roundsTo_add`, `roundsTo_mul`); a natural
number below `2 ^ 53` converts exactly (`unpack_toFloat`). The absolute value and the comparisons
read the magnitude of canonical doubles (`shape_abs`, `lt_iff_val_lt`).

Division is `divCore` followed by `roundWithAccuracy`: the dividend is shifted left until the
integer quotient has `53` bits or the least exponent is reached, and the remainder sets the
accuracy. Subtraction and addition align both significands to the smaller exponent, combine them
exactly, and round through `normalize`; multiplication rounds the exact product of the
significands.
-/

namespace Polyform

namespace Binary64

open Float.Model UnpackedFloat

/-! ## Values of significands -/

theorem log2_shiftLeft {m : ℕ} (hm : 0 < m) (k : ℕ) : (m <<< k).log2 = m.log2 + k := by
  rw [Nat.log2_eq_iff (by rw [Nat.shiftLeft_eq]; positivity), Nat.shiftLeft_eq]
  have h1 := Nat.log2_self_le hm.ne'
  have h2 := Nat.lt_log2_self (n := m)
  constructor
  · rw [pow_add]; exact Nat.mul_le_mul_right _ h1
  · calc m * 2 ^ k < 2 ^ (m.log2 + 1) * 2 ^ k := Nat.mul_lt_mul_of_pos_right h2 (by positivity)
      _ = 2 ^ (m.log2 + k + 1) := by rw [← pow_add]; ring_nf

theorem val_lt_two_zpow (m : ℕ) (e : ℤ) : (m : ℚ) * 2 ^ e < 2 ^ totalExponent m e := by
  have hm : (m : ℚ) < 2 ^ (m.log2 + 1) := by exact_mod_cast Nat.lt_log2_self
  calc (m : ℚ) * 2 ^ e < 2 ^ (m.log2 + 1) * 2 ^ e :=
        mul_lt_mul_of_pos_right hm (Finite.two_zpow_pos e)
    _ = 2 ^ totalExponent m e := by
      rw [← zpow_natCast, ← zpow_add₀ two_ne_zero, totalExponent]; push_cast; ring_nf

theorem two_zpow_le_val {m : ℕ} (hm : 0 < m) (e : ℤ) :
    (2 : ℚ) ^ (totalExponent m e - 1) ≤ m * 2 ^ e := by
  have hm' : (2 : ℚ) ^ m.log2 ≤ m := by exact_mod_cast Nat.log2_self_le hm.ne'
  calc (2 : ℚ) ^ (totalExponent m e - 1) = 2 ^ m.log2 * 2 ^ e := by
        rw [← zpow_natCast, ← zpow_add₀ two_ne_zero, totalExponent]; ring_nf
    _ ≤ m * 2 ^ e := mul_le_mul_of_nonneg_right hm' (Finite.two_zpow_pos e).le

/-! ## Division -/

/-- The integer quotient with the accuracy that `accuracyOfFraction` reads off the remainder
places the exact quotient. -/
theorem accurate_accuracyOfFraction (N : ℕ) {d : ℕ} (hd : 0 < d) :
    Accurate (N / d) (accuracyOfFraction (N % d) d) ((N : ℚ) / d) := by
  have hd' : (0 : ℚ) < d := by exact_mod_cast hd
  have hN : (N : ℚ) / d = (N / d : ℕ) + (N % d : ℕ) / d := by
    have : (N : ℚ) = d * (N / d : ℕ) + (N % d : ℕ) := by exact_mod_cast (Nat.div_add_mod N d).symm
    rw [this]
    field_simp
  have hr : (N % d : ℕ) < (d : ℚ) := by exact_mod_cast Nat.mod_lt N hd
  rw [hN]
  unfold accuracyOfFraction
  split
  · rename_i h0; simp [Accurate, h0]
  · rename_i h0
    have hr0 : (0 : ℚ) < (N % d : ℕ) := by exact_mod_cast Nat.pos_of_ne_zero h0
    rcases h : compare (2 * (N % d)) d with _ | _ | _ <;>
      simp only [Nat.compare_eq_lt, Nat.compare_eq_eq, Nat.compare_eq_gt] at h <;>
      simp only [Accurate]
    · have : 2 * ((N % d : ℕ) : ℚ) < d := by exact_mod_cast h
      constructor
      · linarith [div_pos hr0 hd']
      · rw [add_lt_add_iff_left, div_lt_iff₀ hd']; linarith
    · have : 2 * ((N % d : ℕ) : ℚ) = d := by exact_mod_cast h
      rw [add_right_inj, div_eq_iff hd'.ne']; linarith
    · have : (d : ℚ) < 2 * ((N % d : ℕ) : ℚ) := by exact_mod_cast h
      constructor
      · rw [add_lt_add_iff_left, lt_div_iff₀ hd']; linarith
      · rw [add_lt_add_iff_left, div_lt_one hd']; exact hr

variable {m₁ m₂ : ℕ} {e₁ e₂ : ℤ}

/-- The exact quotient of two finite values, counted in units of `2 ^ t` for a `t` at least `53`
below the difference of their total exponents, is at least `2 ^ 52`: it exceeds
`2 ^ (T₁ - T₂ - 1)`. -/
theorem two_pow_52_le_div (h₁ : 0 < m₁) (h₂ : 0 < m₂) {t : ℤ}
    (ht : t ≤ totalExponent m₁ e₁ - totalExponent m₂ e₂ - 53) :
    (2 : ℚ) ^ 52 ≤ m₁ * 2 ^ e₁ / (m₂ * 2 ^ e₂) / 2 ^ t := by
  have hlo := two_zpow_le_val h₁ e₁
  have hhi := val_lt_two_zpow m₂ e₂
  have hpt := Finite.two_zpow_pos t
  have hm₂ : (0 : ℚ) < m₂ * 2 ^ e₂ := mul_pos (by exact_mod_cast h₂) (Finite.two_zpow_pos e₂)
  have h52 : (2 : ℚ) ^ 52 * 2 ^ t * 2 ^ totalExponent m₂ e₂ ≤ 2 ^ (totalExponent m₁ e₁ - 1) := by
    rw [← zpow_natCast, ← zpow_add₀ two_ne_zero, ← zpow_add₀ two_ne_zero]
    exact zpow_le_zpow_right₀ (by norm_num) (by push_cast; omega)
  rw [le_div_iff₀ hpt, le_div_iff₀ hm₂]
  calc (2 : ℚ) ^ 52 * 2 ^ t * (m₂ * 2 ^ e₂)
      ≤ 2 ^ 52 * 2 ^ t * 2 ^ totalExponent m₂ e₂ := by gcongr
    _ ≤ 2 ^ (totalExponent m₁ e₁ - 1) := h52
    _ ≤ m₁ * 2 ^ e₁ := hlo

/-- The quotient of two finite floats rounds to nearest. -/
theorem roundsTo_div (s₁ s₂ : Sign) (h₁ : 0 < m₁) (h₂ : 0 < m₂) :
    RoundsTo (m₁ * 2 ^ e₁ / (m₂ * 2 ^ e₂)) (s₁ / s₂ == .negative)
      (.ofModel (Float.Model.pack
        (UnpackedFloat.div .binary64 (.finite s₁ m₁ e₁ h₁) (.finite s₂ m₂ e₂ h₂)))) := by
  simp only [UnpackedFloat.div, divCore]
  set t := min (e₁ - e₂) (Format.binary64.targetExponent
    (totalExponent m₁ e₁ - totalExponent m₂ e₂)) with ht
  have htmax := targetExponent_binary64 (totalExponent m₁ e₁ - totalExponent m₂ e₂)
  set k := (e₁ - e₂ - t).toNat with hk
  have hN : ((m₁ <<< k : ℕ) : ℚ) / m₂ = m₁ * 2 ^ e₁ / (m₂ * 2 ^ e₂) / 2 ^ t := by
    rw [Nat.shiftLeft_eq, Nat.cast_mul, Nat.cast_pow, Nat.cast_ofNat, ← zpow_natCast, hk,
      Int.toNat_of_nonneg (by omega)]
    have := Finite.two_zpow_pos e₂
    have := Finite.two_zpow_pos t
    rw [zpow_sub₀ two_ne_zero, zpow_sub₀ two_ne_zero]
    field_simp
  have hacc := accurate_accuracyOfFraction (m₁ <<< k) h₂
  rw [hN] at hacc
  refine roundsTo_roundWithAccuracy _ hacc ?_
  -- either the least exponent is reached, or the quotient has all `53` bits
  rw [targetExponent_binary64]
  by_cases hlow : t ≤ -1074
  · omega
  · have ht' : t ≤ totalExponent m₁ e₁ - totalExponent m₂ e₂ - 53 := by omega
    have hq : 2 ^ 52 ≤ (m₁ <<< k) / m₂ := by
      -- the exact quotient has all `53` bits in units of `2 ^ t`, and so has its floor
      have key := (le_div_iff₀ (by exact_mod_cast h₂ : (0 : ℚ) < m₂)).mp
        ((two_pow_52_le_div h₁ h₂ ht').trans_eq hN.symm)
      rw [Nat.le_div_iff_mul_le h₂]
      exact_mod_cast key
    have hlog : 52 ≤ ((m₁ <<< k) / m₂).log2 :=
      (Nat.le_log2 (by positivity)).mpr hq
    unfold totalExponent
    omega

/-! ## Rounding an exact value -/

/-- `round` first lowers the exponent to the target, which keeps the value and the target. -/
theorem roundsTo_round (s : Sign) {M : ℕ} (hM : 0 < M) (E : ℤ) :
    RoundsTo (M * 2 ^ E) (s == .negative)
      (.ofModel (Float.Model.pack (UnpackedFloat.round .binary64 s M E))) := by
  unfold UnpackedFloat.round
  simp only [decreaseExponent]
  set T := Format.binary64.targetExponent (totalExponent M E) with hT
  set k := (E - T).toNat with hk
  apply roundsTo_roundWithAccuracy
  · simp only [Accurate]
    rw [Nat.shiftLeft_eq, zpow_sub₀ two_ne_zero, zpow_natCast]
    have := Finite.two_zpow_pos E
    push_cast
    field_simp
  · have htot : totalExponent (M <<< k) (E - k) = totalExponent M E := by
      unfold totalExponent; rw [log2_shiftLeft hM]; push_cast; ring
    rw [htot, ← hT]
    omega

theorem normalize_zero (E : ℤ) (zs : Sign) : UnpackedFloat.normalize .binary64 0 E zs = .zero zs :=
  rfl

/-- `normalize` rounds a nonzero integer significand, with the sign of the integer. -/
theorem roundsTo_normalize {z : ℤ} (hz : z ≠ 0) (E : ℤ) (zs : Sign) :
    RoundsTo (z.natAbs * 2 ^ E) (decide (z < 0))
      (.ofModel (Float.Model.pack (UnpackedFloat.normalize .binary64 z E zs))) := by
  unfold UnpackedFloat.normalize
  rcases lt_or_gt_of_ne hz with hneg | hpos
  · rw [Int.compare_eq_lt.mpr hneg, show z.natAbs = (-z).toNat by omega, decide_eq_true hneg]
    exact roundsTo_round .negative (by omega) E
  · rw [Int.compare_eq_gt.mpr hpos, show z.natAbs = z.toNat by omega,
      decide_eq_false (by omega)]
    exact roundsTo_round .positive (by omega) E

/-! ## Canonical doubles pack back to themselves -/

/-- A canonical double packs back to itself, with either sign. -/
theorem shape_pack_canonical {v : Finite} (hv : v.Canonical) (s : Sign) :
    shape (.ofModel (Float.Model.pack (.finite s v.m v.q hv.pos))) = .finite (s == .negative) v := by
  rw [shape_pack_finite s hv.pos hv.lt hv.q_ge hv.q_le hv.normal]
  congr
  rw [Bool.eq_iff_iff, hv.narrow]
  simp

/-! ## Subtraction -/

variable {x y : Float} {v w : Finite}

/-- A significand shifted left to a lower exponent keeps its value. -/
theorem aligned_val (m : ℕ) {q e : ℤ} (h : q ≤ e) :
    ((m <<< (e - q).toNat : ℕ) : ℚ) * 2 ^ q = m * 2 ^ e := by
  rw [Nat.shiftLeft_eq, Nat.cast_mul, Nat.cast_pow, Nat.cast_ofNat, ← zpow_natCast, mul_assoc,
    ← zpow_add₀ two_ne_zero, Int.toNat_of_nonneg (by omega), sub_add_cancel]

/-- The exact difference that `sub` rounds: both significands aligned to the smaller exponent. -/
theorem sub_finite (hx : shape x = .finite false v) (hy : shape y = .finite false w) :
    x - y = .ofModel (Float.Model.pack (UnpackedFloat.normalize .binary64
      ((v.m <<< (v.q - min v.q w.q).toNat : ℕ) - (w.m <<< (w.q - min v.q w.q).toNat : ℕ) : ℤ)
      (min v.q w.q) .positive)) := by
  show Float.ofModel (Float.Model.pack (UnpackedFloat.sub .binary64 x.toModel.unpack
    y.toModel.unpack)) = _
  rw [unpack_of_shape_finite hx, unpack_of_shape_finite hy]
  rfl

/-- The difference of two positive doubles rounds to nearest, negative when `v < w`. -/
theorem roundsTo_sub (hx : shape x = .finite false v) (hy : shape y = .finite false w)
    (hne : v.val ≠ w.val) : RoundsTo |v.val - w.val| (decide (v.val < w.val)) (x - y) := by
  rw [sub_finite hx hy]
  set z : ℤ := ((v.m <<< (v.q - min v.q w.q).toNat : ℕ) : ℤ) - (w.m <<< (w.q - min v.q w.q).toNat : ℕ)
  have hz : (z : ℚ) * 2 ^ min v.q w.q = v.val - w.val := by
    simp only [z, Int.cast_sub, Int.cast_natCast, sub_mul, aligned_val _ (min_le_left v.q w.q),
      aligned_val _ (min_le_right v.q w.q), Finite.val]
  have hp := Finite.two_zpow_pos (min v.q w.q)
  have hz0 : z ≠ 0 := by rintro h0; rw [h0] at hz; simp at hz; exact hne (by linarith)
  have hsign : z < 0 ↔ v.val < w.val := by
    rw [show v.val < w.val ↔ v.val - w.val < 0 from sub_neg.symm, ← hz]
    constructor
    · intro h; exact mul_neg_of_neg_of_pos (by exact_mod_cast h) hp
    · intro h
      by_contra h'
      exact absurd h (not_lt.mpr (mul_nonneg (by exact_mod_cast not_lt.mp h') hp.le))
  have h := roundsTo_normalize hz0 (min v.q w.q) .positive
  rwa [show ((z.natAbs : ℕ) : ℚ) * 2 ^ min v.q w.q = |v.val - w.val| by
      rw [Nat.cast_natAbs, Int.cast_abs, ← hz, abs_mul, abs_of_pos hp],
    show decide (z < 0) = decide (v.val < w.val) from decide_eq_decide.mpr hsign] at h

/-- A double minus itself is positive zero. -/
theorem shape_sub_self (hx : shape x = .finite false v) (hy : shape y = .finite false v) :
    shape (x - y) = .zero false := by
  rw [sub_finite hx hy, sub_self, normalize_zero, shape_pack_zero]
  rfl

theorem shape_sub_zero_left {b : Bool} (hx : shape x = .zero b) (hy : shape y = .finite false w) :
    shape (x - y) = .finite true w := by
  show shape (.ofModel (Float.Model.pack (UnpackedFloat.sub .binary64 x.toModel.unpack
    y.toModel.unpack))) = _
  rw [unpack_of_shape_zero hx, unpack_of_shape_finite hy]
  exact shape_pack_canonical (canonical_of_shape hy) .negative

theorem shape_sub_zero_right {b : Bool} (hx : shape x = .finite false v) (hy : shape y = .zero b) :
    shape (x - y) = .finite false v := by
  show shape (.ofModel (Float.Model.pack (UnpackedFloat.sub .binary64 x.toModel.unpack
    y.toModel.unpack))) = _
  rw [unpack_of_shape_finite hx, unpack_of_shape_zero hy]
  exact shape_pack_canonical (canonical_of_shape hx) .positive

theorem shape_sub_zeros (hx : shape x = .zero false) (hy : shape y = .zero false) :
    shape (x - y) = .zero false := by
  show shape (.ofModel (Float.Model.pack (UnpackedFloat.sub .binary64 x.toModel.unpack
    y.toModel.unpack))) = _
  rw [unpack_of_shape_zero hx, unpack_of_shape_zero hy]
  exact shape_pack_zero .positive

/-! ## Addition, multiplication and division -/

/-- The exact sum that `add` rounds: both significands aligned to the smaller exponent. -/
theorem add_finite (hx : shape x = .finite false v) (hy : shape y = .finite false w) :
    x + y = .ofModel (Float.Model.pack (UnpackedFloat.normalize .binary64
      ((v.m <<< (v.q - min v.q w.q).toNat : ℕ) + (w.m <<< (w.q - min v.q w.q).toNat : ℕ) : ℤ)
      (min v.q w.q) .positive)) := by
  show Float.ofModel (Float.Model.pack (UnpackedFloat.add .binary64 x.toModel.unpack
    y.toModel.unpack)) = _
  rw [unpack_of_shape_finite hx, unpack_of_shape_finite hy]
  rfl

/-- The sum of two positive doubles rounds to nearest. -/
theorem roundsTo_add (hx : shape x = .finite false v) (hy : shape y = .finite false w) :
    RoundsTo (v.val + w.val) false (x + y) := by
  rw [add_finite hx hy]
  set z : ℤ := ((v.m <<< (v.q - min v.q w.q).toNat : ℕ) : ℤ) + (w.m <<< (w.q - min v.q w.q).toNat : ℕ)
  have hz : (z : ℚ) * 2 ^ min v.q w.q = v.val + w.val := by
    simp only [z, Int.cast_add, Int.cast_natCast, add_mul, aligned_val _ (min_le_left v.q w.q),
      aligned_val _ (min_le_right v.q w.q), Finite.val]
  have hz0 : 0 < z := by
    have := (canonical_of_shape hx).pos
    simp only [z, Nat.shiftLeft_eq]
    positivity
  have h := roundsTo_normalize hz0.ne' (min v.q w.q) .positive
  rwa [Nat.cast_natAbs, Int.cast_abs, abs_of_pos (by exact_mod_cast hz0), hz,
    decide_eq_false (not_lt.mpr hz0.le)] at h

theorem shape_add_zero_left {b : Bool} (hx : shape x = .zero b) (hy : shape y = .finite false w) :
    shape (x + y) = .finite false w := by
  show shape (.ofModel (Float.Model.pack (UnpackedFloat.add .binary64 x.toModel.unpack
    y.toModel.unpack))) = _
  rw [unpack_of_shape_zero hx, unpack_of_shape_finite hy]
  exact shape_pack_canonical (canonical_of_shape hy) .positive

theorem shape_add_zero_right {b : Bool} (hx : shape x = .finite false v) (hy : shape y = .zero b) :
    shape (x + y) = .finite false v := by
  show shape (.ofModel (Float.Model.pack (UnpackedFloat.add .binary64 x.toModel.unpack
    y.toModel.unpack))) = _
  rw [unpack_of_shape_finite hx, unpack_of_shape_zero hy]
  exact shape_pack_canonical (canonical_of_shape hx) .positive

theorem shape_add_zeros (hx : shape x = .zero false) (hy : shape y = .zero false) :
    shape (x + y) = .zero false := by
  show shape (.ofModel (Float.Model.pack (UnpackedFloat.add .binary64 x.toModel.unpack
    y.toModel.unpack))) = _
  rw [unpack_of_shape_zero hx, unpack_of_shape_zero hy]
  exact shape_pack_zero .positive

/-- The exact product that `mul` rounds: significands and exponents multiplied and added. -/
theorem mul_finite (hx : shape x = .finite false v) (hy : shape y = .finite false w) :
    x * y = .ofModel (Float.Model.pack
      (roundWithAccuracy .binary64 .positive (v.m * w.m) (v.q + w.q) .exact)) := by
  show Float.ofModel (Float.Model.pack (UnpackedFloat.mul .binary64 x.toModel.unpack
    y.toModel.unpack)) = _
  rw [unpack_of_shape_finite hx, unpack_of_shape_finite hy]
  rfl

/-- The product of two positive doubles rounds to nearest. -/
theorem roundsTo_mul (hx : shape x = .finite false v) (hy : shape y = .finite false w) :
    RoundsTo (v.val * w.val) false (x * y) := by
  rw [mul_finite hx hy]
  have hv := canonical_of_shape hx
  have hw := canonical_of_shape hy
  refine roundsTo_roundWithAccuracy .positive ?_ ?_
  · simp only [Accurate, Finite.val, Nat.cast_mul]
    have := Finite.two_zpow_pos v.q
    have := Finite.two_zpow_pos w.q
    field_simp
    rw [zpow_add₀ two_ne_zero]
    ring
  · -- the exact product has at least `53` bits, unless both factors are subnormal
    rw [targetExponent_binary64]
    unfold totalExponent
    by_cases h : 2 ^ 52 ≤ v.m * w.m
    · have : 52 ≤ (v.m * w.m).log2 := (Nat.le_log2 (by positivity)).mpr h
      omega
    · have hvq : v.q = -1074 := by
        by_contra hne
        have := hv.normal (by have := hv.q_ge; omega)
        exact h (this.trans (Nat.le_mul_of_pos_right _ hw.pos))
      have hwq : w.q = -1074 := by
        by_contra hne
        have := hw.normal (by have := hw.q_ge; omega)
        exact h (this.trans (Nat.le_mul_of_pos_left _ hv.pos))
      omega

theorem shape_mul_zero_left (hx : shape x = .zero false) (hy : shape y = .finite false w) :
    shape (x * y) = .zero false := by
  show shape (.ofModel (Float.Model.pack (UnpackedFloat.mul .binary64 x.toModel.unpack
    y.toModel.unpack))) = _
  rw [unpack_of_shape_zero hx, unpack_of_shape_finite hy]
  exact shape_pack_zero _

theorem shape_mul_zero_right (hx : shape x = .finite false v) (hy : shape y = .zero false) :
    shape (x * y) = .zero false := by
  show shape (.ofModel (Float.Model.pack (UnpackedFloat.mul .binary64 x.toModel.unpack
    y.toModel.unpack))) = _
  rw [unpack_of_shape_finite hx, unpack_of_shape_zero hy]
  exact shape_pack_zero _

theorem shape_mul_zeros (hx : shape x = .zero false) (hy : shape y = .zero false) :
    shape (x * y) = .zero false := by
  show shape (.ofModel (Float.Model.pack (UnpackedFloat.mul .binary64 x.toModel.unpack
    y.toModel.unpack))) = _
  rw [unpack_of_shape_zero hx, unpack_of_shape_zero hy]
  exact shape_pack_zero _

/-- The quotient of two positive doubles rounds to nearest. -/
theorem roundsTo_fdiv (hx : shape x = .finite false v) (hy : shape y = .finite false w) :
    RoundsTo (v.val / w.val) false (x / y) := by
  show RoundsTo _ _ (.ofModel (Float.Model.pack (UnpackedFloat.div .binary64 x.toModel.unpack
    y.toModel.unpack)))
  rw [unpack_of_shape_finite hx, unpack_of_shape_finite hy]
  exact roundsTo_div (signOf false) (signOf false) _ _

theorem shape_div_zero_left (hx : shape x = .zero false) (hy : shape y = .finite false w) :
    shape (x / y) = .zero false := by
  show shape (.ofModel (Float.Model.pack (UnpackedFloat.div .binary64 x.toModel.unpack
    y.toModel.unpack))) = _
  rw [unpack_of_shape_zero hx, unpack_of_shape_finite hy]
  exact shape_pack_zero _

/-- A double is infinite exactly when its shape is. -/
theorem isInf_iff : x.isInf = true ↔ ∃ b, shape x = .infinite b := by
  rw [shape_eq_shapeOf]
  show x.toModel.unpack.isInf = true ↔ _
  cases x.toModel.unpack <;> simp [UnpackedFloat.isInf, shapeOf]

/-! ## Absolute value and comparison -/

theorem shape_abs_finite {b : Bool} (hx : shape x = .finite b v) : shape x.abs = .finite false v := by
  show shape (.ofModel (Float.Model.pack x.toModel.unpack.abs)) = _
  rw [unpack_of_shape_finite hx]
  exact shape_pack_canonical (canonical_of_shape hx) .positive

theorem shape_abs_zero {b : Bool} (hx : shape x = .zero b) : shape x.abs = .zero false := by
  show shape (.ofModel (Float.Model.pack x.toModel.unpack.abs)) = _
  rw [unpack_of_shape_zero hx]
  exact shape_pack_zero .positive

theorem lt_iff_compare : x < y ↔ x.toModel.unpack.compare y.toModel.unpack = some .lt := by
  show decide (x.toModel.unpack.lt y.toModel.unpack = true) = true ↔ _
  simp [UnpackedFloat.lt]

theorem beq_iff_compare : (x == y) = true ↔ x.toModel.unpack.compare y.toModel.unpack = some .eq := by
  show x.toModel.unpack.beq y.toModel.unpack = true ↔ _
  simp [UnpackedFloat.beq]

/-- On canonical doubles, comparing exponents first and significands second compares values. -/
theorem compare_canonical (hv : v.Canonical) (hw : w.Canonical) :
    (compare v.q w.q).then (compare v.m w.m) = compare v.val w.val := by
  rcases lt_trichotomy v.q w.q with hlt | heq | hgt
  · rw [Int.compare_eq_lt.mpr hlt, compare_lt_iff_lt.mpr (Finite.Canonical.val_lt_of_q_lt hw hv hlt)]
    rfl
  · have hval : ∀ a b : ℕ, compare (a * (2 : ℚ) ^ v.q) (b * 2 ^ v.q) = compare a b := by
      intro a b
      have := Finite.two_zpow_pos v.q
      rcases lt_trichotomy a b with h | rfl | h
      · rw [compare_lt_iff_lt.mpr h, compare_lt_iff_lt.mpr (by gcongr)]
      · simp
      · rw [compare_gt_iff_gt.mpr h, compare_gt_iff_gt.mpr (by gcongr)]
    rw [heq, compare_eq_iff_eq.mpr rfl]
    show compare v.m w.m = compare (v.m * (2 : ℚ) ^ v.q) (w.m * 2 ^ w.q)
    rw [← heq, hval]
  · rw [Int.compare_eq_gt.mpr hgt, compare_gt_iff_gt.mpr (Finite.Canonical.val_lt_of_q_lt hv hw hgt)]
    rfl

theorem lt_iff_val_lt (hx : shape x = .finite false v) (hy : shape y = .finite false w) :
    x < y ↔ v.val < w.val := by
  rw [lt_iff_compare, unpack_of_shape_finite hx, unpack_of_shape_finite hy]
  show some ((compare v.q w.q).then (compare v.m w.m)) = some .lt ↔ _
  rw [compare_canonical (canonical_of_shape hx) (canonical_of_shape hy), Option.some.injEq,
    compare_lt_iff_lt]

theorem zero_lt {b : Bool} (hx : shape x = .zero b) (hy : shape y = .finite false w) : x < y := by
  rw [lt_iff_compare, unpack_of_shape_zero hx, unpack_of_shape_finite hy]
  rfl

theorem beq_iff_val_eq (hx : shape x = .finite false v) (hy : shape y = .finite false w) :
    (x == y) = true ↔ v.val = w.val := by
  rw [beq_iff_compare, unpack_of_shape_finite hx, unpack_of_shape_finite hy]
  show some ((compare v.q w.q).then (compare v.m w.m)) = some .eq ↔ _
  rw [compare_canonical (canonical_of_shape hx) (canonical_of_shape hy), Option.some.injEq,
    compare_eq_iff_eq]

theorem beq_zero {b c : Bool} (hx : shape x = .zero b) (hy : shape y = .zero c) : (x == y) = true := by
  rw [beq_iff_compare, unpack_of_shape_zero hx, unpack_of_shape_zero hy]
  rfl

theorem beq_finite_zero {c : Bool} (hx : shape x = .finite false v) (hy : shape y = .zero c) :
    (x == y) = false := by
  rw [← Bool.not_eq_true, beq_iff_compare, unpack_of_shape_finite hx, unpack_of_shape_zero hy]
  cases c <;> simp [signOf, UnpackedFloat.compare]

theorem beq_zero_finite {b : Bool} (hx : shape x = .zero b) (hy : shape y = .finite false w) :
    (x == y) = false := by
  rw [← Bool.not_eq_true, beq_iff_compare, unpack_of_shape_zero hx, unpack_of_shape_finite hy]
  cases b <;> simp [signOf, UnpackedFloat.compare]

end Binary64

end Polyform
