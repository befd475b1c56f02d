import Polyform.Proofs.Binary64.Arithmetic

/-!
# Converting numbers to doubles

A natural number below `2 ^ 53` converts to a double exactly (`shape_toFloat`), and every decimal
converts to the double nearest to it, or to an infinity from the overflow threshold on
(`roundsTo_toFloat`, `isInf_toFloat_iff`). `Float.ofScientific` takes one of two paths: with a
coefficient below `2 ^ 53` and at most `22` as the power of ten, it multiplies or divides the
converted coefficient by a table entry that holds the power of ten exactly; otherwise the
unpacked model multiplies or divides exactly and rounds once. Either way the result rounds the
exact value to nearest.
-/

namespace Polyform

namespace Binary64

open Float.Model UnpackedFloat

namespace Finite.Canonical

variable {u : Finite}

theorem two_zpow_le_val (hu : u.Canonical) : (2 : ℚ) ^ (-1074 : ℤ) ≤ u.val := by
  have hm : (1 : ℚ) ≤ u.m := by exact_mod_cast hu.pos
  have hq : (2 : ℚ) ^ (-1074 : ℤ) ≤ 2 ^ u.q := zpow_le_zpow_right₀ (by norm_num) hu.q_ge
  unfold val
  nlinarith [two_zpow_pos u.q]

theorem val_le_max (hu : u.Canonical) : u.val ≤ (2 ^ 53 - 1) * 2 ^ (971 : ℤ) := by
  have hm : (u.m : ℚ) ≤ 2 ^ 53 - 1 := by
    have : u.m + 1 ≤ 2 ^ 53 := hu.lt
    have : ((u.m + 1 : ℕ) : ℚ) ≤ 2 ^ 53 := by exact_mod_cast this
    push_cast at this; linarith
  have hq : (2 : ℚ) ^ u.q ≤ 2 ^ (971 : ℤ) := zpow_le_zpow_right₀ (by norm_num) hu.q_le
  unfold val
  exact mul_le_mul hm hq (two_zpow_pos u.q).le (by norm_num)

/-- Every double lies below the threshold from which magnitudes overflow. -/
theorem val_lt_overflow (hu : u.Canonical) : u.val < 2 ^ 1024 - 2 ^ 970 := by
  rw [overflow_eq]
  calc u.val ≤ (2 ^ 53 - 1) * 2 ^ (971 : ℤ) := hu.val_le_max
    _ < (2 ^ 53 - 1 / 2) * 2 ^ (971 : ℤ) := by gcongr; norm_num

/-- Whatever rounds to a double lies below the overflow threshold: the largest double has an odd
significand, so the upper end of its interval rounds away. -/
theorem lt_overflow_of_rounds {X : ℚ} (hu : u.Canonical) (h : u.Rounds X) :
    X < 2 ^ 1024 - 2 ^ 970 := by
  obtain ⟨-, hle, hodd⟩ := h
  have hP := two_zpow_pos u.q
  have hq : (2 : ℚ) ^ u.q ≤ 2 ^ (971 : ℤ) := zpow_le_zpow_right₀ (by norm_num) hu.q_le
  have hend : u.val + 2 ^ u.q / 2 = (u.m + 1 / 2) * 2 ^ u.q := by
    unfold val
    ring
  have hlt := hu.lt
  rcases Nat.even_or_odd u.m with ⟨r, hr⟩ | hm
  · -- an even significand stops two short of `2 ^ 53`
    have hm : (u.m : ℚ) + 1 / 2 ≤ 2 ^ 53 - 3 / 2 := by
      have : u.m + 2 ≤ 2 ^ 53 := by omega
      have : ((u.m + 2 : ℕ) : ℚ) ≤ 2 ^ 53 := by exact_mod_cast this
      push_cast at this
      linarith
    calc X ≤ (u.m + 1 / 2) * 2 ^ u.q := hend ▸ hle
      _ ≤ (2 ^ 53 - 3 / 2) * 2 ^ (971 : ℤ) := mul_le_mul hm hq hP.le (by norm_num)
      _ < (2 ^ 53 - 1 / 2) * 2 ^ (971 : ℤ) := by gcongr; norm_num
      _ = 2 ^ 1024 - 2 ^ 970 := overflow_eq.symm
  · have hm' : (u.m : ℚ) + 1 / 2 ≤ 2 ^ 53 - 1 / 2 := by
      have : ((u.m + 1 : ℕ) : ℚ) ≤ 2 ^ 53 := by exact_mod_cast hlt
      push_cast at this
      linarith
    calc X < (u.m + 1 / 2) * 2 ^ u.q := hend ▸ (hodd (Nat.odd_iff.mp hm)).2
      _ ≤ (2 ^ 53 - 1 / 2) * 2 ^ (971 : ℤ) := mul_le_mul hm' hq hP.le (by norm_num)
      _ = 2 ^ 1024 - 2 ^ 970 := overflow_eq.symm

end Finite.Canonical

theorem two_pow_53_lt_overflow : (2 : ℚ) ^ 53 < 2 ^ 1024 - 2 ^ 970 := by
  have h : (2 : ℚ) ^ 1024 = 2 ^ 970 * 2 ^ 54 := by rw [← pow_add]
  have h53 : (2 : ℚ) ^ 53 ≤ 2 ^ 970 := pow_le_pow_right₀ (by norm_num) (by norm_num)
  rw [h]
  generalize (2 : ℚ) ^ 970 = P at h53 ⊢
  norm_num
  nlinarith

variable {x : Float}

/-- A double is what its own value rounds to. -/
theorem shape_of_roundsTo_val {u : Finite} (hu : u.Canonical) (h : RoundsTo u.val false x) :
    shape x = .finite false u := by
  unfold RoundsTo at h
  split at h
  · -- a double is at least the least subnormal, above half of it
    have := hu.two_zpow_le_val
    have h2 : (2 : ℚ) ^ (-1075 : ℤ) < 2 ^ (-1074 : ℤ) := zpow_lt_zpow_right₀ (by norm_num) (by norm_num)
    linarith [h.2]
  · rename_i b v hx
    obtain ⟨rfl, hv⟩ := h
    rw [hx, Finite.Canonical.eq_of_rounds (canonical_of_shape hx) hu hv (Finite.rounds_val u)]
  · -- and below the overflow threshold
    exact absurd h.2 (not_le.mpr hu.val_lt_overflow)
  · exact h.elim

/-- A natural number below `2 ^ 53` is the value of a canonical double: its significand shifted
up to `53` bits. -/
theorem exists_canonical_of_lt {c : ℕ} (hc : 0 < c) (hc' : c < 2 ^ 53) :
    ∃ u : Finite, u.Canonical ∧ u.val = c := by
  have hlog : c.log2 < 53 := (Nat.log2_lt hc.ne').mpr hc'
  have hm : (c <<< (52 - c.log2)).log2 = 52 := by rw [log2_shiftLeft hc]; omega
  have hpos : 0 < c <<< (52 - c.log2) := by rw [Nat.shiftLeft_eq]; positivity
  have hbounds := (Nat.log2_eq_iff hpos.ne').mp hm
  refine ⟨⟨c <<< (52 - c.log2), (c.log2 : ℤ) - 52,
    c <<< (52 - c.log2) == 2 ^ 52 && decide (-1074 < (c.log2 : ℤ) - 52)⟩,
    ⟨hpos, hbounds.2, by dsimp only; omega, by dsimp only; omega, fun _ => hbounds.1, by simp⟩,
    ?_⟩
  have := aligned_val c (show (c.log2 : ℤ) - 52 ≤ 0 by omega)
  rw [show ((0 : ℤ) - (c.log2 - 52)).toNat = 52 - c.log2 by omega] at this
  simpa [Finite.val] using this

theorem toFloat_eq (n : UInt64) :
    n.toFloat = .ofModel (Float.Model.pack (UnpackedFloat.normalize .binary64 (n.toNat : ℤ) 0
      .positive)) :=
  rfl

/-- A natural number below `2 ^ 53` converts exactly. -/
theorem shape_toFloat {c : ℕ} (hc : 0 < c) (hc' : c < 2 ^ 53) :
    ∃ u : Finite, u.Canonical ∧ u.val = c ∧ shape c.toUInt64.toFloat = .finite false u := by
  obtain ⟨u, hu, hval⟩ := exists_canonical_of_lt hc hc'
  refine ⟨u, hu, hval, shape_of_roundsTo_val hu ?_⟩
  have hn : c.toUInt64.toNat = c := by
    rw [Nat.toUInt64_eq, UInt64.toNat_ofNat', Nat.mod_eq_of_lt (by omega)]
  have h := roundsTo_normalize (z := (c : ℤ)) (by omega) 0 .positive
  rw [Int.natAbs_natCast, zpow_zero, mul_one, ← hval, decide_eq_false (by omega)] at h
  rwa [toFloat_eq, hn]

/-! ## Decimals -/

/-- The fast path's table holds `10 ^ k` exactly, for every `k ≤ 22`. -/
theorem exists_shape_powerOfTen {k : ℕ} (hk : k < Float.exactlyRepresentablePowersOfTen.size) :
    ∃ v : Finite, shape Float.exactlyRepresentablePowersOfTen[k] = .finite false v ∧
      v.val = 10 ^ k := by
  have hall : ∀ k (hk : k < Float.exactlyRepresentablePowersOfTen.size),
      (match shape Float.exactlyRepresentablePowersOfTen[k] with
      | .finite b v => !b && decide (v.m * 2 ^ v.q.toNat = 10 ^ k * 2 ^ (-v.q).toNat)
      | .zero _ => false
      | .nan => false
      | .infinite _ => false) = true := by decide
  have h := hall k hk
  split at h
  · rename_i b v hv
    simp only [Bool.and_eq_true, Bool.not_eq_eq_eq_not, Bool.not_true] at h
    obtain ⟨rfl, h⟩ := h
    refine ⟨v, hv, ?_⟩
    have hnat : ((v.m * 2 ^ v.q.toNat : ℕ) : ℚ) = ((10 ^ k * 2 ^ (-v.q).toNat : ℕ) : ℚ) := by
      exact_mod_cast of_decide_eq_true h
    push_cast at hnat
    rw [Finite.val, Finite.zpow_eq_div_toNat 2 two_ne_zero, ← mul_div_assoc, hnat]
    field_simp
  all_goals simp at h

/-- Zero rounds to a positive zero. -/
theorem roundsTo_zero (hx : shape x = .zero false) : RoundsTo 0 false x := by
  unfold RoundsTo
  rw [hx]
  exact ⟨rfl, by positivity⟩

/-- The fast path: a coefficient below `2 ^ 53` converts exactly and is multiplied or divided by
the table entry for `10 ^ k`. -/
theorem roundsTo_fast {m k : ℕ} (hm : m < 2 ^ 53)
    (hk : k < Float.exactlyRepresentablePowersOfTen.size) (s : Bool) :
    RoundsTo (if s then m / 10 ^ k else m * 10 ^ k) false
      (if s then m.toUInt64.toFloat / Float.exactlyRepresentablePowersOfTen[k]
      else m.toUInt64.toFloat * Float.exactlyRepresentablePowersOfTen[k]) := by
  obtain ⟨w, hw, hwval⟩ := exists_shape_powerOfTen hk
  rcases Nat.eq_zero_or_pos m with rfl | hpos
  · have h0 : shape (0 : ℕ).toUInt64.toFloat = .zero false := by decide
    cases s
    · simpa using roundsTo_zero (shape_mul_zero_left h0 hw)
    · simpa using roundsTo_zero (shape_div_zero_left h0 hw)
  · obtain ⟨u, -, huval, hu⟩ := shape_toFloat hpos hm
    cases s
    · simpa [huval, hwval] using roundsTo_mul hu hw
    · simpa [huval, hwval] using roundsTo_fdiv hu hw

/-- A nonzero coefficient times `10 ^ e`, for `e` from `1024` on, is past the overflow threshold. -/
theorem overflow_le_of_exponent {m : ℕ} {e : ℤ} (hm : m ≠ 0) (he : 1024 ≤ e) :
    2 ^ 1024 - 2 ^ 970 ≤ (m : ℚ) * 10 ^ e := by
  have hm : (1 : ℚ) ≤ m := by exact_mod_cast Nat.one_le_iff_ne_zero.mpr hm
  have h1 : (10 : ℚ) ^ (1024 : ℕ) ≤ 10 ^ e := by
    rw [← zpow_natCast]; exact zpow_le_zpow_right₀ (by norm_num) he
  have h2 : (2 : ℚ) ^ 1024 ≤ 10 ^ 1024 := pow_le_pow_left₀ (by norm_num) (by norm_num) 1024
  have h3 : (0 : ℚ) ≤ 2 ^ 970 := by positivity
  calc (2 : ℚ) ^ 1024 - 2 ^ 970 ≤ 2 ^ 1024 := sub_le_self _ h3
    _ ≤ 1 * 10 ^ e := by rw [one_mul]; exact h2.trans h1
    _ ≤ m * 10 ^ e := by gcongr

/-- A coefficient times `10 ^ e`, for `e` below `-(2048 + log2 m)`, is at most half the least
subnormal: the power of ten is below `2 ^ -(2049 + log2 m)`, and the coefficient below
`2 ^ (log2 m + 1)`. -/
theorem le_half_least_of_exponent {m : ℕ} {e : ℤ} (he : e < -(2048 + (m.log2 : ℤ))) :
    (m : ℚ) * 10 ^ e ≤ 2 ^ (-1075 : ℤ) := by
  have hm : (m : ℚ) ≤ 2 ^ ((m.log2 : ℤ) + 1) := by
    rw [zpow_add_one₀ two_ne_zero, zpow_natCast, ← pow_succ]
    exact_mod_cast Nat.lt_log2_self.le
  have he : (10 : ℚ) ^ e ≤ 2 ^ (-((2049 + m.log2 : ℕ) : ℤ)) := by
    calc (10 : ℚ) ^ e ≤ 10 ^ (-((2049 + m.log2 : ℕ) : ℤ)) :=
          zpow_le_zpow_right₀ (by norm_num) (by push_cast; omega)
      _ ≤ 2 ^ (-((2049 + m.log2 : ℕ) : ℤ)) := by
        rw [zpow_neg, zpow_neg, zpow_natCast, zpow_natCast]
        exact inv_anti₀ (by positivity) (pow_le_pow_left₀ (by norm_num) (by norm_num) _)
  calc (m : ℚ) * 10 ^ e ≤ 2 ^ ((m.log2 : ℤ) + 1) * 2 ^ (-((2049 + m.log2 : ℕ) : ℤ)) :=
        mul_le_mul hm he (by positivity) (by positivity)
    _ = 2 ^ (-2048 : ℤ) := by rw [← zpow_add₀ two_ne_zero]; congr 1; push_cast; ring
    _ ≤ 2 ^ (-1075 : ℤ) := zpow_le_zpow_right₀ (by norm_num) (by norm_num)

/-- The slow path goes through the unpacked model, and rounds to nearest too. -/
theorem roundsTo_ofScientific (m : ℕ) (e : ℤ) :
    RoundsTo (m * 10 ^ e) false (.ofModel (Float.Model.ofScientific m e)) := by
  unfold Float.Model.ofScientific UnpackedFloat.ofScientific
  have hbits : (2 : ℤ) ^ Format.binary64.exponentBits = 2048 := rfl
  split_ifs with h0 hbig hsmall hpos
  · subst h0
    simpa using roundsTo_zero (shape_pack_zero .positive)
  · -- beyond every double: an infinity
    have hinf : shape (.ofModel (Float.Model.pack (.infinity .positive))) = .infinite false := by
      decide
    unfold RoundsTo
    rw [hinf]
    exact ⟨rfl, overflow_le_of_exponent h0 (by omega)⟩
  · -- below every double: a zero
    have hz := roundsTo_zero (shape_pack_zero .positive)
    unfold RoundsTo at hz ⊢
    rw [hbits] at hsmall
    exact ⟨hz.1, le_half_least_of_exponent hsmall⟩
  · -- a non-negative exponent: the coefficient, widened by 53 bits, times 10 ^ e exactly
    obtain ⟨k, rfl⟩ := Int.eq_ofNat_of_zero_le hpos
    simp only [UnpackedFloat.mul]
    refine roundsTo_roundWithAccuracy (X := (m : ℚ) * 10 ^ (k : ℤ)) .positive ?_ ?_
    · simp only [Accurate, show Format.binary64.mantissaBits = 53 from rfl, Int.toNat_natCast,
        Nat.shiftLeft_eq, zpow_natCast]
      push_cast
      field_simp
      norm_num
    · -- the widened coefficient has at least 53 bits
      have hM : 2 ^ 53 ≤ m <<< 53 * 10 ^ k := by
        rw [Nat.shiftLeft_eq]
        nlinarith [Nat.one_le_iff_ne_zero.mpr h0, Nat.one_le_pow k 10 (by norm_num)]
      have hlog : 53 ≤ (m <<< 53 * 10 ^ k).log2 := (Nat.le_log2 (by omega)).mpr hM
      rw [targetExponent_binary64]
      simp only [show Format.binary64.mantissaBits = 53 from rfl, Int.toNat_natCast, totalExponent]
      omega
  · -- a negative exponent: the coefficient divided by 10 ^ -e
    obtain ⟨k, rfl⟩ : ∃ k : ℕ, e = -k := ⟨(-e).toNat, by omega⟩
    have h := @roundsTo_div m (10 ^ (-(-k : ℤ)).toNat) 0 0 .positive .positive
      (Nat.pos_of_ne_zero h0) (by positivity)
    have hval : (m : ℚ) * 2 ^ (0 : ℤ) / (((10 ^ (-(-k : ℤ)).toNat : ℕ) : ℚ) * 2 ^ (0 : ℤ)) =
        m * 10 ^ (-k : ℤ) := by
      rw [neg_neg, Int.toNat_natCast, zpow_zero, mul_one, mul_one, Nat.cast_pow, zpow_neg,
        zpow_natCast, div_eq_mul_inv]
      norm_num
    rw [hval] at h
    exact h

/-- Either path of the conversion rounds to nearest. -/
theorem roundsTo_float_ofScientific (m : ℕ) (s : Bool) (k : ℕ) :
    RoundsTo (m * 10 ^ (if s then -(k : ℤ) else k)) false (Float.ofScientific m s k) := by
  unfold Float.ofScientific
  by_cases h : m < 2 ^ 53 ∧ k ≤ 22
  · rw [dif_pos h]
    have := @roundsTo_fast m k h.1 (by simp [Float.exactlyRepresentablePowersOfTen]; omega) s
    cases s <;> simpa [zpow_neg, div_eq_mul_inv] using this
  · rw [dif_neg h]
    cases s
    · simpa using roundsTo_ofScientific m k
    · simpa [Int.negOfNat_eq] using roundsTo_ofScientific m (-k)

/-- Every decimal converts to the double nearest to it, or to infinity beyond the largest. -/
theorem roundsTo_toFloat (d : Decimal) : RoundsTo d.val false d.toFloat := by
  unfold Decimal.toFloat Decimal.val
  split_ifs with h
  · have := roundsTo_float_ofScientific d.coeff true (-d.exp).toNat
    rwa [Int.toNat_of_nonneg (by omega), if_pos rfl, neg_neg] at this
  · have := roundsTo_float_ofScientific d.coeff false d.exp.toNat
    rwa [Int.toNat_of_nonneg (by omega), if_neg Bool.false_ne_true] at this

/-- A decimal converts to an infinity exactly from the overflow threshold on. -/
theorem isInf_toFloat_iff (d : Decimal) :
    d.toFloat.isInf = true ↔ 2 ^ 1024 - 2 ^ 970 ≤ d.val := by
  have h := roundsTo_toFloat d
  unfold RoundsTo at h
  rw [isInf_iff]
  rcases hs : shape d.toFloat with _ | b | b | ⟨b, v⟩ <;> rw [hs] at h
  · exact h.elim
  · exact ⟨fun _ => h.2, fun _ => ⟨b, rfl⟩⟩
  · -- a zero lies far below the threshold
    have h1 : (2 : ℚ) ^ (-1075 : ℤ) ≤ 1 := zpow_le_one_of_nonpos₀ (by norm_num) (by norm_num)
    have h2 : (1 : ℚ) ≤ 2 ^ 53 := one_le_pow₀ (by norm_num)
    obtain ⟨-, h⟩ := h
    simp only [reduceCtorEq, exists_false, false_iff, not_le]
    exact h.trans_lt (h1.trans_lt (h2.trans_lt two_pow_53_lt_overflow))
  · simp only [reduceCtorEq, exists_false, false_iff, not_le]
    exact (canonical_of_shape hs).lt_overflow_of_rounds h.2

end Binary64

end Polyform
