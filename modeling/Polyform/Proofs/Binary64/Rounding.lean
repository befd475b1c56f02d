import Polyform.Proofs.Binary64.Unpack

/-!
# Rounding to a double

Every operation of `Float` ends in `roundWithAccuracy`: a significand `M` at exponent `E`, with an
`Accuracy` that tells where the exact result lies between `M` and `M + 1` units of `2 ^ E`, is
shifted to the exponent of a `53`-bit significand, rounded to nearest with ties to even, and
packed. `Accurate M acc x` states what the accuracy promises about `x`, the exact result in units
of `2 ^ E`; shifting right keeps the promise (`Accurate.shiftRight`), and rounding the mantissa
lands within half a unit (`Accurate.rounded`).

`RoundsTo X negative x` says that the double `x` is what the magnitude `X` rounds to, with the
given sign: zero when `X` is at most half the least subnormal, the finite double whose rounding
interval holds `X`, or an infinity when `X` reaches halfway beyond the largest double.
`roundsTo_roundWithAccuracy` proves this of `roundWithAccuracy` whenever its input exponent is
not above the one it rounds to.
-/

namespace Polyform

namespace Binary64

open Float.Model UnpackedFloat

/-- Where an accuracy places `x`, measured in units of the last bit of the mantissa `m`. -/
def Accurate (m : ℕ) : Accuracy → ℚ → Prop
  | .exact, x => x = m
  | .inexact .lt, x => m < x ∧ x < m + 1 / 2
  | .inexact .eq, x => x = m + 1 / 2
  | .inexact .gt, x => m + 1 / 2 < x ∧ x < m + 1

@[simp] theorem mantissa_ofMantissaAndAccuracy (m : ℕ) (acc : Accuracy) :
    (ExtendedMantissa.ofMantissaAndAccuracy m acc).mantissa = m := by
  rcases acc with _ | _ | _ | _ <;> rfl

@[simp] theorem accuracy_ofMantissaAndAccuracy (m : ℕ) (acc : Accuracy) :
    (ExtendedMantissa.ofMantissaAndAccuracy m acc).accuracy = acc := by
  rcases acc with _ | _ | _ | _ <;> rfl

namespace Accurate

variable {m : ℕ} {acc : Accuracy} {x : ℚ}

theorem bounds (h : Accurate m acc x) : (m : ℚ) ≤ x ∧ x < m + 1 := by
  rcases acc with _ | _ | _ | _ <;> simp only [Accurate] at h <;> constructor <;> linarith

/-- Dropping the last bit halves the position and keeps what the bits say about it. -/
theorem shiftRightOne {em : ExtendedMantissa}
    (h : Accurate em.mantissa em.accuracy x) :
    Accurate em.shiftRightOne.mantissa em.shiftRightOne.accuracy (x / 2) := by
  obtain ⟨m, r, s⟩ := em
  have hm : ((m / 2 : ℕ) : ℚ) * 2 + (m % 2 : ℕ) = m := by exact_mod_cast Nat.div_add_mod' m 2
  rcases Nat.mod_two_eq_zero_or_one m with hr | hr <;> rw [hr] at hm <;>
    cases r <;> cases s <;>
    simp_all [Accurate, ExtendedMantissa.accuracy, ExtendedMantissa.shiftRightOne] <;>
    (try constructor) <;> linarith

theorem shiftRight {em : ExtendedMantissa} (h : Accurate em.mantissa em.accuracy x) (n : ℕ) :
    Accurate (em >>> n).mantissa (em >>> n).accuracy (x / 2 ^ n) := by
  change Accurate (n.repeat ExtendedMantissa.shiftRightOne em).mantissa
    (n.repeat ExtendedMantissa.shiftRightOne em).accuracy _
  induction n with
  | zero => simpa [Nat.repeat] using h
  | succ n ih =>
    rw [Nat.repeat, pow_succ, ← div_div]
    exact ih.shiftRightOne

/-- The mantissa rounded to nearest, ties to even, is within half a unit of `x`, and strictly
so when it is odd. -/
theorem rounded (h : Accurate m acc x) :
    (acc.roundToNearestEven m : ℚ) - 1 / 2 ≤ x ∧ x ≤ acc.roundToNearestEven m + 1 / 2 ∧
      (acc.roundToNearestEven m % 2 = 1 →
        (acc.roundToNearestEven m : ℚ) - 1 / 2 < x ∧ x < acc.roundToNearestEven m + 1 / 2) := by
  rcases acc with _ | _ | _ | _ <;> simp only [Accurate] at h
  · simp only [Accuracy.roundToNearestEven, h]
    refine ⟨by linarith, by linarith, fun _ => ⟨by linarith, by linarith⟩⟩
  · simp only [Accuracy.roundToNearestEven]
    refine ⟨by linarith, by linarith, fun _ => ⟨by linarith, by linarith⟩⟩
  · -- a tie: the even neighbour is kept
    simp only [Accuracy.roundToNearestEven, h]
    rcases Nat.mod_two_eq_zero_or_one m with hr | hr
    · simp only [hr, add_zero]
      refine ⟨by linarith, by linarith, fun h' => by omega⟩
    · simp only [hr]
      refine ⟨by push_cast; linarith, by push_cast; linarith, fun h' => by omega⟩
  · simp only [Accuracy.roundToNearestEven]
    push_cast
    refine ⟨by linarith, by linarith, fun _ => ⟨by linarith, by linarith⟩⟩

theorem le_rounded (acc : Accuracy) (m : ℕ) : m ≤ acc.roundToNearestEven m := by
  rcases acc with _ | _ | _ | _ <;> simp [Accuracy.roundToNearestEven]

theorem rounded_le (acc : Accuracy) (m : ℕ) : acc.roundToNearestEven m ≤ m + 1 := by
  rcases acc with _ | _ | _ | _ <;> simp only [Accuracy.roundToNearestEven] <;> omega

end Accurate

/-! ## The shifts -/

theorem targetExponent_binary64 (t : ℤ) :
    Format.binary64.targetExponent t = max (t - 53) (-1074) := by
  simp [Format.targetExponent, Format.mantissaBits, Format.minExponent]

/-- The first shift moves the exponent up to the target. -/
theorem shiftToTargetExponent_eq {M : ℕ} {E : ℤ} (acc : Accuracy)
    (hE : E ≤ Format.binary64.targetExponent (totalExponent M E)) :
    shiftToTargetExponent .binary64 M E acc =
      (ExtendedMantissa.ofMantissaAndAccuracy M acc >>>
          (Format.binary64.targetExponent (totalExponent M E) - E).toNat,
        Format.binary64.targetExponent (totalExponent M E)) := by
  simp only [shiftToTargetExponent, shiftToExponent, Prod.mk.injEq, true_and]
  omega

/-- A mantissa of at most `53` bits at an exponent no lower than the least one is not shifted
again. -/
theorem shiftToTargetExponent_of_lt {R : ℕ} {T : ℤ} (hR : R < 2 ^ 53) (hT : -1074 ≤ T) :
    shiftToTargetExponent .binary64 R T .exact = (⟨R, false, false⟩, T) := by
  have hlog : totalExponent R T - 53 ≤ T := by
    unfold totalExponent
    have : R.log2 < 53 := by
      rcases Nat.eq_zero_or_pos R with rfl | hpos
      · simp
      · exact (Nat.log2_lt hpos.ne').mpr hR
    omega
  simp only [shiftToTargetExponent, shiftToExponent, targetExponent_binary64,
    show (max (totalExponent R T - 53) (-1074) - T).toNat = 0 by omega, Nat.cast_zero, add_zero]
  rfl

/-- A mantissa that rounding carried to `2 ^ 53` is shifted once more, exactly. -/
theorem shiftToTargetExponent_carry {T : ℤ} (hT : -1074 ≤ T) :
    shiftToTargetExponent .binary64 (2 ^ 53) T .exact = (⟨2 ^ 52, false, false⟩, T + 1) := by
  have hlog : (2 ^ 53 : ℕ).log2 = 53 := Nat.log2_two_pow
  simp only [shiftToTargetExponent, shiftToExponent, targetExponent_binary64, totalExponent, hlog,
    show (max ((53 : ℕ) + 1 + T - 53) (-1074) - T).toNat = 1 by omega, Nat.cast_one]
  rfl

/-! ## Bounds from the accuracy -/

variable {M : ℕ} {E : ℤ} {acc : Accuracy} {X : ℚ}

/-- Shifting up to any exponent `T ≥ E` measures `X` in units of `2 ^ T`. -/
theorem Accurate.shiftTo (h : Accurate M acc (X / 2 ^ E)) {T : ℤ} (hT : E ≤ T) :
    Accurate (ExtendedMantissa.ofMantissaAndAccuracy M acc >>> (T - E).toNat).mantissa
      (ExtendedMantissa.ofMantissaAndAccuracy M acc >>> (T - E).toNat).accuracy (X / 2 ^ T) := by
  have h₀ : Accurate (ExtendedMantissa.ofMantissaAndAccuracy M acc).mantissa
      (ExtendedMantissa.ofMantissaAndAccuracy M acc).accuracy (X / 2 ^ E) := by simpa using h
  have h' := h₀.shiftRight (T - E).toNat
  rwa [div_div, ← zpow_natCast, ← zpow_add₀ two_ne_zero, Int.toNat_of_nonneg (by omega),
    add_sub_cancel] at h'

/-- Below `2 ^ 53` units of the target exponent: the shifted mantissa has at most `53` bits. -/
theorem lt_two_pow_53 (h : Accurate M acc (X / 2 ^ E)) {T : ℤ} (hT : totalExponent M E - 53 ≤ T) :
    X / 2 ^ T < 2 ^ 53 := by
  have hM : (M : ℚ) + 1 ≤ 2 ^ (M.log2 + 1) := by exact_mod_cast Nat.lt_log2_self
  have hpE := Finite.two_zpow_pos E
  have hX := (div_lt_iff₀ hpE).mp (lt_of_lt_of_le h.bounds.2 hM)
  rw [div_lt_iff₀ (Finite.two_zpow_pos T)]
  calc X < 2 ^ (M.log2 + 1) * 2 ^ E := hX
    _ = 2 ^ totalExponent M E := by
      rw [← zpow_natCast, ← zpow_add₀ two_ne_zero, totalExponent]; push_cast; ring_nf
    _ ≤ 2 ^ (53 + T) := zpow_le_zpow_right₀ (by norm_num) (by omega)
    _ = 2 ^ 53 * 2 ^ T := by rw [zpow_add₀ two_ne_zero]; norm_num

/-- At `53` bits below the total exponent, a nonzero mantissa has all `53` bits. -/
theorem two_pow_52_le (hM : 0 < M) (h : Accurate M acc (X / 2 ^ E)) {T : ℤ}
    (hT : T = totalExponent M E - 53) : 2 ^ 52 ≤ X / 2 ^ T := by
  have hM' : (2 : ℚ) ^ M.log2 ≤ M := by exact_mod_cast Nat.log2_self_le hM.ne'
  have hpE := Finite.two_zpow_pos E
  have hX := (le_div_iff₀ hpE).mp (hM'.trans h.bounds.1)
  rw [le_div_iff₀ (Finite.two_zpow_pos T)]
  calc (2 : ℚ) ^ 52 * 2 ^ T = 2 ^ M.log2 * 2 ^ E := by
        rw [← zpow_natCast, ← zpow_add₀ two_ne_zero, ← zpow_natCast, ← zpow_add₀ two_ne_zero, hT,
          totalExponent]
        ring_nf
    _ ≤ X := hX

/-- Shifted up to the target exponent, the mantissa has at most `53` bits, and all `53` above the
least exponent. -/
theorem Accurate.shifted_bounds (h : Accurate M acc (X / 2 ^ E)) {T : ℤ} (hE : E ≤ T)
    (hT : T = max (totalExponent M E - 53) (-1074)) :
    (ExtendedMantissa.ofMantissaAndAccuracy M acc >>> (T - E).toNat).mantissa < 2 ^ 53 ∧
      (-1074 < T →
        2 ^ 52 ≤ (ExtendedMantissa.ofMantissaAndAccuracy M acc >>> (T - E).toNat).mantissa) := by
  obtain ⟨hlo, hhi⟩ := (h.shiftTo hE).bounds
  refine ⟨by exact_mod_cast hlo.trans_lt (lt_two_pow_53 h (by omega)), fun hT' => ?_⟩
  -- above the least exponent the target is `53` bits below the total exponent: `M` is not zero
  have hM : 0 < M := by
    rcases Nat.eq_zero_or_pos M with h0 | h0
    · simp [totalExponent, h0] at hT; omega
    · exact h0
  have : (2 : ℚ) ^ 52 < _ + 1 := (two_pow_52_le hM h (by omega)).trans_lt hhi
  exact Nat.lt_succ_iff.mp (by exact_mod_cast this)

/-! ## Rounding -/

/-- The double `x` is what the magnitude `X` rounds to, with sign `negative`: a zero when `X` is
at most half the least subnormal, the finite double whose rounding interval holds `X`, or an
infinity from halfway between the largest double and `2 ^ 1024` on. -/
def RoundsTo (X : ℚ) (negative : Bool) (x : Float) : Prop :=
  match shape x with
  | .zero b => b = negative ∧ X ≤ 2 ^ (-1075 : ℤ)
  | .finite b v => b = negative ∧ v.Rounds X
  | .infinite b => b = negative ∧ 2 ^ 1024 - 2 ^ 970 ≤ X
  | .nan => False

variable {R : ℕ} {T : ℤ} {y : ℚ}

/-- A mantissa rounded to within half a unit of `y` is the double whose rounding interval holds
`y * 2 ^ T`, provided that at the bottom of a binade, where the gap below is narrow, it was not
rounded up. -/
theorem rounds_of_rounded (h1 : (R : ℚ) - 1 / 2 ≤ y) (h2 : y ≤ R + 1 / 2)
    (h3 : R % 2 = 1 → (R : ℚ) - 1 / 2 < y ∧ y < R + 1 / 2)
    (hnarrow : R = 2 ^ 52 → -1074 < T → (R : ℚ) ≤ y) :
    Finite.Rounds ⟨R, T, R == 2 ^ 52 && decide (-1074 < T)⟩ (y * 2 ^ T) := by
  have hpT := Finite.two_zpow_pos T
  have hlow := mul_le_mul_of_nonneg_right h1 hpT.le
  have hup := mul_le_mul_of_nonneg_right h2 hpT.le
  unfold Finite.Rounds Finite.gapBelow Finite.val
  dsimp only
  by_cases hn : (R == 2 ^ 52 && decide (-1074 < T)) = true
  · have hn' := hn
    simp only [Bool.and_eq_true, beq_iff_eq, decide_eq_true_eq] at hn'
    have hRy := mul_le_mul_of_nonneg_right (hnarrow hn'.1 hn'.2) hpT.le
    have := Finite.two_zpow_pos (T - 1)
    simp only [hn, if_true]
    refine ⟨by linarith, by linarith, fun h => absurd h (by rw [hn'.1]; norm_num)⟩
  · simp only [hn, Bool.false_eq_true, if_false]
    refine ⟨by linarith, by linarith, fun h => ?_⟩
    obtain ⟨h1', h2'⟩ := h3 h
    exact ⟨by nlinarith, by nlinarith⟩

/-- A mantissa carried to `2 ^ 53` is the first double of the next binade, whose gap below is
narrow. -/
theorem rounds_of_carry (h1 : 2 ^ 53 - 1 / 2 ≤ y) (h2 : y ≤ 2 ^ 53 + 1 / 2) (hT : -1074 ≤ T) :
    Finite.Rounds ⟨2 ^ 52, T + 1, 2 ^ 52 == 2 ^ 52 && decide (-1074 < T + 1)⟩ (y * 2 ^ T) := by
  have hpT := Finite.two_zpow_pos T
  have hlow := mul_le_mul_of_nonneg_right h1 hpT.le
  have hup := mul_le_mul_of_nonneg_right h2 hpT.le
  unfold Finite.Rounds Finite.gapBelow Finite.val
  simp only [beq_self_eq_true, show -1074 < T + 1 by omega, decide_true, Bool.and_self,
    if_true, add_sub_cancel_right, zpow_add_one₀ (two_ne_zero : (2 : ℚ) ≠ 0)]
  push_cast
  refine ⟨by linarith, by linarith, fun h => absurd h (by norm_num)⟩

/-- Within half a unit of zero at the least exponent, a magnitude is at most half the least
subnormal. -/
theorem le_half_least_subnormal (hy : y ≤ 1 / 2) : y * 2 ^ (-1074 : ℤ) ≤ 2 ^ (-1075 : ℤ) :=
  calc y * 2 ^ (-1074 : ℤ) ≤ 1 / 2 * 2 ^ (-1074 : ℤ) :=
        mul_le_mul_of_nonneg_right hy (Finite.two_zpow_pos _).le
    _ = 2 ^ (-1075 : ℤ) := by
      rw [show (-1075 : ℤ) = -1074 - 1 by norm_num, zpow_sub₀ two_ne_zero]; ring

/-- The overflow threshold, halfway between the largest double and `2 ^ 1024`, counted in units
of the last bit of the largest double. -/
theorem overflow_eq : (2 : ℚ) ^ 1024 - 2 ^ 970 = (2 ^ 53 - 1 / 2) * 2 ^ (971 : ℤ) := by
  rw [show (971 : ℤ) = ((971 : ℕ) : ℤ) from rfl, zpow_natCast,
    show (2 : ℚ) ^ 1024 = 2 ^ 53 * 2 ^ 971 by rw [← pow_add],
    show (2 : ℚ) ^ 971 = 2 ^ 970 * 2 by rw [← pow_succ]]
  generalize (2 : ℚ) ^ 970 = P
  ring

/-- From halfway between the largest double and `2 ^ 1024` on, a magnitude overflows. -/
theorem overflow_le (hy : 2 ^ 53 - 1 / 2 ≤ y) (hT : 971 ≤ T) : 2 ^ 1024 - 2 ^ 970 ≤ y * 2 ^ T := by
  have h971 : (2 : ℚ) ^ (971 : ℤ) ≤ 2 ^ T := zpow_le_zpow_right₀ (by norm_num) hT
  calc (2 : ℚ) ^ 1024 - 2 ^ 970 = (2 ^ 53 - 1 / 2) * 2 ^ (971 : ℤ) := overflow_eq
    _ ≤ (2 ^ 53 - 1 / 2) * 2 ^ T := by gcongr
    _ ≤ y * 2 ^ T := by gcongr

/-- A full mantissa at an exponent above `971` overflows. -/
theorem overflow_le_of_full (hy : 2 ^ 52 ≤ y) (hT : 971 < T) : 2 ^ 1024 - 2 ^ 970 ≤ y * 2 ^ T := by
  -- counted in units of `2 ^ (T - 1)` it is a mantissa of `54` bits
  have h := overflow_le (y := 2 * y) (T := T - 1) (by linarith) (by omega)
  rwa [show 2 * y * 2 ^ (T - 1) = y * 2 ^ T by rw [Finite.two_zpow_succ T]; ring] at h

/-- `roundWithAccuracy` rounds to nearest, ties to even, when its input exponent is at most the
one it shifts to. -/
theorem roundsTo_roundWithAccuracy (s : Sign) (hX : Accurate M acc (X / 2 ^ E))
    (hE : E ≤ Format.binary64.targetExponent (totalExponent M E)) :
    RoundsTo X (s == .negative)
      (.ofModel (Float.Model.pack (roundWithAccuracy .binary64 s M E acc))) := by
  unfold roundWithAccuracy
  rw [shiftToTargetExponent_eq acc hE]
  dsimp only
  set T := Format.binary64.targetExponent (totalExponent M E) with hT
  have hTmax : T = max (totalExponent M E - 53) (-1074) := targetExponent_binary64 _
  have hT1074 : -1074 ≤ T := by omega
  obtain ⟨hm53, hm52⟩ := hX.shifted_bounds hE hTmax
  set em := ExtendedMantissa.ofMantissaAndAccuracy M acc >>> (T - E).toNat with hem
  have hx : Accurate em.mantissa em.accuracy (X / 2 ^ T) := hX.shiftTo hE
  have hpT := Finite.two_zpow_pos T
  set y := X / 2 ^ T with hy
  have hXy : X = y * 2 ^ T := by rw [hy, div_mul_cancel₀ _ hpT.ne']
  have hlo := hx.bounds.1
  -- rounding: within half a unit, and at most one above the shifted mantissa
  obtain ⟨hR1, hR2, hR3⟩ := hx.rounded
  have hRm := Accurate.le_rounded em.accuracy em.mantissa
  have hRm1 := Accurate.rounded_le em.accuracy em.mantissa
  have hdef : em.accuracy.roundToNearestEven em.mantissa = em.roundedMantissa := rfl
  rw [hdef] at hRm hRm1 hR1 hR2 hR3
  generalize em.roundedMantissa = R at hRm hRm1 hR1 hR2 hR3 ⊢
  rcases (show R < 2 ^ 53 ∨ R = 2 ^ 53 by omega) with hlt | rfl
  · rw [shiftToTargetExponent_of_lt hlt hT1074]
    dsimp only
    split <;> unfold RoundsTo
    · -- nothing is left: `X` is at most half the least subnormal
      rename_i h0
      have hT' : T = -1074 := by
        by_contra hne; have := hm52 (by omega); omega
      rw [shape_pack_zero, hXy, hT']
      exact ⟨rfl, le_half_least_subnormal (by simpa [h0] using hR2)⟩
    · rcases le_or_gt T 971 with hT971 | hT972
      · rw [shape_pack_finite s _ hlt hT1074 hT971 (fun h => (hm52 h).trans hRm), hXy]
        refine ⟨rfl, rounds_of_rounded hR1 hR2 hR3 fun h52 hT' => ?_⟩
        -- at the bottom of a binade the shifted mantissa was already `2 ^ 52`
        have : em.mantissa = R := by have := hm52 hT'; omega
        rw [← this]; exact hlo
      · rw [shape_pack_overflow s _ hT972, hXy]
        have : (2 : ℚ) ^ 52 ≤ em.mantissa := by exact_mod_cast hm52 (by omega)
        exact ⟨rfl, overflow_le_of_full (this.trans hlo) hT972⟩
  · -- rounding carried into a 54th bit: one more exact shift
    rw [shiftToTargetExponent_carry hT1074]
    dsimp only
    rw [dif_neg (by norm_num)]
    unfold RoundsTo
    push_cast at hR1 hR2
    rcases le_or_gt (T + 1) 971 with hT971 | hT972
    · rw [shape_pack_finite s _ (by norm_num) (by omega) hT971 (fun _ => le_rfl), hXy]
      exact ⟨rfl, rounds_of_carry hR1 (by linarith) hT1074⟩
    · rw [shape_pack_overflow s _ hT972, hXy]
      exact ⟨rfl, overflow_le hR1 (by omega)⟩

end Binary64

end Polyform
