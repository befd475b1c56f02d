import Polyform.Proofs.Binary64.Value
import Polyform.Decimal.Numeral

/-!
# Positional text of decimals

A decimal is normalized when its coefficient has no trailing zero, or when it is zero written
`0 * 10 ^ 0`. `Decimal.normalize` makes a decimal so without changing its value, and a normalized
decimal is determined by its value (`Decimal.eq_of_val_eq`).

`Decimal.plain` writes a decimal as a numeral that `Decimal.ofNumeral?` reads back to a decimal
of the same value (`Decimal.ofNumeral_plain`). So the text of a normalized decimal determines it
(`Decimal.plain_injective`).
-/

namespace Polyform

namespace CodePoint

@[simp] theorem isDigit_ofChar (c : Char) : (ofChar c).isDigit = c.isDigit := by
  unfold isDigit ofChar Char.isDigit
  simp [UInt32.le_iff_toNat_le]

@[simp] theorem toChar_comp_ofChar : toChar ∘ ofChar = id :=
  funext toChar_ofChar

end CodePoint

namespace Decimal

/-! ## Normal form -/

/-- The coefficient has no trailing zero, or the decimal is zero written `0 * 10 ^ 0`. -/
def Normalized (d : Decimal) : Prop :=
  d.coeff % 10 ≠ 0 ∨ d = ⟨0, 0⟩

theorem normalized_zero : (⟨0, 0⟩ : Decimal).Normalized := .inr rfl

theorem val_normalize (d : Decimal) : d.normalize.val = d.val := by
  fun_induction normalize d with
  | case1 d h => simp [val, h]
  | case2 d _ h10 ih =>
    rw [ih]
    obtain ⟨k, hk⟩ := Nat.dvd_of_mod_eq_zero h10
    simp only [val, hk, Nat.mul_div_cancel_left k (by norm_num : 0 < 10)]
    rw [zpow_add_one₀ (by norm_num)]
    push_cast
    ring
  | case3 => rfl

theorem normalized_normalize (d : Decimal) : d.normalize.Normalized := by
  fun_induction normalize d with
  | case1 => exact normalized_zero
  | case2 _ _ _ ih => exact ih
  | case3 _ _ h10 => exact .inl h10

/-- Normalizing a decimal that is not zero only raises its exponent. -/
theorem exp_le_exp_normalize {d : Decimal} (h : 0 < d.coeff) : d.exp ≤ d.normalize.exp := by
  fun_induction normalize d with
  | case1 => omega
  | case2 d _ h10 ih =>
    have := ih (by dsimp only; omega)
    dsimp only at this
    omega
  | case3 => exact le_rfl

/-- Of two decimals of one value, the one with the smaller exponent has the other's coefficient
times a power of ten. -/
theorem coeff_eq_of_val_eq {d e : Decimal} (h : d.val = e.val) (hle : d.exp ≤ e.exp) :
    d.coeff = e.coeff * 10 ^ (e.exp - d.exp).toNat := by
  have hpow : (10 : ℚ) ^ e.exp = 10 ^ (e.exp - d.exp).toNat * 10 ^ d.exp := by
    rw [← zpow_natCast, ← zpow_add₀ (by norm_num), Int.toNat_of_nonneg (by omega),
      sub_add_cancel]
  unfold val at h
  rw [hpow, ← mul_assoc] at h
  exact_mod_cast mul_right_cancel₀ (zpow_ne_zero _ (by norm_num)) h

/-- A normalized decimal is determined by its value. -/
theorem eq_of_val_eq {d e : Decimal} (hd : d.Normalized) (he : e.Normalized)
    (h : d.val = e.val) : d = e := by
  rcases hd with hd | rfl <;> rcases he with he | rfl
  · -- on a coarser exponent the finer coefficient would end in a zero
    wlog hle : d.exp ≤ e.exp generalizing d e
    · exact (this h.symm he hd (by omega)).symm
    have hc := coeff_eq_of_val_eq h hle
    have hexp : d.exp = e.exp := by
      refine le_antisymm hle (le_of_not_gt fun hlt => hd ?_)
      rw [hc, show (e.exp - d.exp).toNat = (e.exp - d.exp).toNat - 1 + 1 by omega, pow_succ,
        ← mul_assoc, Nat.mul_mod_left]
    rw [hexp, sub_self, Int.toNat_zero, pow_zero, mul_one] at hc
    cases d
    cases e
    simp_all
  · have : d.coeff = 0 := by simpa [val, zpow_ne_zero _ (show (10 : ℚ) ≠ 0 by norm_num)] using h
    simp [this] at hd
  · have : e.coeff = 0 := by
      simpa [val, zpow_ne_zero _ (show (10 : ℚ) ≠ 0 by norm_num)] using h.symm
    simp [this] at he
  · rfl

/-! ## Reading the text back -/

theorem digitsValue_eq (cs : List Char) : digitsValue cs = Nat.ofDigitChars 10 cs 0 := rfl

@[simp] theorem digitsValue_digitsOf (n : ℕ) : digitsValue (digitsOf n) = n :=
  Nat.ofDigitChars_ten_toDigits

@[simp] theorem digitsValue_append_zeros (cs : List Char) (k : ℕ) :
    digitsValue (cs ++ List.replicate k '0') = digitsValue cs * 10 ^ k := by
  simp [digitsValue_eq, Nat.ofDigitChars_append, Nat.mul_comm]

@[simp] theorem digitsValue_zeros_append (k : ℕ) (cs : List Char) :
    digitsValue (List.replicate k '0' ++ cs) = digitsValue cs := by
  simp [digitsValue_eq, Nat.ofDigitChars_append]

theorem isDigit_of_mem_digitsOf {n : ℕ} {c : Char} (h : c ∈ digitsOf n) : c.isDigit :=
  Nat.isDigit_of_mem_toDigits (by decide) (by decide) h

theorem forall_isDigit_map_ofChar {cs : List Char} (h : ∀ c ∈ cs, c.isDigit) :
    ∀ c ∈ cs.map CodePoint.ofChar, c.isDigit := by
  simpa [CodePoint.isDigit_ofChar] using h

/-- A run of digits reads as the whole number it spells. -/
theorem ofNumeral_digits {ds : List Char} (hds : ∀ c ∈ ds, c.isDigit) (hne : ds ≠ []) :
    ofNumeral? (ds.map CodePoint.ofChar) = some ⟨digitsValue ds, 0⟩ := by
  have h := forall_isDigit_map_ofChar hds
  unfold ofNumeral?
  rw [← List.append_nil (ds.map CodePoint.ofChar), List.takeWhile_append_of_pos h,
    List.dropWhile_append_of_pos h]
  simp [hne]

/-- Digits, a point and at least one digit read as the decimal with a fractional digit for each
digit after the point. -/
theorem ofNumeral_point {ws fs : List Char} (hws : ∀ c ∈ ws, c.isDigit)
    (hfs : ∀ c ∈ fs, c.isDigit) (hne : fs ≠ []) :
    ofNumeral? (ws.map CodePoint.ofChar ++ CodePoint.ofChar '.' :: fs.map CodePoint.ofChar) =
      some ⟨digitsValue (ws ++ fs), -(fs.length : ℤ)⟩ := by
  have hpoint : ¬(CodePoint.ofChar '.').isDigit = true := by decide
  unfold ofNumeral?
  rw [List.takeWhile_append_of_pos (forall_isDigit_map_ofChar hws),
    List.dropWhile_append_of_pos (forall_isDigit_map_ofChar hws),
    List.takeWhile_cons_of_neg hpoint, List.dropWhile_cons_of_neg hpoint]
  simpa [hne] using hfs

/-- A numeral that reads holds digits and points only. -/
theorem mem_of_ofNumeral {cs : List CodePoint} {d : Decimal} (h : ofNumeral? cs = some d)
    {c : CodePoint} (hc : c ∈ cs) : c.isDigit ∨ c = .ofChar '.' := by
  rw [← List.takeWhile_append_dropWhile (p := CodePoint.isDigit) (l := cs), List.mem_append] at hc
  rcases hc with hc | hc
  · exact .inl (List.mem_takeWhile_imp hc)
  · unfold ofNumeral? at h
    split at h
    · rename_i hdrop
      simp [hdrop] at hc
    · rename_i e frac hdrop
      rw [hdrop, List.mem_cons] at hc
      dsimp only at h
      split at h
      · rename_i hok
        simp only [Bool.and_eq_true, decide_eq_true_eq, List.all_eq_true] at hok
        rcases hc with rfl | hc
        · exact .inr hok.1.1
        · exact .inl (hok.1.2 c hc)
      · cases h

theorem ne_nil_of_ofNumeral {cs : List CodePoint} {d : Decimal} (h : ofNumeral? cs = some d) :
    cs ≠ [] := by
  rintro rfl
  simp [ofNumeral?] at h

/-- The text of a decimal is a numeral of the same value. -/
theorem ofNumeral_plain (d : Decimal) :
    ∃ e, ofNumeral? (CodePoint.ofString d.plain) = some e ∧ e.val = d.val := by
  have hds : ∀ c ∈ digitsOf d.coeff, c.isDigit := fun _ => isDigit_of_mem_digitsOf
  have hzeros : ∀ k, ∀ c ∈ List.replicate k '0', c.isDigit := by
    intro k c hc
    rw [(List.mem_replicate.mp hc).2]
    rfl
  unfold plain
  split
  · -- a whole number: digits and trailing zeros, no point
    rename_i hexp
    rw [CodePoint.ofString, String.toList_ofList]
    refine ⟨_, ofNumeral_digits ?_ (by simp [digitsOf]), ?_⟩
    · simpa [or_imp, forall_and] using And.intro hds (hzeros d.exp.toNat)
    · simp only [val, digitsValue_append_zeros, digitsValue_digitsOf]
      push_cast
      rw [← zpow_natCast, Int.toNat_of_nonneg hexp, mul_one]
  · -- a point with `f = -exp` digits after it, and at least one digit before it
    rename_i hexp
    set f := (-d.exp).toNat
    set padded := List.replicate (f + 1 - (digitsOf d.coeff).length) '0' ++ digitsOf d.coeff
    have hpad : ∀ c ∈ padded, c.isDigit := by
      simpa [padded, or_imp, forall_and] using
        And.intro (hzeros (f + 1 - (digitsOf d.coeff).length)) hds
    have hlen : (padded.drop (padded.length - f)).length = f := by simp [padded]; omega
    simp only [CodePoint.ofString, String.toList_ofList, List.map_append, List.map_cons]
    rw [ofNumeral_point (fun c hc => hpad c (List.mem_of_mem_take hc))
      (fun c hc => hpad c (List.mem_of_mem_drop hc)) (by rw [← List.length_pos_iff, hlen]; omega)]
    refine ⟨_, rfl, ?_⟩
    simp only [val, List.take_append_drop, hlen, padded, digitsValue_zeros_append,
      digitsValue_digitsOf, f]
    rw [Int.toNat_of_nonneg (by omega), neg_neg]

/-- The text of a normalized decimal determines it. -/
theorem plain_injective {d e : Decimal} (hd : d.Normalized) (he : e.Normalized)
    (h : d.plain = e.plain) : d = e := by
  obtain ⟨x, hx, hxv⟩ := ofNumeral_plain d
  obtain ⟨y, hy, hyv⟩ := ofNumeral_plain e
  rw [h, hy, Option.some.injEq] at hx
  subst hx
  exact eq_of_val_eq hd he (hxv.symm.trans hyv)

end Decimal

end Polyform
