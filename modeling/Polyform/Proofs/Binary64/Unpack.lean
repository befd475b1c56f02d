import Polyform.Proofs.Binary64.Value

/-!
# Doubles as unpacked floats

The arithmetic of `Float` is defined on unpacked floats (`Float.Model.UnpackedFloat`): a sign, a
significand and an exponent, which each operation rounds and packs back into bits. `shapeOf`
reads an unpacked float as a `Binary64.Shape`, and `shape_eq_shapeOf` says that the bits of a
double, read by `Binary64.shape`, stand for what its unpacked form stands for.

Unpacking undoes packing for every float that is canonical for `binary64` (`unpack_pack_finite`),
and an exponent above `971` packs to an infinity (`shape_pack_overflow`). In the other direction,
a double whose shape is finite has a canonical significand and exponent (`canonical_of_shape`),
and they are its unpacked form (`unpack_of_shape_finite`).
-/

namespace Polyform

namespace Binary64

open Float.Model UnpackedFloat

/-- What an unpacked float stands for. -/
def shapeOf : UnpackedFloat → Shape
  | .notANumber => .nan
  | .infinity s => .infinite (s == .negative)
  | .zero s => .zero (s == .negative)
  | .finite s m e _ => .finite (s == .negative) ⟨m, e, m == 2 ^ 52 && decide (-1074 < e)⟩

/-- The sign a flag stands for. -/
def signOf (negative : Bool) : Sign :=
  if negative then .negative else .positive

@[simp] theorem signOf_beq (b : Bool) : (signOf b == .negative) = b := by
  cases b <;> rfl

theorem signOf_of_beq {s : Sign} {b : Bool} (h : (s == .negative) = b) : s = signOf b := by
  cases s <;> cases b <;> first | rfl | exact absurd h (by decide)

/-! ## The fields of the bits -/

theorem bits_exponent (u : UInt64) : (u >>> 52 &&& 2047).toNat = u.toNat / 2 ^ 52 % 2 ^ 11 := by
  have h := Nat.and_two_pow_sub_one_eq_mod (u.toNat / 2 ^ 52) 11
  norm_num at h ⊢
  simpa [UInt64.toNat_shiftRight, UInt64.toNat_and, Nat.shiftRight_eq_div_pow] using h

theorem bits_fraction (u : UInt64) : (u &&& 4503599627370495).toNat = u.toNat % 2 ^ 52 := by
  have h := Nat.and_two_pow_sub_one_eq_mod u.toNat 52
  norm_num at h
  simp [UInt64.toNat_and, h]

theorem bits_sign (u : UInt64) : (u >>> 63 == 1) = decide (u.toNat / 2 ^ 63 = 1) := by
  rw [Bool.eq_iff_iff]
  simp [beq_iff_eq, ← UInt64.toNat_inj, UInt64.toNat_shiftRight, Nat.shiftRight_eq_div_pow]

theorem toNat_unpackMantissa (b : BitVec 64) :
    (@unpackMantissa Format.binary64 b).toNat = b.toNat % 2 ^ 52 := by
  simp [unpackMantissa]

theorem toNat_normalMantissa (b : BitVec 64) :
    (1#1 ++ @unpackMantissa Format.binary64 b).toNat = 2 ^ 52 + b.toNat % 2 ^ 52 := by
  have h : (@unpackMantissa Format.binary64 b).toNat < 2 ^ 52 := by
    rw [toNat_unpackMantissa]; omega
  rw [BitVec.toNat_append, ← Nat.shiftLeft_add_eq_or_of_lt h, toNat_unpackMantissa]
  simp [Nat.shiftLeft_eq]

theorem toNat_unpackExponent (b : BitVec 64) :
    (@unpackExponent Format.binary64 b).toNat = b.toNat / 2 ^ 52 % 2 ^ 11 := by
  simp [unpackExponent, Nat.shiftRight_eq_div_pow]

theorem ofBitVec_unpackSign (b : BitVec 64) :
    Sign.ofBitVec (@unpackSign Format.binary64 b) = signOf (b.toNat / 2 ^ 63 = 1) := by
  have := b.isLt
  have h : (@unpackSign Format.binary64 b).toNat = b.toNat / 2 ^ 63 := by
    simp [unpackSign, Nat.shiftRight_eq_div_pow]; omega
  have h' : @unpackSign Format.binary64 b = 0#1 ↔ b.toNat / 2 ^ 63 = 0 := by
    rw [← BitVec.toNat_inj, h]; simp
  unfold Sign.ofBitVec signOf
  by_cases hs : b.toNat / 2 ^ 63 = 1
  · simp only [show ¬@unpackSign Format.binary64 b = 0#1 by rw [h']; omega, if_false]
    simpa using hs
  · simp only [h'.mpr (by omega), if_true]
    simpa using hs

/-- `shape` reads the bits of a double as its unpacked form stands for. -/
theorem shape_eq_shapeOf (x : Float) : shape x = shapeOf x.toModel.unpack := by
  have hb : x.toModel.toBits.toNat < 2 ^ 64 := x.toModel.toBits.toNat_lt
  unfold shape Float.Model.unpack UnpackedFloat.unpack
  simp only [Float.toBits, bits_exponent, bits_fraction, bits_sign, ofBitVec_unpackSign,
    ← BitVec.toNat_inj, toNat_unpackExponent, toNat_unpackMantissa, UInt64.toNat_toBitVec,
    show (-1#11 : BitVec 11).toNat = 2047 from rfl, BitVec.toNat_ofNat, Nat.zero_mod,
    Format.exponentBias]
  have hmn := toNat_normalMantissa x.toModel.toBits.toBitVec
  rw [UInt64.toNat_toBitVec] at hmn
  -- the same three tests on both sides: all ones, all zeros, and a zero fraction
  split_ifs <;> simp_all [shapeOf]
  all_goals
    rw [Bool.eq_iff_iff]
    simp only [Bool.and_eq_true, beq_iff_eq, decide_eq_true_eq]
    omega

/-- A finite shape has a canonical significand and exponent. -/
theorem canonical_of_shape {x : Float} {b : Bool} {v : Finite} (h : shape x = .finite b v) :
    v.Canonical := by
  unfold shape at h
  simp only [bits_exponent, bits_fraction] at h
  generalize x.toBits.toNat = n at h
  -- the infinite, NaN and zero shapes are not finite; the other two are read off the fields
  split_ifs at h <;> simp only [Shape.finite.injEq] at h <;> obtain ⟨-, rfl⟩ := h <;>
    constructor <;> simp <;> omega

theorem unpack_of_shape_finite {x : Float} {b : Bool} {v : Finite} (h : shape x = .finite b v) :
    x.toModel.unpack = .finite (signOf b) v.m v.q (canonical_of_shape h).pos := by
  have h' := h
  rw [shape_eq_shapeOf] at h'
  generalize x.toModel.unpack = u at h' ⊢
  cases u with
  | finite s m e hm =>
    obtain ⟨hs, rfl⟩ := Shape.finite.inj h'
    rw [signOf_of_beq hs]
  | _ => simp [shapeOf] at h'

theorem unpack_of_shape_zero {x : Float} {b : Bool} (h : shape x = .zero b) :
    x.toModel.unpack = .zero (signOf b) := by
  rw [shape_eq_shapeOf] at h
  generalize x.toModel.unpack = u at h ⊢
  cases u with
  | zero s => rw [signOf_of_beq (Shape.zero.inj h)]
  | _ => simp [shapeOf] at h

/-! ## Packing -/

theorem toNat_packComponents (s : Sign) (E : BitVec 11) (M : BitVec 52) :
    (packComponents Format.binary64 s E M).toNat =
      s.toBitVec.toNat * 2 ^ 63 + E.toNat * 2 ^ 52 + M.toNat := by
  have hE := E.isLt
  have hM := M.isLt
  have h1 : (s.toBitVec ++ E).toNat = s.toBitVec.toNat * 2 ^ 11 + E.toNat := by
    rw [BitVec.toNat_append, ← Nat.shiftLeft_add_eq_or_of_lt hE, Nat.shiftLeft_eq]
  unfold packComponents
  rw [BitVec.toNat_append, ← Nat.shiftLeft_add_eq_or_of_lt hM, Nat.shiftLeft_eq, h1]
  ring

theorem sign_packComponents (s : Sign) (E : BitVec 11) (M : BitVec 52) :
    Sign.ofBitVec (unpackSign (packComponents Format.binary64 s E M)) = s := by
  have hE := E.isLt
  have hM := M.isLt
  rw [ofBitVec_unpackSign, toNat_packComponents]
  cases s <;> simp [Sign.toBitVec, signOf] <;> omega

theorem unpack_pack_finite (s : Sign) {m : ℕ} {e : ℤ} (hm : 0 < m) (hlt : m < 2 ^ 53)
    (hge : -1074 ≤ e) (hle : e ≤ 971) (hnormal : -1074 < e → 2 ^ 52 ≤ m) :
    UnpackedFloat.unpack Format.binary64 (UnpackedFloat.pack Format.binary64 (.finite s m e hm)) =
      .finite s m e hm := by
  by_cases h52 : 2 ^ 52 ≤ m
  · -- a normal double: the exponent field is `e + 1075` and the hidden bit is dropped
    have hlog : m.log2 = 52 := by rw [Nat.log2_eq_iff (by omega)]; omega
    have hE : (BitVec.ofNat 11 (e + 1075).toNat).toNat = (e + 1075).toNat := by
      rw [BitVec.toNat_ofNat]; omega
    have hM : (1#1 ++ BitVec.ofNat 52 m).toNat = m := by
      have : (BitVec.ofNat 52 m).toNat < 2 ^ 52 := BitVec.isLt _
      rw [BitVec.toNat_append, ← Nat.shiftLeft_add_eq_or_of_lt this, BitVec.toNat_ofNat]
      simp [Nat.shiftLeft_eq]; omega
    simp only [UnpackedFloat.pack, hlog, Format.exponentBias, Format.mantissaBits, if_true]
    rw [if_neg (by omega), show e + ((2 ^ (11 - 1) - 1 : ℕ) : ℤ) + ((52 : ℕ) : ℤ) = e + 1075 by
      push_cast; ring]
    simp only [UnpackedFloat.unpack, unpackMantissa_packComponents, unpackExponent_packComponents,
      sign_packComponents, ← BitVec.toNat_inj, hE, hM, Format.exponentBias]
    rw [if_neg (by norm_num; omega), if_neg (by norm_num; omega)]
    simp only [finite.injEq, true_and]
    omega
  · -- a subnormal double: the exponent field is zero
    have he : e = -1074 := by by_contra h; exact h52 (hnormal (by omega))
    subst he
    have hlog : m.log2 + 1 ≠ 53 := by
      have := Nat.log2_lt (n := m) (by omega) |>.mpr (show m < 2 ^ 52 by omega); omega
    have hM : (BitVec.ofNat 52 m).toNat = m := by rw [BitVec.toNat_ofNat]; omega
    simp only [UnpackedFloat.pack, Format.exponentBias, Format.mantissaBits]
    have hinf : ¬2 ^ 11 ≤ (-1074 + ((2 ^ (11 - 1) - 1 : ℕ) : ℤ) + ((52 : ℕ) : ℤ)).toNat + 1 := by
      decide
    simp only [hinf, if_false, show ¬m.log2 + 1 = 1 + 52 by omega]
    simp only [UnpackedFloat.unpack, unpackMantissa_packComponents, unpackExponent_packComponents,
      sign_packComponents, ← BitVec.toNat_inj, hM, Format.exponentBias]
    rw [if_pos trivial, dif_neg (by simp; omega)]
    simp


theorem unpack_pack_zero (s : Sign) :
    UnpackedFloat.unpack Format.binary64 (UnpackedFloat.pack Format.binary64 (.zero s)) =
      .zero s := by
  simp only [UnpackedFloat.pack, packedZero, UnpackedFloat.unpack, unpackMantissa_packComponents,
    unpackExponent_packComponents, sign_packComponents]
  rfl

theorem shape_ofModel_pack (u : UnpackedFloat) :
    shape (.ofModel (Float.Model.pack u)) =
      shapeOf (UnpackedFloat.unpack Format.binary64 (UnpackedFloat.pack Format.binary64 u)) := by
  rw [shape_eq_shapeOf]
  rfl

/-- A canonical significand and exponent pack to the finite double they stand for. -/
theorem shape_pack_finite (s : Sign) {m : ℕ} {e : ℤ} (hm : 0 < m) (hlt : m < 2 ^ 53)
    (hge : -1074 ≤ e) (hle : e ≤ 971) (hnormal : -1074 < e → 2 ^ 52 ≤ m) :
    shape (.ofModel (Float.Model.pack (.finite s m e hm))) =
      .finite (s == .negative) ⟨m, e, m == 2 ^ 52 && decide (-1074 < e)⟩ := by
  rw [shape_ofModel_pack, unpack_pack_finite s hm hlt hge hle hnormal, shapeOf]

theorem shape_pack_zero (s : Sign) :
    shape (.ofModel (Float.Model.pack (.zero s))) = .zero (s == .negative) := by
  rw [shape_ofModel_pack, unpack_pack_zero, shapeOf]

/-- An exponent above that of the largest double packs to an infinity. -/
theorem shape_pack_overflow (s : Sign) {m : ℕ} {e : ℤ} (hm : 0 < m) (he : 972 ≤ e) :
    shape (.ofModel (Float.Model.pack (.finite s m e hm))) = .infinite (s == .negative) := by
  have hinf : 2 ^ 11 ≤ (e + ((2 ^ (11 - 1) - 1 : ℕ) : ℤ) + ((52 : ℕ) : ℤ)).toNat + 1 := by
    push_cast; omega
  rw [shape_ofModel_pack]
  simp only [UnpackedFloat.pack, Format.exponentBias, hinf, if_true, packedInfinity,
    UnpackedFloat.unpack, unpackMantissa_packComponents, unpackExponent_packComponents,
    sign_packComponents]
  simp [shapeOf]

end Binary64

end Polyform
