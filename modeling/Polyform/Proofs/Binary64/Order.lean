import Polyform.Proofs.Binary64.Spacing

/-!
# Identity, sign and order of doubles

A double that is not NaN is determined by its shape (`Binary64.eq_of_shape_eq`): the sign, the
exponent field and the fraction field of its bits can all be read back off the shape. Negation
flips the sign of a shape and keeps the magnitude.

The order `≤` of doubles reads the magnitudes of positive doubles, as `<` does
(`Binary64.le_iff_val_le`); the zeros of either sign lie below them. A finite double that is not
below zero is therefore a zero of either sign or a positive finite double
(`Binary64.shape_of_nonneg`).

Two doubles on the grid, or zeros of either sign, that are not equal lie at least a threshold of
at most `5.2 * 10 ^ -6` apart: their difference is no smaller than it (`Binary64.le_abs_sub`).
-/

namespace Polyform

namespace Binary64

open Float.Model UnpackedFloat

variable {x y t : Float} {b c : Bool} {u v w : Finite}

/-! ## Identity -/

theorem eq_of_toBits_eq (h : x.toBits = y.toBits) : x = y := by
  obtain ⟨⟨bx, hx⟩⟩ := x
  obtain ⟨⟨by', hy⟩⟩ := y
  simp only [Float.toBits] at h
  subst h
  rfl

/-- A double other than NaN is determined by its shape: each shape fixes the three fields of the
bits. -/
theorem eq_of_shape_eq (h : shape x = shape y) (hn : shape x ≠ .nan) : x = y := by
  apply eq_of_toBits_eq
  have hx := x.toBits.toNat_lt
  have hy := y.toBits.toNat_lt
  rw [← UInt64.toNat_inj]
  unfold shape at h hn
  simp only [bits_exponent, bits_fraction, bits_sign] at h hn
  generalize x.toBits.toNat = n at h hn hx
  generalize y.toBits.toNat = k at h hn hy
  -- the bits are `sign * 2 ^ 63 + exponent * 2 ^ 52 + fraction`, each field fixed by the shape
  split_ifs at h hn <;> simp_all <;> omega

/-! ## Sign -/

theorem shape_neg_zero (h : shape x = .zero b) : shape (-x) = .zero (!b) := by
  show shape (.ofModel (Float.Model.pack x.toModel.unpack.neg)) = _
  rw [unpack_of_shape_zero h]
  have := shape_pack_zero (-signOf b)
  cases b <;> exact this

/-- A double is finite exactly when its shape is neither NaN nor an infinity. -/
theorem isFinite_iff : x.isFinite = true ↔ shape x ≠ .nan ∧ ∀ b, shape x ≠ .infinite b := by
  rw [shape_eq_shapeOf]
  show x.toModel.unpack.isFinite = true ↔ _
  cases x.toModel.unpack <;> simp [UnpackedFloat.isFinite, shapeOf]

/-! ## Order -/

theorem le_iff_compare :
    x ≤ y ↔ (x.toModel.unpack.compare y.toModel.unpack).any (·.isLE) = true := by
  show decide (x.toModel.unpack.le y.toModel.unpack = true) = true ↔ _
  rw [decide_eq_true_eq]
  rfl

theorem le_iff_val_le (hx : shape x = .finite false v) (hy : shape y = .finite false w) :
    x ≤ y ↔ v.val ≤ w.val := by
  rw [le_iff_compare, unpack_of_shape_finite hx, unpack_of_shape_finite hy]
  show (some ((compare v.q w.q).then (compare v.m w.m))).any (·.isLE) = true ↔ _
  rw [compare_canonical (canonical_of_shape hx) (canonical_of_shape hy)]
  simp [Ordering.isLE_iff_ne_gt, compare_gt_iff_gt, not_lt]

theorem zero_le_zero (hx : shape x = .zero b) (hy : shape y = .zero c) : x ≤ y := by
  rw [le_iff_compare, unpack_of_shape_zero hx, unpack_of_shape_zero hy]
  rfl

theorem zero_le_finite (hx : shape x = .zero b) (hy : shape y = .finite false w) : x ≤ y := by
  rw [le_iff_compare, unpack_of_shape_zero hx, unpack_of_shape_finite hy]
  rfl

/-- A finite double that is not below zero is a zero or a positive finite double. -/
theorem shape_of_nonneg (hf : x.isFinite = true) (h : 0 ≤ x) :
    (∃ b, shape x = .zero b) ∨ ∃ v, shape x = .finite false v := by
  have h0 : shape (0 : Float) = .zero false := by decide
  obtain ⟨hnan, hinf⟩ := isFinite_iff.mp hf
  rcases hs : shape x with _ | b | b | ⟨b, v⟩
  · exact absurd hs hnan
  · exact absurd hs (hinf b)
  · exact .inl ⟨b, rfl⟩
  · cases b with
    | false => exact .inr ⟨v, rfl⟩
    | true =>
      -- a negative double compares above zero the other way round
      rw [le_iff_compare, unpack_of_shape_zero h0, unpack_of_shape_finite hs] at h
      exact absurd h (by simp [signOf, UnpackedFloat.compare])

/-! ## Doubles on the grid lie apart -/

/-- The difference of a zero and a double on the grid is at least a threshold of at most
`10 ^ -5`. -/
theorem le_abs_sub_zero_left (ht : shape t = .finite false u) (hu : u.val ≤ 1 / 100000)
    (hx : shape x = .zero b) (hy : shape y = .finite false w) (hg : w.OnGrid) :
    t ≤ (x - y).abs := by
  rw [le_iff_val_le ht (shape_abs_finite (shape_sub_zero_left hx hy))]
  exact (canonical_of_shape ht).le_of_onGrid hu (canonical_of_shape hy) hg

theorem le_abs_sub_zero_right (ht : shape t = .finite false u) (hu : u.val ≤ 1 / 100000)
    (hx : shape x = .finite false v) (hg : v.OnGrid) (hy : shape y = .zero c) :
    t ≤ (x - y).abs := by
  rw [le_iff_val_le ht (shape_abs_finite (shape_sub_zero_right hx hy))]
  exact (canonical_of_shape ht).le_of_onGrid hu (canonical_of_shape hx) hg

/-- Two different doubles on the grid differ by at least a threshold of at most
`5.2 * 10 ^ -6`. -/
theorem le_abs_sub_onGrid (ht : shape t = .finite false u) (hu : u.val ≤ 52 / 10000000)
    (hx : shape x = .finite false v) (hgv : v.OnGrid) (hy : shape y = .finite false w)
    (hgw : w.OnGrid) (hne : v ≠ w) : t ≤ (x - y).abs := by
  obtain ⟨r, hr, hle⟩ := exists_shape_abs_sub hx hgv hy hgw hne
  rw [le_iff_val_le ht hr]
  exact hle u (canonical_of_shape ht) hu

/-- Two doubles, each a zero of either sign or a double on the grid, that are not equal differ by
at least a threshold of at most `5.2 * 10 ^ -6`. -/
theorem le_abs_sub (ht : shape t = .finite false u) (hu : u.val ≤ 52 / 10000000)
    (hx : (∃ b, shape x = .zero b) ∨ ∃ v, shape x = .finite false v ∧ v.OnGrid)
    (hy : (∃ c, shape y = .zero c) ∨ ∃ w, shape y = .finite false w ∧ w.OnGrid)
    (hne : (x == y) = false) : t ≤ (x - y).abs := by
  have hu' : u.val ≤ 1 / 100000 := by linarith
  rcases hx with ⟨b, hx⟩ | ⟨v, hx, hgv⟩ <;> rcases hy with ⟨c, hy⟩ | ⟨w, hy, hgw⟩
  · rw [beq_zero hx hy] at hne
    exact absurd hne (by decide)
  · exact le_abs_sub_zero_left ht hu' hx hy hgw
  · exact le_abs_sub_zero_right ht hu' hx hgv hy
  · refine le_abs_sub_onGrid ht hu hx hgv hy hgw fun h => ?_
    subst h
    rw [(beq_iff_val_eq hx hy).mpr rfl] at hne
    exact absurd hne (by decide)

end Binary64

end Polyform
