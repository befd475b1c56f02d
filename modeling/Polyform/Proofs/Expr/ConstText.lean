import Polyform.Proofs.Expr.Grammar.Completeness
import Polyform.Proofs.Text.Enclosing
import Polyform.Proofs.Grid.FixedPoints
import Polyform.Proofs.Binary64.Order

/-!
# The text of a constant

A constant is written as the shortest decimal of its value on the grid, positionally. That text
is a numeral of a fixed form (`Decimal.GridNumeral`): ASCII digits and, when the value is not
whole, a point and one to five digits, the last of them not `0`; no sign, no exponent. It reads
back exactly: the decimal it spells rounds to the truncated double (`Expr.toFloat_constText`), so
the parser reads it as a constant that holds the truncated double itself, the same as the
constant it was written from (`Expr.parse_constText`).
-/

namespace Polyform

open Binary64 Text

namespace Decimal

/-- A numeral of the grid: ASCII digits, then possibly a point and at most `Grid.places` digits,
at least one, the last of them not `0`. -/
inductive GridNumeral : List Char → Prop
  /-- A whole number. -/
  | whole {ws : List Char} : ws ≠ [] → (∀ c ∈ ws, c.isDigit = true) → GridNumeral ws
  /-- A number with a fractional part. -/
  | point {ws fs : List Char} : ws ≠ [] → (∀ c ∈ ws, c.isDigit = true) → fs ≠ [] →
      fs.length ≤ Grid.places → (∀ c ∈ fs, c.isDigit = true) → fs.getLast? ≠ some '0' →
      GridNumeral (ws ++ '.' :: fs)

/-- The last digit of a number is the digit of its remainder by ten. -/
theorem getLast?_digitsOf (n : ℕ) : (digitsOf n).getLast? = some (Nat.digitChar (n % 10)) := by
  rw [digitsOf, Nat.toDigits_eq_if (by norm_num)]
  split
  · rw [Nat.mod_eq_of_lt ‹_›]
    rfl
  · exact List.getLast?_concat

theorem digitChar_ne_zero {k : ℕ} (hk : k < 10) (h0 : k ≠ 0) : Nat.digitChar k ≠ '0' := by
  interval_cases k <;> first | exact absurd rfl h0 | decide

/-- The positional text of a normalized decimal with at most five places is a numeral of the
grid: the digits after the point are the last `-exp` digits of the coefficient, padded with
zeros in front, and the last of them is not `0` because the coefficient has no trailing zero. -/
theorem gridNumeral_plain {d : Decimal} (hd : d.Normalized) (he : -(Grid.places : ℤ) ≤ d.exp) :
    GridNumeral d.plain.toList := by
  have hds : ∀ c ∈ digitsOf d.coeff, c.isDigit = true := fun _ => isDigit_of_mem_digitsOf
  have hzeros : ∀ k, ∀ c ∈ List.replicate k '0', c.isDigit = true := by
    intro k c hc
    rw [(List.mem_replicate.mp hc).2]
    rfl
  have hne : digitsOf d.coeff ≠ [] := Nat.toDigits_ne_nil
  unfold plain
  split
  · rw [String.toList_ofList]
    refine .whole (by simp [hne]) ?_
    simpa [or_imp, forall_and] using And.intro hds (hzeros d.exp.toNat)
  · rename_i hexp
    rw [String.toList_ofList]
    set f := (-d.exp).toNat
    set padded := List.replicate (f + 1 - (digitsOf d.coeff).length) '0' ++ digitsOf d.coeff
    have hpad : ∀ c ∈ padded, c.isDigit = true := by
      simpa [padded, or_imp, forall_and] using
        And.intro (hzeros (f + 1 - (digitsOf d.coeff).length)) hds
    have hplen : f + 1 ≤ padded.length := by simp [padded]; omega
    have hlen : (padded.drop (padded.length - f)).length = f := by simp; omega
    have hf : 1 ≤ f ∧ f ≤ Grid.places := by simp only [Grid.places] at he ⊢; omega
    -- a coefficient with a trailing zero would be normalized to a larger exponent
    have hlast : d.coeff % 10 ≠ 0 := by
      rcases hd with hd | hd
      · exact hd
      · rw [hd] at hexp
        exact absurd le_rfl hexp
    refine .point ?_ (fun c hc => hpad c (List.mem_of_mem_take hc)) ?_ (by omega)
      (fun c hc => hpad c (List.mem_of_mem_drop hc)) ?_
    · rw [← List.length_pos_iff, List.length_take]
      omega
    · rw [← List.length_pos_iff, hlen]
      omega
    · rw [List.getLast?_drop, if_neg (by omega), List.getLast?_append, getLast?_digitsOf]
      simpa using digitChar_ne_zero (Nat.mod_lt _ (by norm_num)) hlast

end Decimal

namespace Binary64

variable {X : ℚ} {y : Float} {u : Finite}

/-- What rounds to the double `u`, when it is above half the least subnormal, converts to `u`. -/
theorem shape_of_roundsTo_of_rounds (hu : u.Canonical) (hX : u.Rounds X)
    (hpos : 2 ^ (-1075 : ℤ) < X) (h : RoundsTo X false y) : shape y = .finite false u := by
  unfold RoundsTo at h
  split at h
  · exact absurd h.2 (not_le.mpr hpos)
  · rename_i b w hw
    obtain ⟨rfl, hw'⟩ := h
    rw [hw, Finite.Canonical.eq_of_rounds (canonical_of_shape hw) hu hw' hX]
  · exact absurd h.2 (not_le.mpr (hu.lt_overflow_of_rounds hX))
  · exact h.elim

/-- What zero converts to is `+0.0`. -/
theorem shape_of_roundsTo_zero (h : RoundsTo 0 false y) : shape y = .zero false := by
  unfold RoundsTo at h
  split at h
  · rename_i b hb
    rw [hb, h.1]
  · rename_i b w hw
    exact absurd h.2 (fun hR => lt_irrefl _ (Finite.pos_of_rounds (canonical_of_shape hw).pos hR))
  · have : (0 : ℚ) < 2 ^ 1024 - 2 ^ 970 :=
      lt_trans (by positivity) two_pow_53_lt_overflow
    exact absurd h.2 (not_le.mpr this)
  · exact h.elim

/-- Adding `0.0` leaves a double that a constant may hold as it is. -/
theorem add_zero_of_isMagnitude {t : Float} (ht : isMagnitude t = true) : t + 0.0 = t := by
  have h0 : shape (0.0 : Float) = .zero false := by decide
  rcases shape_of_isMagnitude ht with h | ⟨w, h⟩
  · exact eq_of_shape_eq ((shape_add_zeros h h0).trans h.symm) (by rw [shape_add_zeros h h0]; simp)
  · exact eq_of_shape_eq ((shape_add_zero_right h h0).trans h.symm)
      (by rw [shape_add_zero_right h h0]; simp)

/-- A double equals itself under `==` when a constant may hold it. -/
theorem beq_self_of_isMagnitude {t : Float} (ht : isMagnitude t = true) : (t == t) = true := by
  rcases shape_of_isMagnitude ht with h | ⟨w, h⟩
  · exact beq_zero h h
  · exact (beq_iff_val_eq h h).mpr rfl

end Binary64

namespace Expr

variable {x : Float}

/-- The text of a constant that may exist is a numeral of the grid. -/
theorem gridNumeral_constText (hx : isMagnitude x = true) :
    Decimal.GridNumeral (constText x).toList := by
  rw [constText, decimal_eq_decimalOfShape]
  rcases Grid.onGrid_truncate hx with h | ⟨w, h, hg⟩ <;> rw [h]
  · exact Decimal.gridNumeral_plain Decimal.normalized_zero (by simp [decimalOfShape, Grid.places])
  · exact Decimal.gridNumeral_plain (Finite.normalized_shortest w)
      (by simpa [decimalOfShape, Grid.places] using
        (canonical_of_shape h).neg_five_le_exp_shortest hg)

/-- The numeral a constant is written as converts to the truncated double exactly. -/
theorem toFloat_constText (hx : isMagnitude x = true) :
    ∃ e, Decimal.ofNumeral? (CodePoint.ofString (constText x)) = some e ∧
      e.toFloat = Grid.truncate x := by
  obtain ⟨e, he, hval⟩ := Decimal.ofNumeral_plain (Grid.decimal x)
  have hR := roundsTo_toFloat e
  rw [hval, decimal_eq_decimalOfShape] at hR
  refine ⟨e, he, ?_⟩
  rcases Grid.onGrid_truncate hx with h | ⟨w, h, hg⟩ <;> rw [h] at hR
  · have hs := shape_of_roundsTo_zero (by simpa [decimalOfShape, Decimal.val] using hR)
    exact eq_of_shape_eq (hs.trans h.symm) (by rw [hs]; simp)
  · -- the shortest decimal of a double on the grid is at least `10 ^ -5`, far above zero
    have hw := canonical_of_shape h
    have hpos : (2 : ℚ) ^ (-1075 : ℤ) < w.shortest.val :=
      lt_of_lt_of_le (lt_of_le_of_lt (zpow_le_zpow_right₀ (by norm_num) (by norm_num : (-1075 : ℤ) ≤ -17))
        (by norm_num)) (hw.le_val_shortest hw hg le_rfl)
    have hs := shape_of_roundsTo_of_rounds hw (Finite.rounds_shortest hw.pos) hpos hR
    exact eq_of_shape_eq (hs.trans h.symm) (by rw [hs]; simp)

/-- A text of digits, points and letters only is read as one atom: it is balanced, has no
blank at its ends and no parenthesis around it, and holds neither `+` nor `*` to be cut at. -/
theorem parse_of_word {s : List CodePoint} (hne : s ≠ [])
    (hs : ∀ c ∈ s, c.isDigit = true ∨ c = .ofChar '.' ∨ c.isAsciiLetter = true) :
    parse s = atom s := by
  have hword : ∀ c ∈ s, Grammar.Quiet c ∧ isBlank c = false := fun c hc =>
    Grammar.quiet_of_word (hs c hc)
  have hread := Grammar.parseGroup_unwrap_word Grammar.blanks_nil Grammar.blanks_nil hne hword
  rw [List.nil_append, List.append_nil] at hread
  unfold parse
  rw [balance_eq_balanced_iff.mpr (balanced_of_forall fun c hc => (hword c hc).1.1), hread]

/-- The text of a constant is read back as a constant holding the truncated double: it is a
numeral, and its decimal converts to that double, which is finite. -/
theorem parse_constText (hx : isMagnitude x = true) :
    parse (CodePoint.ofString (constText x)) = .ok (const (Grid.truncate x)) := by
  obtain ⟨e, he, hfloat⟩ := toFloat_constText hx
  have hinf : e.toFloat.isInf = false := hfloat ▸ Grid.isInf_truncate hx
  rw [parse_of_word (Decimal.ne_nil_of_ofNumeral he)
    fun c hc => (mem_constText hc).elim .inl (.inr ∘ .inl), atom, he]
  simp only [hinf, Bool.false_eq_true, if_false]
  rw [hfloat, add_zero_of_isMagnitude (Grid.isMagnitude_truncate hx)]

/-- The value a constant keeps is the number it was given, with `-0.0` turned into `0.0`; both
truncate to doubles that are equal under `==`. -/
theorem beq_truncate_of_toMagnitude? {d : Datum} {f : Float} (h : d.toMagnitude? = .ok x)
    (hf : d.toNumber? = .ok f) : (Grid.truncate x == Grid.truncate f) = true := by
  have h0 : shape (0.0 : Float) = .zero false := by decide
  rw [Datum.toMagnitude?_of_toNumber? hf] at h
  split_ifs at h with hfin hneg
  cases h
  simp only [Bool.or_eq_true, not_or, Bool.not_eq_true] at hfin
  obtain ⟨hnan, hinf⟩ := hfin
  rcases hs : shape f with _ | b | b | ⟨b, v⟩
  · rw [isNaN_iff.mpr hs] at hnan
    exact absurd hnan (by decide)
  · rw [isInf_iff.mpr ⟨b, hs⟩] at hinf
    exact absurd hinf (by decide)
  · -- a zero of either sign: both are left as they are, and zeros are equal
    rw [Grid.truncate_of_zero (shape_add_zero_zero hs h0), Grid.truncate_of_zero hs]
    exact beq_zero (shape_add_zero_zero hs h0) hs
  · cases b with
    | true => exact absurd (lt_zero_of_shape hs) hneg
    | false =>
      rw [add_zero_of_isMagnitude (isMagnitude_of_shape_finite hs)]
      exact beq_self_of_isMagnitude (Grid.isMagnitude_truncate (isMagnitude_of_shape_finite hs))

/-- Constant text is exact and reads back. For every value that a constant accepts, its text is a
numeral of the grid, with no sign and no exponent; the numeral converts to the truncated double
exactly, and to a double equal to the truncation of the number given; and the parser reads the
text as a constant holding the truncated double, the same as the constant itself. -/
theorem constText_reads_back {d : Datum} (h : d.toMagnitude? = .ok x) :
    Decimal.GridNumeral (const x).render.toList ∧
      (∃ e, Decimal.ofNumeral? (CodePoint.ofString (const x).render) = some e ∧
        e.toFloat = Grid.truncate x ∧
        ∀ f, d.toNumber? = .ok f → (e.toFloat == Grid.truncate f) = true) ∧
      parse (CodePoint.ofString (const x).render) = .ok (const (Grid.truncate x)) ∧
      same (const (Grid.truncate x)) (const x) = true := by
  have hx := Datum.isMagnitude_of_toMagnitude? h
  obtain ⟨e, he, hfloat⟩ := toFloat_constText hx
  refine ⟨gridNumeral_constText hx, ⟨e, he, hfloat, fun f hf => ?_⟩, parse_constText hx, ?_⟩
  · rw [hfloat]
    exact beq_truncate_of_toMagnitude? h hf
  · rw [same_const_iff (Grid.isMagnitude_truncate hx) hx, constText, constText,
      Grid.decimal_truncate hx]

/-- `0.123456` is kept as given and written `0.12345`, which reads back as its truncation. -/
theorem constText_of_six_places :
    (Datum.float 0.123456).toMagnitude? = .ok 0.123456 ∧
      Decimal.GridNumeral (const 0.123456).render.toList ∧
      (∃ e, Decimal.ofNumeral? (CodePoint.ofString (const 0.123456).render) = some e ∧
        e.toFloat = Grid.truncate 0.123456 ∧
        ∀ f, (Datum.float 0.123456).toNumber? = .ok f → (e.toFloat == Grid.truncate f) = true) ∧
      parse (CodePoint.ofString (const 0.123456).render) = .ok (const (Grid.truncate 0.123456)) ∧
      same (const (Grid.truncate 0.123456)) (const 0.123456) = true := by
  have h : (Datum.float 0.123456).toMagnitude? = .ok 0.123456 := rfl
  exact ⟨h, constText_reads_back h⟩

end Expr

end Polyform
