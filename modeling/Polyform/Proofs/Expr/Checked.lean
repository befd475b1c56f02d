import Mathlib
import Polyform.Recipe
import Polyform.Proofs.Expr.Reading

/-!
# The combinators refuse exactly the bad arguments

Every combinator checks its argument before it builds anything, and the check is the only place
where it can fail. A sum or a product needs an expression and refuses a plain value with a type
fault; a variable needs a non-empty name of ASCII letters and refuses anything else, an
expression included, with a name fault; a constant needs a number that a constant may hold and
refuses anything else, an expression included, with a constant fault (`Datum.IsMagnitude`: an
integer that is not negative and below the least one that rounds past the largest double, or a
double that is not NaN, not infinite and not below zero). `Checked c P k` says that `c` succeeds
when `P` holds and fails with a fault of kind `k` when it does not.

Once the argument passes, nothing else can fail: the combinators are total, and every constant
they build from sums, doublings and products of held values is a magnitude again, since overflow
saturates (`Expr.valid_addExpr`, …). So a step applied to a valid expression either gives a valid
expression, when its argument is acceptable, or the fault of its argument's kind
(`Step.apply_refuses_exactly_bad_arguments`). Every expression that a recipe builds is valid
(`Recipe.valid_of_run`), so this covers every expression there is.
-/

namespace Polyform

namespace Binary64

open Float.Model UnpackedFloat

variable {x y : Float} {b : Bool} {v : Finite}

/-! ## Signs and the checks of a constant -/

theorem unpack_of_shape_infinite (h : shape x = .infinite b) :
    x.toModel.unpack = .infinity (signOf b) := by
  rw [shape_eq_shapeOf] at h
  generalize x.toModel.unpack = u at h ⊢
  cases u with
  | infinity s => rw [signOf_of_beq (Shape.infinite.inj h)]
  | _ => simp [shapeOf] at h

theorem shape_pack_infinity (s : Sign) :
    shape (.ofModel (Float.Model.pack (.infinity s))) = .infinite (s == .negative) := by
  rw [shape_ofModel_pack]
  simp only [UnpackedFloat.pack, packedInfinity, UnpackedFloat.unpack,
    unpackMantissa_packComponents, unpackExponent_packComponents, sign_packComponents]
  simp [shapeOf]

/-- A double is NaN exactly when its shape is. -/
theorem isNaN_iff : x.isNaN = true ↔ shape x = .nan := by
  rw [shape_eq_shapeOf]
  show x.toModel.unpack.isNaN = true ↔ _
  cases x.toModel.unpack <;> simp [UnpackedFloat.isNaN, shapeOf]

/-- A finite double is not infinite. -/
theorem isInf_eq_false_of_shape_finite (h : shape x = .finite b v) : x.isInf = false :=
  Bool.eq_false_iff.mpr fun hi => by
    obtain ⟨c, hc⟩ := isInf_iff.mp hi
    rw [h] at hc
    cases hc

theorem shape_neg_finite (h : shape x = .finite b v) : shape (-x) = .finite (!b) v := by
  show shape (.ofModel (Float.Model.pack x.toModel.unpack.neg)) = _
  rw [unpack_of_shape_finite h]
  have := shape_pack_canonical (canonical_of_shape h) (-signOf b)
  cases b <;> exact this

theorem shape_neg_infinite (h : shape x = .infinite b) : shape (-x) = .infinite (!b) := by
  show shape (.ofModel (Float.Model.pack x.toModel.unpack.neg)) = _
  rw [unpack_of_shape_infinite h]
  have := shape_pack_infinity (-signOf b)
  cases b <;> exact this

theorem shape_add_zero_zero (hx : shape x = .zero b) (hy : shape y = .zero false) :
    shape (x + y) = .zero false := by
  show shape (.ofModel (Float.Model.pack (UnpackedFloat.add .binary64 x.toModel.unpack
    y.toModel.unpack))) = _
  rw [unpack_of_shape_zero hx, unpack_of_shape_zero hy]
  cases b <;> exact shape_pack_zero .positive

/-- A finite double with its sign bit set is below zero. -/
theorem lt_zero_of_shape (h : shape x = .finite true v) : x < 0 := by
  have h0 : shape (0 : Float) = .zero false := by decide
  rw [lt_iff_compare, unpack_of_shape_finite h, unpack_of_shape_zero h0]
  rfl

/-- A magnitude passes every check of a constant. -/
theorem checks_of_isMagnitude (h : isMagnitude x = true) :
    x.isNaN = false ∧ x.isInf = false ∧ ¬x < 0 := by
  have h0 : shape (0 : Float) = .zero false := by decide
  have hnan : shape x ≠ .nan := fun hs => by simp [isMagnitude, hs] at h
  have hinf : ∀ b, shape x ≠ .infinite b := fun b hs => by simp [isMagnitude, hs] at h
  refine ⟨Bool.eq_false_iff.mpr (mt isNaN_iff.mp hnan),
    Bool.eq_false_iff.mpr fun hi => (isInf_iff.mp hi).elim hinf, ?_⟩
  rw [lt_iff_compare, unpack_of_shape_zero h0]
  rcases shape_of_isMagnitude h with hs | ⟨v, hs⟩
  · rw [unpack_of_shape_zero hs]
    decide
  · rw [unpack_of_shape_finite hs]
    simp [signOf, UnpackedFloat.compare]

/-- A double that passes the checks of a constant gives a magnitude once zero is added: `-0.0`
becomes `0.0`, and every other such double is a magnitude already. -/
theorem isMagnitude_add_zero (hn : x.isNaN = false) (hi : x.isInf = false) (hlt : ¬x < 0) :
    isMagnitude (x + 0.0) = true := by
  have h0 : shape (0.0 : Float) = .zero false := by decide
  rcases hs : shape x with _ | b | b | ⟨b, v⟩
  · rw [isNaN_iff.mpr hs] at hn
    exact absurd hn (by decide)
  · rw [isInf_iff.mpr ⟨b, hs⟩] at hi
    exact absurd hi (by decide)
  · exact isMagnitude_of_shape_zero (shape_add_zero_zero hs h0)
  · cases b with
    | true => exact absurd (lt_zero_of_shape hs) hlt
    | false => exact isMagnitude_of_shape_finite (shape_add_zero_right hs h0)

end Binary64

open Binary64

/-! ## Checked computations -/

/-- A checked computation: it succeeds when `P` holds, and fails with a fault of kind `k` when
it does not. -/
def Checked {α : Type} (c : Except Fault α) (P : Prop) (k : Fault.Kind) : Prop :=
  (P → ∃ a, c = .ok a) ∧ (¬P → ∃ f, c = .error f ∧ f.kind = k)

namespace Checked

variable {α β : Type} {c : Except Fault α} {P Q : Prop} {k : Fault.Kind}

theorem of_ok {a : α} (hP : P) (h : c = .ok a) : Checked c P k :=
  ⟨fun _ => ⟨a, h⟩, fun hn => absurd hP hn⟩

theorem of_error {f : Fault} (hP : ¬P) (h : c = .error f) (hk : f.kind = k) : Checked c P k :=
  ⟨fun hp => absurd hp hP, fun _ => ⟨f, h, hk⟩⟩

theorem congr (h : Checked c P k) (hPQ : P ↔ Q) : Checked c Q k :=
  ⟨fun hq => h.1 (hPQ.mpr hq), fun hq => h.2 (mt hPQ.mp hq)⟩

/-- Building from what a check gives keeps the check. -/
theorem bind_pure (h : Checked c P k) (g : α → β) :
    Checked (c >>= fun a => pure (g a)) P k := by
  obtain ⟨hok, herr⟩ := h
  refine ⟨fun hp => ?_, fun hp => ?_⟩
  · obtain ⟨a, ha⟩ := hok hp
    exact ⟨g a, by rw [ha]; rfl⟩
  · obtain ⟨f, hf, hk⟩ := herr hp
    exact ⟨f, by rw [hf]; rfl, hk⟩

end Checked

/-! ## The checks of supplied values -/

namespace Datum

/-- A supplied value that a constant accepts: an integer that is not negative and is below
`2 ^ 1024 - 2 ^ 970`, the least integer that rounds past the largest double, or a double that is
not NaN, not infinite and not below zero. A truth value is not a number here. -/
def IsMagnitude (d : Datum) : Prop :=
  (∃ n : ℤ, d = .int n ∧ 0 ≤ n ∧ n.natAbs < 2 ^ 1024 - 2 ^ 970) ∨
    ∃ x : Float, d = .float x ∧ x.isNaN = false ∧ x.isInf = false ∧ ¬x < 0

/-- A supplied value that a variable accepts: a non-empty text of ASCII letters. -/
def IsName (d : Datum) : Prop :=
  ∃ s, d = .str s ∧ isName s = true

variable {d : Datum} {x : Float} {n : ℤ}

theorem isMagnitude_int_iff :
    (Datum.int n).IsMagnitude ↔ 0 ≤ n ∧ n.natAbs < 2 ^ 1024 - 2 ^ 970 := by
  simp only [IsMagnitude, Datum.int.injEq, exists_eq_left', reduceCtorEq, false_and, exists_false,
    or_false]

theorem isMagnitude_float_iff :
    (Datum.float x).IsMagnitude ↔ x.isNaN = false ∧ x.isInf = false ∧ ¬x < 0 := by
  simp only [IsMagnitude, Datum.float.injEq, exists_eq_left', reduceCtorEq, false_and, exists_false,
    false_or]

/-- The checks that follow the reading of a number: not NaN, not infinite, not negative. -/
theorem toMagnitude?_of_toNumber? (h : d.toNumber? = .ok x) :
    d.toMagnitude? = if x.isNaN || x.isInf then .error (.notFinite x)
      else if x < 0 then .error (.negative x) else .ok (x + 0.0) := by
  rw [toMagnitude?, h]
  simp only [bind, Except.bind]
  split_ifs <;> rfl

theorem toMagnitude?_of_toNumber?_error {f : Fault} (h : d.toNumber? = .error f) :
    d.toMagnitude? = .error f := by
  rw [toMagnitude?, h]
  rfl

theorem checked_finiteNonneg (x : Float) :
    Checked (if x.isNaN || x.isInf then .error (.notFinite x)
      else if x < 0 then .error (.negative x) else .ok (x + 0.0))
      (x.isNaN = false ∧ x.isInf = false ∧ ¬x < 0) .constant := by
  split_ifs with hfin hneg
  · refine .of_error (fun ⟨hn, hi, _⟩ => ?_) rfl rfl
    rw [hn, hi] at hfin
    exact absurd hfin (by decide)
  · exact .of_error (fun h => h.2.2 hneg) rfl rfl
  · simp only [Bool.or_eq_true, not_or, Bool.not_eq_true] at hfin
    exact .of_ok ⟨hfin.1, hfin.2, hneg⟩ rfl

theorem roundsTo_natAbs (n : ℤ) :
    RoundsTo (n.natAbs : ℚ) false (Decimal.toFloat ⟨n.natAbs, 0⟩) := by
  simpa [Decimal.val] using roundsTo_toFloat ⟨n.natAbs, 0⟩

theorem isInf_natAbs_iff (n : ℤ) :
    (Decimal.toFloat ⟨n.natAbs, 0⟩).isInf = true ↔ 2 ^ 1024 - 2 ^ 970 ≤ n.natAbs := by
  have hcast : ((2 ^ 1024 - 2 ^ 970 : ℕ) : ℚ) = 2 ^ 1024 - 2 ^ 970 := by
    rw [Nat.cast_sub (Nat.pow_le_pow_right (by norm_num) (by norm_num))]
    simp only [Nat.cast_pow, Nat.cast_ofNat]
  rw [isInf_toFloat_iff, ← hcast, Decimal.val, zpow_zero, mul_one, Nat.cast_le]

/-- A negative integer is refused: either it rounds past the largest double, or it rounds to a
double below zero. -/
theorem toMagnitude?_neg (hn : n < 0) : ∃ f, (Datum.int n).toMagnitude? = .error f ∧
    f.kind = .constant := by
  have hX := roundsTo_natAbs n
  have hone : (1 : ℚ) ≤ n.natAbs := by exact_mod_cast Int.natAbs_pos.mpr hn.ne
  have hneg : intToFloat n = -Decimal.toFloat ⟨n.natAbs, 0⟩ := by simp [intToFloat, hn]
  unfold RoundsTo at hX
  rcases hs : shape (Decimal.toFloat ⟨n.natAbs, 0⟩) with _ | b | b | ⟨b, v⟩ <;> rw [hs] at hX
  · exact hX.elim
  · -- beyond the doubles: refused as too large
    have hinf : (intToFloat n).isInf = true := by
      rw [hneg]
      exact isInf_iff.mpr ⟨_, shape_neg_infinite hs⟩
    exact ⟨.numberTooLarge n, toMagnitude?_of_toNumber?_error (by simp [toNumber?, hinf]), rfl⟩
  · -- a number of at least one does not round to zero
    obtain ⟨-, hle⟩ := hX
    have hsmall : (2 : ℚ) ^ (-1075 : ℤ) < 1 := zpow_lt_one_of_neg₀ (by norm_num) (by norm_num)
    exact absurd (hone.trans hle) (not_le.mpr hsmall)
  · -- a finite double: its negation is finite too, and below zero
    obtain ⟨rfl, -⟩ := hX
    have hs' : shape (intToFloat n) = .finite true v := by
      rw [hneg]
      exact shape_neg_finite hs
    have hnum : (Datum.int n).toNumber? = .ok (intToFloat n) := by
      simp [toNumber?, isInf_eq_false_of_shape_finite hs']
    rw [toMagnitude?_of_toNumber? hnum]
    exact (checked_finiteNonneg _).2 fun h => h.2.2 (lt_zero_of_shape hs')

theorem checked_toMagnitude (d : Datum) : Checked d.toMagnitude? d.IsMagnitude .constant := by
  cases d with
  | int n =>
    rcases lt_or_ge n 0 with hn | hn
    · obtain ⟨f, hf, hk⟩ := toMagnitude?_neg hn
      exact .of_error (by rw [isMagnitude_int_iff]; omega) hf hk
    · have hpos : intToFloat n = Decimal.toFloat ⟨n.natAbs, 0⟩ := by
        simp [intToFloat, not_lt.mpr hn]
      by_cases hinf : (intToFloat n).isInf = true
      · -- too large for a double
        have hbig := (isInf_natAbs_iff n).mp (hpos ▸ hinf)
        have hnum : (Datum.int n).toNumber? = .error (.numberTooLarge n) := by
          simp [toNumber?, hinf]
        exact .of_error (by rw [isMagnitude_int_iff]; omega) (toMagnitude?_of_toNumber?_error hnum)
          rfl
      · -- within the doubles, the number rounds to a magnitude, which passes every check
        have hinf' : (intToFloat n).isInf = false := by simpa using hinf
        have hsmall : n.natAbs < 2 ^ 1024 - 2 ^ 970 := by
          rw [hpos, isInf_natAbs_iff] at hinf
          omega
        have hmag : isMagnitude (intToFloat n) = true :=
          isMagnitude_of_roundsTo (hpos ▸ roundsTo_natAbs n) hinf'
        have hnum : (Datum.int n).toNumber? = .ok (intToFloat n) := by simp [toNumber?, hinf']
        rw [toMagnitude?_of_toNumber? hnum]
        exact (checked_finiteNonneg _).congr ⟨fun _ => .inl ⟨n, rfl, hn, hsmall⟩,
          fun _ => checks_of_isMagnitude hmag⟩
  | float x =>
    rw [toMagnitude?_of_toNumber? rfl]
    exact (checked_finiteNonneg x).congr isMagnitude_float_iff.symm
  | _ =>
    -- a truth value, a text, a list or a map is not a number
    exact .of_error (by simp only [IsMagnitude, reduceCtorEq, false_and, exists_false, or_self,
      not_false_eq_true]) rfl rfl

/-- An accepted number is held as a magnitude. -/
theorem isMagnitude_of_toMagnitude? (h : d.toMagnitude? = .ok x) : isMagnitude x = true := by
  have h' := h
  unfold toMagnitude? at h'
  obtain ⟨y, hy, -⟩ := exists_of_bind_eq_ok h'
  rw [toMagnitude?_of_toNumber? hy] at h
  split_ifs at h with hfin hneg
  cases h
  simp only [Bool.or_eq_true, not_or, Bool.not_eq_true] at hfin
  exact isMagnitude_add_zero hfin.1 hfin.2 hneg

theorem checked_toName (d : Datum) : Checked d.toName? d.IsName .name := by
  cases d with
  | str s =>
    by_cases hs : isName s = true
    · have hne : s.isEmpty = false := by
        simp only [isName, Bool.and_eq_true, Bool.not_eq_true'] at hs
        exact hs.1
      exact .of_ok ⟨s, rfl, hs⟩
        (show (Datum.str s).toName? = .ok (CodePoint.asString s) by simp [toName?, hne, hs])
    · by_cases he : s.isEmpty = true
      · exact .of_error (by simp [IsName, hs])
          (show (Datum.str s).toName? = .error (.notName (.plain (.str s))) by simp [toName?, he])
          rfl
      · exact .of_error (by simp [IsName, hs])
          (show (Datum.str s).toName? = .error (.badName s) by simp [toName?, he, hs]) rfl
  | _ => exact .of_error (by simp [IsName]) rfl rfl

/-- An accepted name is a valid variable name. -/
theorem isVarName_of_toName? {name : String} (h : d.toName? = .ok name) :
    Expr.isVarName name = true := by
  cases d with
  | str s =>
    simp only [toName?] at h
    split_ifs at h with he hs
    cases h
    exact Expr.isVarName_asString hs
  | _ => cases h

end Datum

namespace Operand

/-- An operand that a constant accepts: a plain value that is a number a constant may hold. An
expression is not a number. -/
def IsMagnitude (x : Operand) : Prop :=
  ∃ d, x = .plain d ∧ d.IsMagnitude

/-- An operand that a variable accepts: a plain value that is a name. An expression is not a
text. -/
def IsName (x : Operand) : Prop :=
  ∃ d, x = .plain d ∧ d.IsName

variable {x : Operand} {d : Datum} {y : Float}

@[simp]
theorem isMagnitude_plain : (Operand.plain d).IsMagnitude ↔ d.IsMagnitude := by
  simp [IsMagnitude]

@[simp]
theorem not_isMagnitude_expr (b : Expr) : ¬(Operand.expr b).IsMagnitude := by
  simp [IsMagnitude]

@[simp]
theorem isName_plain : (Operand.plain d).IsName ↔ d.IsName := by
  simp [IsName]

@[simp]
theorem not_isName_expr (b : Expr) : ¬(Operand.expr b).IsName := by
  simp [IsName]

theorem checked_toMagnitude (x : Operand) : Checked x.toMagnitude? x.IsMagnitude .constant := by
  cases x with
  | plain d => exact (Datum.checked_toMagnitude d).congr isMagnitude_plain.symm
  | expr b => exact .of_error (not_isMagnitude_expr b) rfl rfl

example : (Operand.expr (.var "y")).toMagnitude? = .error (.notNumber (.expr (.var "y"))) ∧
    (Fault.notNumber (.expr (.var "y"))).message = "Constants must be numbers, got y." :=
  ⟨rfl, by decide⟩

theorem isMagnitude_of_toMagnitude? (h : x.toMagnitude? = .ok y) : isMagnitude y = true := by
  cases x with
  | plain d => exact Datum.isMagnitude_of_toMagnitude? h
  | expr b => cases h

theorem checked_toName (x : Operand) : Checked x.toName? x.IsName .name := by
  cases x with
  | plain d => exact (Datum.checked_toName d).congr isName_plain.symm
  | expr b => exact .of_error (not_isName_expr b) rfl rfl

theorem isVarName_of_toName? {name : String} (h : x.toName? = .ok name) :
    Expr.isVarName name = true := by
  cases x with
  | plain d => exact Datum.isVarName_of_toName? h
  | expr b => cases h

theorem checked_toExpr (x : Operand) : Checked x.toExpr? (∃ b, x = .expr b) .type := by
  cases x with
  | expr b => exact .of_ok ⟨b, rfl⟩ rfl
  | plain d => exact .of_error (by simp) rfl rfl

theorem eq_expr_of_toExpr? {x : Operand} {b : Expr} (h : x.toExpr? = .ok b) : x = .expr b := by
  cases x with
  | expr c => cases h; rfl
  | plain d => cases h

end Operand

/-! ## Steps -/

namespace Step

/-- The kind of fault with which a step refuses a bad argument. -/
def faultKind : Step → Fault.Kind
  | .scale _ => .constant
  | .addConst _ => .constant
  | .mulVar _ => .name
  | .addVar _ => .name
  | .mulExpr _ => .type
  | .addExpr _ => .type

/-- Whether a step accepts its argument: an operand that is an expression for a sum or a product,
a name for a variable, a number that a constant may hold for a constant. -/
def Accepts : Step → Prop
  | .scale n => n.IsMagnitude
  | .addConst n => n.IsMagnitude
  | .mulVar name => name.IsName
  | .addVar name => name.IsName
  | .mulExpr arg => ∃ b, arg.run = .ok (.expr b)
  | .addExpr arg => ∃ b, arg.run = .ok (.expr b)

/-- Whether the argument of a step is there to be checked: a recipe argument builds an operand,
and a supplied operand always is. -/
def Built : Step → Prop
  | .scale _ => True
  | .addConst _ => True
  | .mulVar _ => True
  | .addVar _ => True
  | .mulExpr arg => ∃ x, arg.run = .ok x
  | .addExpr arg => ∃ x, arg.run = .ok x

variable {arg : Recipe} {x : Operand} {e : Expr}

theorem apply_addExpr (h : arg.run = .ok x) :
    (Step.addExpr arg).apply e = (x.toExpr? >>= fun b => pure (e.addExpr b)) := by
  rw [Step.apply, h]
  rfl

theorem apply_mulExpr (h : arg.run = .ok x) :
    (Step.mulExpr arg).apply e = (x.toExpr? >>= fun b => pure (e.mulExpr b)) := by
  rw [Step.apply, h]
  rfl

theorem accepts_iff (h : arg.run = .ok x) :
    (∃ b, arg.run = .ok (.expr b)) ↔ ∃ b, x = .expr b := by
  simp [h]

/-- Each step checks its argument, and nothing else can make it fail. -/
theorem checked_apply {s : Step} (hs : s.Built) (e : Expr) :
    Checked (s.apply e) s.Accepts s.faultKind := by
  cases s with
  | addExpr arg =>
    obtain ⟨x, hx⟩ := hs
    rw [apply_addExpr hx]
    exact ((Operand.checked_toExpr x).bind_pure _).congr (accepts_iff hx).symm
  | mulExpr arg =>
    obtain ⟨x, hx⟩ := hs
    rw [apply_mulExpr hx]
    exact ((Operand.checked_toExpr x).bind_pure _).congr (accepts_iff hx).symm
  | addVar name => exact (Operand.checked_toName name).bind_pure _
  | mulVar name => exact (Operand.checked_toName name).bind_pure _
  | addConst n => exact (Operand.checked_toMagnitude n).bind_pure _
  | scale n => exact (Operand.checked_toMagnitude n).bind_pure _

end Step

/-! ## Every built expression is valid -/

namespace Expr

/-- An operand that is read is a text, read as the text is. -/
theorem text_of_parse? {x : Operand} {e : Expr} (h : parse? x = .ok e) :
    ∃ s, x = .plain (.str s) ∧ parse s = .ok e := by
  cases x with
  | plain d =>
    cases d with
    | str s => exact ⟨s, rfl, h⟩
    | _ => cases h
  | expr b => cases h

theorem reachable_of_parse? {x : Operand} {e : Expr} (h : parse? x = .ok e) : Reachable e := by
  obtain ⟨s, -, hs⟩ := text_of_parse? h
  exact reachable_of_parse hs

end Expr

mutual

/-- Every expression a recipe builds is valid: the checks stand in front of every leaf, and the
combinators keep validity. -/
theorem Recipe.valid_of_run : ∀ {r : Recipe} {e : Expr}, r.run = .ok (.expr e) → e.valid = true
  | .const n, e, h => by
    rw [Recipe.run] at h
    obtain ⟨x, hx, h⟩ := exists_of_bind_eq_ok h
    cases h
    exact Operand.isMagnitude_of_toMagnitude? hx
  | .var name, e, h => by
    rw [Recipe.run] at h
    obtain ⟨n, hn, h⟩ := exists_of_bind_eq_ok h
    cases h
    exact Operand.isVarName_of_toName? hn
  | .plain d, e, h => by
    rw [Recipe.run] at h
    cases h
  | .sum a b, e, h => by
    rw [Recipe.run] at h
    obtain ⟨x, hx, h⟩ := exists_of_bind_eq_ok h
    obtain ⟨y, hy, h⟩ := exists_of_bind_eq_ok h
    obtain ⟨l, hl, h⟩ := exists_of_bind_eq_ok h
    obtain ⟨r, hr, h⟩ := exists_of_bind_eq_ok h
    cases h
    rw [Operand.eq_expr_of_toExpr? hl] at hx
    rw [Operand.eq_expr_of_toExpr? hr] at hy
    simp [Recipe.valid_of_run hx, Recipe.valid_of_run hy]
  | .prod a b, e, h => by
    rw [Recipe.run] at h
    obtain ⟨x, hx, h⟩ := exists_of_bind_eq_ok h
    obtain ⟨y, hy, h⟩ := exists_of_bind_eq_ok h
    obtain ⟨l, hl, h⟩ := exists_of_bind_eq_ok h
    obtain ⟨r, hr, h⟩ := exists_of_bind_eq_ok h
    cases h
    rw [Operand.eq_expr_of_toExpr? hl] at hx
    rw [Operand.eq_expr_of_toExpr? hr] at hy
    simp [Recipe.valid_of_run hx, Recipe.valid_of_run hy]
  | .parse text, e, h => by
    rw [Recipe.run] at h
    obtain ⟨p, hp, h⟩ := exists_of_bind_eq_ok h
    cases h
    exact Expr.valid_of_reachable (Expr.reachable_of_parse? hp)
  | .call on s, e, h => by
    rw [Recipe.run] at h
    obtain ⟨x, hx, h⟩ := exists_of_bind_eq_ok h
    obtain ⟨a, ha, h⟩ := exists_of_bind_eq_ok h
    obtain ⟨r, hr, h⟩ := exists_of_bind_eq_ok h
    cases h
    rw [Operand.eq_expr_of_toExpr? ha] at hx
    exact Step.valid_of_apply (Recipe.valid_of_run hx) hr

/-- A step applied to a valid expression gives a valid expression. -/
theorem Step.valid_of_apply : ∀ {s : Step} {e r : Expr}, e.valid = true → s.apply e = .ok r →
    r.valid = true
  | .addExpr arg, e, r, he, h => by
    rw [Step.apply] at h
    obtain ⟨y, hy, h⟩ := exists_of_bind_eq_ok h
    obtain ⟨b, hb, h⟩ := exists_of_bind_eq_ok h
    cases h
    rw [Operand.eq_expr_of_toExpr? hb] at hy
    exact Expr.valid_addExpr he (Recipe.valid_of_run hy)
  | .mulExpr arg, e, r, he, h => by
    rw [Step.apply] at h
    obtain ⟨y, hy, h⟩ := exists_of_bind_eq_ok h
    obtain ⟨b, hb, h⟩ := exists_of_bind_eq_ok h
    cases h
    rw [Operand.eq_expr_of_toExpr? hb] at hy
    exact Expr.valid_mulExpr he (Recipe.valid_of_run hy)
  | .addVar d, e, r, he, h => by
    rw [Step.apply] at h
    obtain ⟨n, hn, h⟩ := exists_of_bind_eq_ok h
    cases h
    exact Expr.valid_addVar he (Operand.isVarName_of_toName? hn)
  | .mulVar d, e, r, he, h => by
    rw [Step.apply] at h
    obtain ⟨n, hn, h⟩ := exists_of_bind_eq_ok h
    cases h
    exact Expr.valid_mulVar he (Operand.isVarName_of_toName? hn)
  | .addConst d, e, r, he, h => by
    rw [Step.apply] at h
    obtain ⟨x, hx, h⟩ := exists_of_bind_eq_ok h
    cases h
    exact Expr.valid_addConst he (Operand.isMagnitude_of_toMagnitude? hx)
  | .scale d, e, r, he, h => by
    rw [Step.apply] at h
    obtain ⟨x, hx, h⟩ := exists_of_bind_eq_ok h
    cases h
    exact Expr.valid_scale he (Operand.isMagnitude_of_toMagnitude? hx)

end

namespace Step

variable {s : Step} {e : Expr}

/-- A combinator applied to any valid expression fails exactly when its argument is bad, with
the fault of its argument's kind: a type fault for an operand that is not an expression, a name
fault for a name that is not a non-empty text of ASCII letters, a constant fault for a value that
is not a number a constant may hold. Every other call succeeds, and what it builds is valid. -/
theorem apply_refuses_exactly_bad_arguments (hs : s.Built) (he : e.valid = true) :
    (s.Accepts → ∃ r, s.apply e = .ok r ∧ r.valid = true) ∧
      (¬s.Accepts → ∃ f, s.apply e = .error f ∧ f.kind = s.faultKind) := by
  obtain ⟨hok, herr⟩ := checked_apply hs e
  refine ⟨fun h => ?_, herr⟩
  obtain ⟨r, hr⟩ := hok h
  exact ⟨r, hr, valid_of_apply he hr⟩

/-- Scaling a variable by a negative integer is refused with a constant fault. -/
theorem scale_by_negative_refused :
    (Step.scale (.plain (.int (-2)))).Built ∧ (Expr.var "x").valid = true ∧
      ¬(Step.scale (.plain (.int (-2)))).Accepts ∧
      ∃ f, (Step.scale (.plain (.int (-2)))).apply (.var "x") = .error f ∧ f.kind = .constant :=
  have hs : (Step.scale (.plain (.int (-2)))).Built := trivial
  have he : (Expr.var "x").valid = true := by decide
  have hna : ¬(Step.scale (.plain (.int (-2)))).Accepts := by
    show ¬(Operand.plain (.int (-2))).IsMagnitude
    rw [Operand.isMagnitude_plain, Datum.isMagnitude_int_iff]
    omega
  ⟨hs, he, hna, (apply_refuses_exactly_bad_arguments hs he).2 hna⟩

end Step

end Polyform
