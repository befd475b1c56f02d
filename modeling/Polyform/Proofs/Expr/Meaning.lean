import Polyform.Proofs.Expr.Closure
import Polyform.Proofs.Expr.Sameness

/-!
# What an expression means

Under an assignment `ρ` of real numbers to names an expression has a value (`Expr.eval`): a
constant is the decimal it is shown as (`Expr.shown`), a variable is `ρ` of its name, and sums and
products add and multiply. The value can be read off the flattening (`Expr.eval_flat`), so
expressions that are the same have one value under every assignment (`Expr.eval_eq_of_same`).

The combinators respect values. Adding or multiplying by a variable is exact. The other four
give the sum or the product of the values up to one number that no assignment changes
(`Expr.UpToConst`): where two constants meet, the combinators add or multiply their doubles and
round, so only the constant part of the result can be off. Where at most one constant stands as a
term of the operands (`Expr.constTerms`), no two constants meet and the law is exact.

## Main statements

* `Expr.eval_addVar`, `Expr.eval_mulVar`: the exact laws.
* `Expr.addConst_upToConst`, `Expr.addExpr_upToConst`, `Expr.scale_upToConst`,
  `Expr.mulExpr_upToConst`: the laws up to a constant.
* `Expr.constTerms_addExpr_le`, `Expr.constTerms_mulExpr_le`: combining never makes more constant
  terms than the operands have.
-/

namespace Polyform

namespace Expr

open Binary64

/-! ## Values -/

/-- The number a constant is shown as. -/
noncomputable def shown (x : Float) : ℝ :=
  ((Grid.decimal x).val : ℝ)

/-- The value of an expression when each name `n` stands for `ρ n`. -/
noncomputable def eval (ρ : String → ℝ) : Expr → ℝ
  | const x => shown x
  | var n => ρ n
  | sum l r => eval ρ l + eval ρ r
  | prod l r => eval ρ l * eval ρ r

variable {ρ : String → ℝ} {e a b : Expr} {x y : Float} {n : String}

@[simp] theorem eval_const (ρ : String → ℝ) (x : Float) : eval ρ (const x) = shown x := rfl

@[simp] theorem eval_var (ρ : String → ℝ) (n : String) : eval ρ (var n) = ρ n := rfl

@[simp] theorem eval_sum (ρ : String → ℝ) (l r : Expr) :
    eval ρ (sum l r) = eval ρ l + eval ρ r := rfl

@[simp] theorem eval_prod (ρ : String → ℝ) (l r : Expr) :
    eval ρ (prod l r) = eval ρ l * eval ρ r := rfl

theorem shown_eq_val_of_decimal {d : Decimal} (h : Grid.decimal x = d) : shown x = (d.val : ℝ) := by
  rw [shown, h]

@[simp] theorem shown_zero : shown 0 = 0 := by
  simp [shown_eq_val_of_decimal (show Grid.decimal 0 = ⟨0, 0⟩ by decide +kernel), Decimal.val]

@[simp] theorem eval_two (ρ : String → ℝ) : eval ρ two = 2 := by
  simp [two, shown_eq_val_of_decimal (show Grid.decimal 2 = ⟨2, 0⟩ by decide +kernel), Decimal.val]

theorem shown_of_isZero (hx : isMagnitude x = true) (h : (const x).isZero = true) : shown x = 0 := by
  have h0 := (Grid.decimal_eq_iff hx isMagnitude_zero).mpr ((Grid.truncate_beq_zero_iff hx).mp h)
  rw [shown, h0]
  exact shown_zero

theorem shown_of_isOne (hx : isMagnitude x = true) (h : (const x).isOne = true) : shown x = 1 := by
  have h1 := (Grid.decimal_eq_iff hx (by decide)).mpr ((Grid.truncate_beq_one_iff hx).mp h)
  simp [shown_eq_val_of_decimal (h1.trans (show Grid.decimal 1 = ⟨1, 0⟩ by decide +kernel)),
    Decimal.val]

theorem shown_truncate (hx : isMagnitude x = true) : shown (Grid.truncate x) = shown x := by
  rw [shown, Grid.decimal_truncate hx, shown]

/-! ## Values through the flattening -/

/-- The decimal shown for a truncated double, by its shape. -/
def decimalOfShape : Shape → Decimal
  | .finite _ w => w.shortest
  | _ => ⟨0, 0⟩

theorem decimal_eq_decimalOfShape (x : Float) :
    Grid.decimal x = decimalOfShape (shape (Grid.truncate x)) := by
  rw [Grid.decimal_eq_shortest_truncate]
  cases shape (Grid.truncate x) <;> rfl

mutual

/-- The value of a flattened expression. -/
noncomputable def Flat.eval (ρ : String → ℝ) : Flat → ℝ
  | .const s => ((decimalOfShape s).val : ℝ)
  | .var n => ρ n
  | .sum ts => Flat.evalTerms ρ ts
  | .prod l r => l.eval ρ * r.eval ρ

/-- The sum of the values of a run of terms. -/
noncomputable def Flat.evalTerms (ρ : String → ℝ) : List Flat → ℝ
  | [] => 0
  | t :: ts => t.eval ρ + Flat.evalTerms ρ ts

end

theorem Flat.evalTerms_append (ts us : List Flat) :
    Flat.evalTerms ρ (ts ++ us) = Flat.evalTerms ρ ts + Flat.evalTerms ρ us := by
  induction ts with
  | nil => simp [Flat.evalTerms]
  | cons t ts ih => simp [Flat.evalTerms, ih, add_assoc]

theorem Flat.evalTerms_terms (f : Flat) : Flat.evalTerms ρ f.terms = f.eval ρ := by
  cases f <;> simp [Flat.terms, Flat.evalTerms, Flat.eval]

/-- The value of an expression is the value of its flattening. -/
theorem eval_flat (ρ : String → ℝ) (e : Expr) : eval ρ e = e.flat.eval ρ := by
  induction e with
  | const x => rw [eval_const, shown, decimal_eq_decimalOfShape]; rfl
  | var n => rfl
  | sum l r ihl ihr =>
    show eval ρ l + eval ρ r = Flat.evalTerms ρ (l.flat.terms ++ r.flat.terms)
    rw [Flat.evalTerms_append, Flat.evalTerms_terms, Flat.evalTerms_terms, ihl, ihr]
  | prod l r ihl ihr =>
    show eval ρ l * eval ρ r = l.flat.eval ρ * r.flat.eval ρ
    rw [ihl, ihr]

/-- Expressions that are the same have one value under every assignment. -/
theorem eval_eq_of_same (ha : a.valid = true) (hb : b.valid = true) (h : same a b = true)
    (ρ : String → ℝ) : eval ρ a = eval ρ b := by
  rw [eval_flat, eval_flat, ((same_iff_flat ha hb).mp h).2]

/-! ## Constant terms -/

/-- The number of constants among the terms of an expression: the constants that are not
factors of a product. -/
def constTerms : Expr → ℕ
  | const _ => 1
  | var _ => 0
  | sum l r => l.constTerms + r.constTerms
  | prod _ _ => 0

@[simp] theorem constTerms_const (x : Float) : (const x).constTerms = 1 := rfl

@[simp] theorem constTerms_var (n : String) : (var n).constTerms = 0 := rfl

@[simp] theorem constTerms_sum (l r : Expr) :
    (sum l r).constTerms = l.constTerms + r.constTerms := rfl

@[simp] theorem constTerms_prod (l r : Expr) : (prod l r).constTerms = 0 := rfl

@[simp] theorem constTerms_two : two.constTerms = 1 := rfl

/-- Whether a flattened expression is a constant. -/
def Flat.isConst : Flat → Bool
  | .const _ => true
  | _ => false

theorem constTerms_eq_countP (e : Expr) : e.constTerms = e.flat.terms.countP Flat.isConst := by
  induction e with
  | sum l r ihl ihr =>
    show l.constTerms + r.constTerms = (l.flat.terms ++ r.flat.terms).countP Flat.isConst
    rw [List.countP_append, ihl, ihr]
  | _ => rfl

theorem constTerms_eq_of_same (ha : a.valid = true) (hb : b.valid = true) (h : same a b = true) :
    a.constTerms = b.constTerms := by
  rw [constTerms_eq_countP, constTerms_eq_countP, ((same_iff_flat ha hb).mp h).2]

/-- Only a constant is the same as a constant. -/
theorem exists_const_of_same (h : same a (const x) = true) : ∃ c, a = const c := by
  cases a <;> simp_all [same]

theorem exists_const_of_isZero (h : e.isZero = true) : ∃ c, e = const c := by
  cases e <;> simp_all [isZero]

theorem exists_const_of_isOne (h : e.isOne = true) : ∃ c, e = const c := by
  cases e <;> simp_all [isOne]

/-! ## Laws up to a constant -/

/-- `f` is `g` plus one number that no assignment changes, and that number is zero when `exact`
holds. -/
def UpToConst (exact : Prop) (f g : (String → ℝ) → ℝ) : Prop :=
  ∃ c : ℝ, (exact → c = 0) ∧ ∀ ρ, f ρ = g ρ + c

namespace UpToConst

variable {P Q : Prop} {f g h f' g' : (String → ℝ) → ℝ}

theorem of_eq (hfg : ∀ ρ, f ρ = g ρ) : UpToConst P f g :=
  ⟨0, fun _ => rfl, fun ρ => by rw [hfg, add_zero]⟩

/-- Where the law need not be exact, any constant difference will do. -/
theorem of_not (hP : ¬P) (c : ℝ) (hfg : ∀ ρ, f ρ = g ρ + c) : UpToConst P f g :=
  ⟨c, fun hp => absurd hp hP, hfg⟩

/-- Where the law need not be exact, it is enough that the difference does not depend on the
assignment. -/
theorem of_not_sub (hP : ¬P) (hfg : ∀ ρ ρ', f ρ - g ρ = f ρ' - g ρ') : UpToConst P f g :=
  of_not hP (f 0 - g 0) fun ρ => by linarith [hfg ρ 0]

theorem eq (hfg : UpToConst P f g) (hP : P) (ρ : String → ℝ) : f ρ = g ρ := by
  obtain ⟨c, hc, hf⟩ := hfg
  rw [hf, hc hP, add_zero]

theorem mono (hfg : UpToConst P f g) (hQP : Q → P) : UpToConst Q f g := by
  obtain ⟨c, hc, hf⟩ := hfg
  exact ⟨c, fun hq => hc (hQP hq), hf⟩

theorem congr_right (hfg : UpToConst P f g) (hg : ∀ ρ, g ρ = g' ρ) : UpToConst P f g' := by
  obtain ⟨c, hc, hf⟩ := hfg
  exact ⟨c, hc, fun ρ => by rw [hf, hg]⟩

theorem trans (hfg : UpToConst P f g) (hgh : UpToConst Q g h) : UpToConst (P ∧ Q) f h := by
  obtain ⟨c, hc, hf⟩ := hfg
  obtain ⟨d, hd, hg⟩ := hgh
  refine ⟨c + d, fun hpq => by rw [hc hpq.1, hd hpq.2, add_zero], fun ρ => ?_⟩
  rw [hf, hg, add_assoc, add_comm d]

theorem add (hfg : UpToConst P f g) (hfg' : UpToConst Q f' g') :
    UpToConst (P ∧ Q) (fun ρ => f ρ + f' ρ) (fun ρ => g ρ + g' ρ) := by
  obtain ⟨c, hc, hf⟩ := hfg
  obtain ⟨d, hd, hf'⟩ := hfg'
  refine ⟨c + d, fun hpq => by rw [hc hpq.1, hd hpq.2, add_zero], fun ρ => ?_⟩
  show f ρ + f' ρ = g ρ + g' ρ + (c + d)
  rw [hf, hf']
  ring

end UpToConst

/-! ## Constant terms of the results -/

theorem constTerms_addVar_le : (e.addVar n).constTerms ≤ e.constTerms := by
  cases e with
  | const c =>
    simp only [addVar]
    split <;> simp
  | _ => simp [addVar]

theorem constTerms_mulVar_le : (e.mulVar n).constTerms ≤ e.constTerms := by
  cases e with
  | const c =>
    simp only [mulVar]
    split_ifs <;> simp
  | _ => simp [mulVar]

theorem constTerms_addConst_le : (e.addConst x).constTerms ≤ e.constTerms + 1 := by
  induction e generalizing x with
  | const c => simp [addConst]
  | sum l r ihl ihr =>
    simp only [addConst]
    split_ifs
    · simp
    · have := @ihl (Grid.truncate x)
      simp only [constTerms_sum]
      omega
    · have := @ihr (Grid.truncate x)
      simp only [constTerms_sum]
      omega
    · simp only [constTerms_sum, constTerms_const]
      omega
  | _ =>
    simp only [addConst]
    split_ifs <;> simp

theorem constTerms_double_le : e.double.constTerms ≤ e.constTerms := by
  cases e with
  | const c =>
    simp only [double]
    split_ifs <;> simp
  | _ => simp [double]

theorem constTerms_addExpr_le : (a.addExpr b).constTerms ≤ a.constTerms + b.constTerms := by
  cases a with
  | const c =>
    simp only [addExpr]
    split_ifs
    · simp
    · simp
    · simp
    · have := b.constTerms_addConst_le (x := c)
      simp only [constTerms_const]
      omega
  | var m =>
    simp only [addExpr]
    split
    · simp
    · simpa using b.constTerms_addVar_le (n := m)
  | sum l r =>
    have := l.constTerms_double_le
    have := r.constTerms_double_le
    simp only [addExpr]
    split_ifs <;> simp <;> omega
  | prod l r =>
    simp only [addExpr]
    split_ifs <;> simp [double]

/-- Scaling by a number that is not zero on the grid makes no new constant term. -/
theorem constTerms_scale_le_of_ne_zero (hx : isMagnitude x = true)
    (h0 : (const (Grid.truncate x)).isZero = false) : (e.scale x).constTerms ≤ e.constTerms := by
  have ht := Grid.isMagnitude_truncate hx
  induction e generalizing x with
  | const c => simp [scale]
  | sum l r ihl ihr =>
    simp only [scale, h0, Bool.false_eq_true, if_false]
    split_ifs
    · exact le_rfl
    · -- the number on the grid is already on the grid, so the sides are scaled by a non-zero too
      have h0' : (const (Grid.truncate (Grid.truncate x))).isZero = false := by
        rw [Grid.truncate_truncate hx, h0]
      have hl := ihl ht h0' (Grid.isMagnitude_truncate ht)
      have hr := ihr ht h0' (Grid.isMagnitude_truncate ht)
      have := constTerms_addExpr_le (a := l.scale (Grid.truncate x)) (b := r.scale (Grid.truncate x))
      simp only [constTerms_sum]
      omega
  | _ =>
    simp only [scale, h0, Bool.false_eq_true, if_false]
    split_ifs <;> simp

theorem constTerms_scale_le (hx : isMagnitude x = true) :
    (e.scale x).constTerms ≤ e.constTerms + 1 := by
  cases h0 : (const (Grid.truncate x)).isZero
  · exact (constTerms_scale_le_of_ne_zero hx h0).trans (Nat.le_succ _)
  · cases e <;> simp [scale, h0]

theorem constTerms_mulExpr_le (ha : a.valid = true) :
    (a.mulExpr b).constTerms ≤ a.constTerms + b.constTerms := by
  cases a with
  | const c =>
    simp only [mulExpr]
    split_ifs
    · simp
    · simp
    · simp
    · have := b.constTerms_scale_le (x := c) ha
      simp only [constTerms_const]
      omega
  | var m =>
    simp only [mulExpr]
    split_ifs with h0
    · obtain ⟨d, rfl⟩ := exists_const_of_isZero h0
      simp
    · simp
    · simpa using b.constTerms_mulVar_le (n := m)
  | _ =>
    simp only [mulExpr]
    split_ifs with h0
    · obtain ⟨d, rfl⟩ := exists_const_of_isZero h0
      simp
    · simp
    · simp

/-! ## The laws -/

theorem eval_addVar (he : e.valid = true) (ρ : String → ℝ) (n : String) :
    eval ρ (e.addVar n) = ρ n + eval ρ e := by
  cases e with
  | const c =>
    simp only [addVar]
    split_ifs with h0
    · simp [shown_of_isZero he h0]
    · rfl
  | _ => rfl

theorem eval_mulVar (he : e.valid = true) (ρ : String → ℝ) (n : String) :
    eval ρ (e.mulVar n) = ρ n * eval ρ e := by
  cases e with
  | const c =>
    simp only [mulVar]
    split_ifs with h0 h1
    · simp [shown_of_isZero he h0]
    · simp [shown_of_isOne he h1]
    · rfl
  | _ => rfl

/-- Adding a number adds the number it is shown as, up to a constant, and exactly when the
expression has no constant term. -/
theorem addConst_upToConst (he : e.valid = true) (hx : isMagnitude x = true) :
    UpToConst (e.constTerms = 0) (fun ρ => eval ρ (e.addConst x)) (fun ρ => shown x + eval ρ e) := by
  have ht := Grid.isMagnitude_truncate hx
  -- the number enters as its truncation, which is shown as the number
  have hshown := shown_truncate hx
  cases e with
  | const c => exact .of_not_sub (by simp) fun ρ ρ' => by simp [addConst]
  | sum l r =>
    simp only [addConst]
    split_ifs with h0 hl hr
    · exact .of_eq fun ρ => by simp [← hshown, shown_of_isZero ht h0]
    · obtain ⟨c, rfl⟩ := exists_const_of_same hl
      exact .of_not_sub (by simp) fun ρ ρ' => by simp [addConst]; ring
    · obtain ⟨c, rfl⟩ := exists_const_of_same hr
      exact .of_not_sub (by simp) fun ρ ρ' => by simp [addConst]; ring
    · exact .of_eq fun ρ => by simp [hshown]
  | _ =>
    simp only [addConst]
    split_ifs with h0
    · exact .of_eq fun ρ => by simp [← hshown, shown_of_isZero ht h0]
    · exact .of_eq fun ρ => by simp [hshown]

/-- Doubling doubles, up to a constant, and exactly when the expression has no constant term. -/
theorem double_upToConst (he : e.valid = true) :
    UpToConst (e.constTerms = 0) (fun ρ => eval ρ e.double) (fun ρ => 2 * eval ρ e) := by
  cases e with
  | const c =>
    simp only [double]
    split_ifs with h0 h1
    · exact .of_eq fun ρ => by simp [shown_of_isZero he h0]
    · exact .of_eq fun ρ => by simp [shown_of_isOne he h1]
    · exact .of_not_sub (by simp) fun ρ ρ' => by simp
  | _ => exact .of_eq fun ρ => by simp [double, mul_comm]

/-- Doubling `e` in place of adding an operand `b` that is the same as `e` adds the value of `b`,
up to a constant, and exactly when `e` and `b` have at most one constant term between them: the
two have as many, so then none. -/
theorem double_of_same_upToConst (he : e.valid = true) (hb : b.valid = true) (hs : b.same e = true) :
    UpToConst (e.constTerms + b.constTerms ≤ 1) (fun ρ => eval ρ e.double)
      (fun ρ => eval ρ e + eval ρ b) := by
  have hv := eval_eq_of_same hb he hs
  have hc := constTerms_eq_of_same hb he hs
  exact ((double_upToConst he).mono fun h1 => by omega).congr_right fun ρ => by rw [hv ρ]; ring

/-- Adding an expression adds its value, up to a constant, and exactly when the operands have at
most one constant term between them. -/
theorem addExpr_upToConst (ha : a.valid = true) (hb : b.valid = true) :
    UpToConst (a.constTerms + b.constTerms ≤ 1) (fun ρ => eval ρ (a.addExpr b))
      (fun ρ => eval ρ a + eval ρ b) := by
  cases a with
  | const c =>
    simp only [addExpr]
    split_ifs with hs h0 h0'
    · -- the same constant twice: its double is doubled
      obtain ⟨d, rfl⟩ := exists_const_of_same hs
      exact .of_not_sub (by simp) fun ρ ρ' => by simp
    · exact .of_eq fun ρ => by simp [shown_of_isZero ha h0]
    · obtain ⟨d, rfl⟩ := exists_const_of_isZero h0'
      exact .of_eq fun ρ => by simp [shown_of_isZero hb h0']
    · obtain ⟨k, hk, h⟩ := addConst_upToConst hb ha
      exact ⟨k, fun h1 => hk (by simp at h1; omega), fun ρ => by simp [h ρ, add_comm]⟩
  | var m =>
    simp only [addExpr]
    split_ifs with h0
    · obtain ⟨d, rfl⟩ := exists_const_of_isZero h0
      exact .of_eq fun ρ => by simp [shown_of_isZero hb h0]
    · exact .of_eq fun ρ => by simp [eval_addVar hb]
  | sum l r =>
    simp only [valid_sum, Bool.and_eq_true] at ha
    simp only [addExpr]
    split_ifs with h0 hs hl hr
    · obtain ⟨d, rfl⟩ := exists_const_of_isZero h0
      exact .of_eq fun ρ => by simp [shown_of_isZero hb h0]
    · -- the same sum again: both sides doubled, and no constant term if the law is to be exact
      have hv := eval_eq_of_same hb (by simp [ha]) hs
      have hc := constTerms_eq_of_same hb (by simp [ha]) hs
      obtain ⟨k, hk, h⟩ := double_upToConst ha.1
      obtain ⟨k', hk', h'⟩ := double_upToConst ha.2
      refine ⟨k + k', fun h1 => ?_, fun ρ => ?_⟩
      · simp only [constTerms_sum] at h1 hc
        rw [hk (by omega), hk' (by omega), add_zero]
      · simp only [eval_sum, h ρ, h' ρ, hv ρ]
        ring
    · -- the same as a side: that side doubled
      obtain ⟨k, hk, h⟩ := double_of_same_upToConst ha.1 hb hl
      refine ⟨k, fun h1 => hk (by simp only [constTerms_sum] at h1; omega), fun ρ => ?_⟩
      simp only [eval_sum, h ρ]
      ring
    · obtain ⟨k, hk, h⟩ := double_of_same_upToConst ha.2 hb hr
      refine ⟨k, fun h1 => hk (by simp only [constTerms_sum] at h1; omega), fun ρ => ?_⟩
      simp only [eval_sum, h ρ]
      ring
    · exact .of_eq fun ρ => rfl
  | prod l r =>
    simp only [addExpr]
    split_ifs with h0 hs
    · obtain ⟨d, rfl⟩ := exists_const_of_isZero h0
      exact .of_eq fun ρ => by simp [shown_of_isZero hb h0]
    · exact double_of_same_upToConst ha hb hs
    · exact .of_eq fun ρ => rfl

/-- Scaling by a number multiplies by the number it is shown as, up to a constant, and exactly
when the expression has no constant term. -/
theorem scale_upToConst (he : e.valid = true) (hx : isMagnitude x = true) :
    UpToConst (e.constTerms = 0) (fun ρ => eval ρ (e.scale x)) (fun ρ => shown x * eval ρ e) := by
  have ht := Grid.isMagnitude_truncate hx
  have hshown := shown_truncate hx
  induction e generalizing x with
  | const c => exact .of_not_sub (by simp) fun ρ ρ' => by simp [scale]
  | sum l r ihl ihr =>
    simp only [valid_sum, Bool.and_eq_true] at he
    simp only [scale]
    split_ifs with h0 h1
    · exact .of_eq fun ρ => by simp [← hshown, shown_of_isZero ht h0]
    · exact .of_eq fun ρ => by simp [← hshown, shown_of_isOne ht h1]
    · -- the number is distributed over both sides, and the results are added
      have hl := valid_scale he.1 ht
      have hr := valid_scale he.2 ht
      obtain ⟨c, hc, hcl⟩ := ihl he.1 ht (Grid.isMagnitude_truncate ht) (shown_truncate ht)
      obtain ⟨d, hd, hdr⟩ := ihr he.2 ht (Grid.isMagnitude_truncate ht) (shown_truncate ht)
      obtain ⟨k, hk, hks⟩ := addExpr_upToConst hl hr
      refine ⟨c + d + k, fun h => ?_, fun ρ => ?_⟩
      · -- without constant terms, the scaled sides have none either
        have h0' : (const (Grid.truncate (Grid.truncate x))).isZero = false := by
          rw [Grid.truncate_truncate hx]
          simpa using h0
        have := constTerms_scale_le_of_ne_zero (e := l) ht h0'
        have := constTerms_scale_le_of_ne_zero (e := r) ht h0'
        simp only [constTerms_sum] at h
        rw [hc (by omega), hd (by omega), hk (by omega)]
        ring
      · simp only [hks ρ, hcl ρ, hdr ρ, eval_sum, hshown]
        ring
  | _ =>
    simp only [scale]
    split_ifs with h0 h1
    · exact .of_eq fun ρ => by simp [← hshown, shown_of_isZero ht h0]
    · exact .of_eq fun ρ => by simp [← hshown, shown_of_isOne ht h1]
    · exact .of_eq fun ρ => by simp [hshown]

/-- Multiplying by an expression multiplies by its value, up to a constant, and exactly when the
operands have at most one constant term between them. -/
theorem mulExpr_upToConst (ha : a.valid = true) (hb : b.valid = true) :
    UpToConst (a.constTerms + b.constTerms ≤ 1) (fun ρ => eval ρ (a.mulExpr b))
      (fun ρ => eval ρ a * eval ρ b) := by
  cases a with
  | const c =>
    simp only [mulExpr]
    split_ifs with h0 h1 h1'
    · rcases Bool.or_eq_true_iff.mp h0 with h0 | h0
      · exact .of_eq fun ρ => by simp [shown_of_isZero ha h0]
      · obtain ⟨d, rfl⟩ := exists_const_of_isZero h0
        exact .of_eq fun ρ => by simp [shown_of_isZero hb h0]
    · exact .of_eq fun ρ => by simp [shown_of_isOne ha h1]
    · obtain ⟨d, rfl⟩ := exists_const_of_isOne h1'
      exact .of_eq fun ρ => by simp [shown_of_isOne hb h1']
    · obtain ⟨k, hk, h⟩ := scale_upToConst hb ha
      exact ⟨k, fun h1 => hk (by simp at h1; omega), fun ρ => by simp [h ρ]⟩
  | var m =>
    simp only [mulExpr]
    split_ifs with h0 h1
    · obtain ⟨d, rfl⟩ := exists_const_of_isZero h0
      exact .of_eq fun ρ => by simp [shown_of_isZero hb h0]
    · obtain ⟨d, rfl⟩ := exists_const_of_isOne h1
      exact .of_eq fun ρ => by simp [shown_of_isOne hb h1]
    · exact .of_eq fun ρ => by simp [eval_mulVar hb]
  | _ =>
    simp only [mulExpr]
    split_ifs with h0 h1
    · obtain ⟨d, rfl⟩ := exists_const_of_isZero h0
      exact .of_eq fun ρ => by simp [shown_of_isZero hb h0]
    · obtain ⟨d, rfl⟩ := exists_const_of_isOne h1
      exact .of_eq fun ρ => by simp [shown_of_isOne hb h1]
    · exact .of_eq fun ρ => rfl

end Expr

end Polyform
