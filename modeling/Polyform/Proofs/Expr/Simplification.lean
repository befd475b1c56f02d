import Polyform.Proofs.Expr.Grammar.Language

/-!
# Simplification and the value of what is read

The combinators simplify as they build, and they keep the value of what they build only up to a
number that no assignment changes (`Expr.UpToConst`): adding or multiplying by a variable is
exact, and the other four are exact when at most one constant stands as a term of their operands
(`Expr.addExpr_upToConst`, `Expr.mulExpr_upToConst`). The number can be other than zero, because a
constant keeps the double it was given while its value is the decimal it is shown as: adding a
constant to itself doubles the stored double, and `0.000019` twice gives `0.00003`, where its
value `0.00001` twice is `0.00002`.

A derivation of a text has a value of its own (`Grammar.Terms.value`), each number read as the
decimal its double is shown as. What the reader builds from a text with at most one number has
that value under every assignment: the terms of a sum are a bracketing of `Expr.addExpr`
(`Expr.Bracketing.value`), the factors of a product a fold of `Expr.mulExpr`, and no two
constants ever meet. What is built from a derivation with `k` numbers is valid, holds at most `k`
constant terms, and is exact when `k ≤ 1` (`Expr.Valued`).
-/

namespace Polyform

namespace Expr

open Binary64

variable {ts : List Expr} {e : Expr}

/-- A bracketing of valid terms is valid, has at most the constant terms of the terms, and adds
their values up to a number that no assignment changes, which is zero when at most one of them
is a constant term. -/
theorem Bracketing.value (h : Bracketing ts e) (hv : ∀ t ∈ ts, t.valid = true) :
    e.valid = true ∧ e.constTerms ≤ (ts.map constTerms).sum ∧
      UpToConst ((ts.map constTerms).sum ≤ 1) (fun ρ => eval ρ e)
        (fun ρ => (ts.map (eval ρ)).sum) := by
  induction h with
  | term t => exact ⟨hv t (by simp), by simp, .of_eq fun ρ => by simp⟩
  | @add ts us a b _ _ iha ihb =>
    obtain ⟨hva, hca, hea⟩ := iha fun t ht => hv t (List.mem_append_left _ ht)
    obtain ⟨hvb, hcb, heb⟩ := ihb fun t ht => hv t (List.mem_append_right _ ht)
    have hc : (a.addExpr b).constTerms ≤ a.constTerms + b.constTerms := constTerms_addExpr_le
    refine ⟨valid_addExpr hva hvb, by simp only [List.map_append, List.sum_append]; omega, ?_⟩
    -- the sum adds the two values up to a number, and each of them is its terms' up to another
    refine (((addExpr_upToConst hva hvb).trans (hea.add heb)).mono fun h1 => ?_).congr_right
      fun ρ => by simp [List.sum_append]
    simp only [List.map_append, List.sum_append] at h1
    exact ⟨by omega, by omega, by omega⟩

/-- `e` is valid, holds at most `k` constant terms, and has the value `v` under every assignment
when `k ≤ 1`: what the reader builds from a derivation with `k` numbers is such an expression. -/
structure Valued (e : Expr) (k : ℕ) (v : (String → ℝ) → ℝ) : Prop where
  valid : e.valid = true
  constTerms_le : e.constTerms ≤ k
  eval_eq : k ≤ 1 → ∀ ρ, eval ρ e = v ρ

namespace Valued

variable {a b : Expr} {k l : ℕ} {v w : (String → ℝ) → ℝ}

theorem congr (h : Valued e k v) (hk : k = l) (hv : ∀ ρ, v ρ = w ρ) : Valued e l w := by
  subst hk
  exact ⟨h.valid, h.constTerms_le, fun h1 ρ => (h.eval_eq h1 ρ).trans (hv ρ)⟩

/-- A product counts the constant terms of both factors, and multiplies their values when there
is at most one between them. -/
theorem mulExpr (ha : Valued a k v) (hb : Valued b l w) :
    Valued (a.mulExpr b) (k + l) (fun ρ => v ρ * w ρ) := by
  have hc : (a.mulExpr b).constTerms ≤ a.constTerms + b.constTerms :=
    constTerms_mulExpr_le ha.valid
  have hka := ha.constTerms_le
  have hlb := hb.constTerms_le
  refine ⟨valid_mulExpr ha.valid hb.valid, by omega, fun h1 ρ => ?_⟩
  rw [(mulExpr_upToConst ha.valid hb.valid).eq (by omega) ρ, ha.eval_eq (by omega) ρ,
    hb.eval_eq (by omega) ρ]

end Valued

/-- The parser's regrouping of valid terms with at most `k` constant terms between them, whose
values add up to `v` when `k ≤ 1`, is an expression of value `v`. -/
theorem valued_regroup (hne : ts ≠ []) (hv : ∀ t ∈ ts, t.valid = true)
    (hc : (ts.map constTerms).sum ≤ k) (he : k ≤ 1 → ∀ ρ, (ts.map (eval ρ)).sum = v ρ) :
    Valued (regroup ts) k v := by
  obtain ⟨hv', hc', hk⟩ := (bracketing_regroup hne).value hv
  exact ⟨hv', hc'.trans hc, fun h1 ρ => (hk.eq (hc.trans h1) ρ).trans (he h1 ρ)⟩

end Expr

namespace Grammar

open Polyform.Expr Binary64

mutual

/-- What a primary builds is valid, has at most as many constant terms as the primary has
numbers, and has the primary's value when it has at most one number. -/
theorem Primary.build_value : ∀ {p : Primary}, p.WF →
    Valued p.build p.literals (fun ρ => p.value ρ)
  | .num cs, hp => by
    have hm := isMagnitude_of_roundsTo (roundsTo_toFloat _) hp.isInf_toFloat
    -- adding `0.0` leaves the converted double as it is, a magnitude
    have hzero := add_zero_of_isMagnitude hm
    refine ⟨?_, le_rfl, fun _ ρ => ?_⟩
    · simpa [Primary.build, valid, hzero] using hm
    · simp [Primary.build, Primary.value, hzero]
  | .name cs, hp => ⟨isVarName_asString (isName_iff.mpr hp), le_rfl, fun _ _ => rfl⟩
  | .group s, hp => by
    obtain ⟨hv, hc, he⟩ := Terms.builds_value hp
    exact valued_regroup (Terms.builds_ne_nil s) hv hc he

/-- Multiplying an accumulated expression by the factors of a product, from the left, counts the
constant terms of both and multiplies the values when there is at most one between them. -/
theorem Factors.fold_value : ∀ {f : Factors}, f.WF →
    ∀ {acc : Expr} {k : ℕ} {v : (String → ℝ) → ℝ}, Valued acc k v →
      Valued (f.builds.foldl mulExpr acc) (k + f.literals) (fun ρ => v ρ * f.value ρ)
  | .last _, hp, _, _, _, hacc => hacc.mulExpr (Primary.build_value hp)
  | .cons _ _, hp, _, _, _, hacc =>
    -- the first factor goes into the accumulator, and the rest of the product follows
    (Factors.fold_value hp.2 (hacc.mulExpr (Primary.build_value hp.1))).congr
      (Nat.add_assoc _ _ _) fun _ => mul_assoc _ _ _

/-- What a product builds is valid, has at most as many constant terms as the product has
numbers, and has the product's value when it has at most one number. -/
theorem Factors.product_value : ∀ {f : Factors}, f.WF →
    Valued (product f.builds) f.literals (fun ρ => f.value ρ)
  | .last _, hp => Primary.build_value hp
  | .cons _ _, hp => Factors.fold_value hp.2 (Primary.build_value hp.1)

/-- The terms of a sum are read as valid expressions with at most the sum's numbers as constant
terms, and they add up to the sum's value when it has at most one number. -/
theorem Terms.builds_value : ∀ {s : Terms}, s.WF →
    (∀ e ∈ s.builds, e.valid = true) ∧ (s.builds.map constTerms).sum ≤ s.literals ∧
      (s.literals ≤ 1 → ∀ ρ, (s.builds.map (eval ρ)).sum = s.value ρ)
  | .last f, hf => by
    have h := Factors.product_value hf
    refine ⟨by simpa [Terms.builds] using h.valid,
      by simpa [Terms.builds, Terms.literals] using h.constTerms_le, fun h1 ρ => ?_⟩
    simpa [Terms.builds, Terms.value] using h.eval_eq h1 ρ
  | .cons f rest, hf => by
    have h := Factors.product_value hf.1
    have hk := h.constTerms_le
    obtain ⟨hv, hc, he⟩ := Terms.builds_value hf.2
    refine ⟨?_, by simp only [Terms.builds, Terms.literals, List.map_cons, List.sum_cons]; omega,
      fun h1 ρ => ?_⟩
    · simpa [Terms.builds, h.valid] using hv
    · simp only [Terms.literals] at h1
      simp only [Terms.builds, List.map_cons, List.sum_cons, Terms.value]
      rw [h.eval_eq (by omega) ρ, he (by omega) ρ]

end

/-- What a sum builds is valid, and has the sum's value when the sum has at most one number. -/
theorem Terms.build_value {s : Terms} (hs : s.WF) :
    Valued s.build s.literals (fun ρ => s.value ρ) := by
  obtain ⟨hv, hc, he⟩ := Terms.builds_value hs
  exact valued_regroup (Terms.builds_ne_nil s) hv hc he

/-- A text with at most one number is read as an expression of the value of the text. -/
theorem eval_of_parse {t : List CodePoint} {e : Expr} (h : parse t = .ok e) {s : Terms}
    (hs : s.WF) (ht : Spells t s.tokens) (h1 : s.literals ≤ 1) (ρ : String → ℝ) :
    eval ρ e = s.value ρ := by
  rw [parse_of_spells hs ht, Except.ok.injEq] at h
  subst h
  exact (Terms.build_value hs).eval_eq h1 ρ

end Grammar

namespace Expr

open Binary64 Grammar

/-- The combinators keep values up to a number that no assignment changes. Adding or multiplying
by a variable is exact. Adding or multiplying by an expression adds or multiplies the values, and
adding or multiplying by a number adds or multiplies the number it is shown as, each up to such a
number, which is zero when the operands hold at most one constant term between them. A text the
reader accepts is a sentence, and when it holds at most one number it is read as an expression of
its value as arithmetic, each number standing for the decimal its double is shown as. -/
theorem combinators_keep_values_up_to_constant {a b : Expr} (ha : a.valid = true)
    (hb : b.valid = true) (n : String) {x : Float} (hx : isMagnitude x = true)
    (t : List CodePoint) :
    UpToConst (a.constTerms + b.constTerms ≤ 1) (fun ρ => eval ρ (a.addExpr b))
        (fun ρ => eval ρ a + eval ρ b) ∧
      UpToConst (a.constTerms + b.constTerms ≤ 1) (fun ρ => eval ρ (a.mulExpr b))
        (fun ρ => eval ρ a * eval ρ b) ∧
      (∀ ρ, eval ρ (a.addVar n) = ρ n + eval ρ a) ∧
      (∀ ρ, eval ρ (a.mulVar n) = ρ n * eval ρ a) ∧
      UpToConst (a.constTerms = 0) (fun ρ => eval ρ (a.addConst x))
        (fun ρ => shown x + eval ρ a) ∧
      UpToConst (a.constTerms = 0) (fun ρ => eval ρ (a.scale x)) (fun ρ => shown x * eval ρ a) ∧
      ∀ e, parse t = .ok e → Sentence t ∧
        ∀ s : Terms, s.WF → Spells t s.tokens → s.literals ≤ 1 → ∀ ρ, eval ρ e = s.value ρ :=
  ⟨addExpr_upToConst ha hb, mulExpr_upToConst ha hb, (eval_addVar ha · n), (eval_mulVar ha · n),
    addConst_upToConst ha hx, scale_upToConst ha hx,
    fun _ h => ⟨by obtain ⟨s, hs, ht, -⟩ := exists_of_parse h; exact ⟨s, hs, ht⟩,
      fun _ hs ht h1 ρ => eval_of_parse h hs ht h1 ρ⟩⟩

/-- A variable plus a number is exact, and the printed product `x * 2` is read back as an
expression of its value. -/
theorem variable_plus_number_and_printed_product_exact :
    (Expr.var "x").valid = true ∧ (Expr.const 2).valid = true ∧ isMagnitude 2 = true ∧
      UpToConst ((Expr.var "x").constTerms + (Expr.const 2).constTerms ≤ 1)
        (fun ρ => eval ρ ((Expr.var "x").addExpr (.const 2)))
        (fun ρ => eval ρ (.var "x") + eval ρ (.const 2)) ∧
      Expr.parse (CodePoint.ofString (Expr.prod (.var "x") (.const 2)).render) =
        .ok (ofExpr (Expr.prod (.var "x") (.const 2))).build ∧
      (ofExpr (Expr.prod (.var "x") (.const 2))).literals ≤ 1 ∧
      ∀ ρ, eval ρ (ofExpr (Expr.prod (.var "x") (.const 2))).build =
        (ofExpr (Expr.prod (.var "x") (.const 2))).value ρ := by
  have hx : (Expr.var "x").valid = true := by decide
  have h2 : (Expr.const 2).valid = true := by decide
  have hm : isMagnitude 2 = true := isMagnitude_two
  have hv : (Expr.prod (.var "x") (.const 2)).valid = true := by decide
  obtain ⟨hs, ht⟩ := spells_render hv
  have hp := parse_of_spells hs ht
  have h1 : (ofExpr (Expr.prod (.var "x") (.const 2))).literals ≤ 1 := by decide
  have hlaws := combinators_keep_values_up_to_constant hx h2 "y" hm
    (CodePoint.ofString (Expr.prod (.var "x") (.const 2)).render)
  exact ⟨hx, h2, hm, hlaws.1, hp, h1, (hlaws.2.2.2.2.2.2 _ hp).2 _ hs ht h1⟩

/-- Adding an expression to itself doubles the stored double of a constant, not its value on the
grid: `0.000019`, shown as `0.00001`, added to itself is shown as `0.00003`. -/
theorem addExpr_same_constant_gains_a_step :
    eval (fun _ => 0) ((const 1.9e-05).addExpr (const 1.9e-05)) = 3 / 100000 ∧
      eval (fun _ => 0) (const 1.9e-05) + eval (fun _ => 0) (const 1.9e-05) = 2 / 100000 := by
  have hsame : (const 1.9e-05).same (const 1.9e-05) = true := by decide +kernel
  have hdouble : Grid.decimal (saturate (1.9e-05 * 2)) = ⟨3, -5⟩ := by decide +kernel
  have hone : Grid.decimal 1.9e-05 = ⟨1, -5⟩ := by decide +kernel
  simp only [addExpr, hsame, if_true, eval_const, shown_eq_val_of_decimal hdouble,
    shown_eq_val_of_decimal hone, Decimal.val]
  norm_num

end Expr

end Polyform
