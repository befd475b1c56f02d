import Mathlib
import Polyform.Proofs.Expr.Reading
import Polyform.Proofs.Expr.Meaning

/-!
# The normal form of built expressions

The combinators simplify as they build, and what they leave in a tree has a shape of its own.
At every node (`Expr.rootNormal`):

* a sum or a product has a variable among its nodes, so none joins two constants: constants that
  meet are folded into one;
* no operand of a sum is zero on the grid;
* no operand of a product is zero or one on the grid;
* a constant on the left of a product stands before a variable or a product, never before a sum:
  a coefficient is distributed over the terms of a sum (`Expr.scale`).

Each combinator keeps this normal form (`Expr.normal_addExpr`, `Expr.normal_scale`, …), so every
expression the combinators build from valid constants and variables, and so every expression the
parser reads, is normal at each of its nodes (`Expr.built_nodes_normal`).

The one numeric fact needed is that a constant that is not zero on the grid stays so when a
constant is added to it or when it is doubled (`Expr.isZero_addConst_const`,
`Expr.isZero_double`): the sum and the double are at least the constant, and a double at least a
double on the grid truncates to a double on the grid. A product of constants may well fall to zero,
but a sum distributes its coefficient with `Expr.addExpr`, which drops a zero operand.
-/

namespace Polyform

namespace Expr

open Binary64

/-! ## The normal form -/

/-- Whether a variable is among the nodes of an expression. -/
def hasVar : Expr → Bool
  | const _ => false
  | var _ => true
  | sum l r => l.hasVar || r.hasVar
  | prod l r => l.hasVar || r.hasVar

/-- Whether the node at the root is in normal form. A sum has a variable below it and no operand
that is zero on the grid. A product has a variable below it, no operand that is zero or one on the
grid, and a variable or a product on its right when its left operand is a constant. -/
def rootNormal : Expr → Bool
  | const _ => true
  | var _ => true
  | sum l r => (l.hasVar || r.hasVar) && !l.isZero && !r.isZero
  | prod l r => (l.hasVar || r.hasVar) && !l.isZero && !l.isOne && !r.isZero && !r.isOne &&
      (l.kind != .const || r.kind == .var || r.kind == .prod)

/-- Whether every node of an expression is in normal form. -/
def normal : Expr → Bool
  | const _ => true
  | var _ => true
  | sum l r => (sum l r).rootNormal && l.normal && r.normal
  | prod l r => (prod l r).rootNormal && l.normal && r.normal

variable {e a b : Expr} {x : Float} {n : String}

theorem normal_sum_iff {l r : Expr} :
    (sum l r).normal = true ↔ (sum l r).hasVar = true ∧ l.isZero = false ∧ r.isZero = false ∧
      l.normal = true ∧ r.normal = true := by
  simp [normal, rootNormal, hasVar, and_assoc]

theorem normal_prod_iff {l r : Expr} :
    (prod l r).normal = true ↔ (prod l r).hasVar = true ∧ l.isZero = false ∧ l.isOne = false ∧
      r.isZero = false ∧ r.isOne = false ∧ (l.kind = .const → r.kind = .var ∨ r.kind = .prod) ∧
      l.normal = true ∧ r.normal = true := by
  simp only [normal, rootNormal, hasVar, Bool.and_eq_true, Bool.not_eq_eq_eq_not, Bool.not_true,
    Bool.or_eq_true, bne_iff_ne, ne_eq, beq_iff_eq, and_assoc, or_assoc, imp_iff_not_or]

theorem hasVar_sum_left {l r : Expr} (h : l.hasVar = true) : (sum l r).hasVar = true := by
  simp [hasVar, h]

theorem hasVar_sum_right {l r : Expr} (h : r.hasVar = true) : (sum l r).hasVar = true := by
  simp [hasVar, h]

theorem hasVar_prod_left {l r : Expr} (h : l.hasVar = true) : (prod l r).hasVar = true := by
  simp [hasVar, h]

theorem hasVar_prod_right {l r : Expr} (h : r.hasVar = true) : (prod l r).hasVar = true := by
  simp [hasVar, h]

/-- A normal expression that is not a constant has a variable. -/
theorem hasVar_of_normal (h : e.normal = true) (hk : e.kind ≠ .const) : e.hasVar = true := by
  cases e with
  | const c => exact absurd rfl hk
  | var m => rfl
  | sum l r => exact (normal_sum_iff.mp h).1
  | prod l r => exact (normal_prod_iff.mp h).1

/-- The normal form, node by node. -/
theorem normal_iff_forall_nodes : e.normal = true ↔ ∀ d ∈ e.nodes, d.rootNormal = true := by
  induction e with
  | const c => simp [normal, nodes, rootNormal]
  | var m => simp [normal, nodes, rootNormal]
  | sum l r ihl ihr =>
    simp only [normal, nodes, List.forall_mem_cons, List.forall_mem_append, Bool.and_eq_true, ihl,
      ihr, and_assoc]
  | prod l r ihl ihr =>
    simp only [normal, nodes, List.forall_mem_cons, List.forall_mem_append, Bool.and_eq_true, ihl,
      ihr, and_assoc]

/-! ## Constants that stay off zero -/

/-- A constant added to a constant that is not zero on the grid gives a constant that is not zero
on the grid. -/
theorem isZero_addConst_const {c t : Float} (hc : isMagnitude c = true) (ht : isMagnitude t = true)
    (h : (const t).isZero = false) : ((const c).addConst t).isZero = false := by
  obtain ⟨w, hw, hg⟩ := Grid.exists_onGrid_of_beq_zero ht h
  obtain ⟨v, hv, hle⟩ := exists_saturate_add_ge hw hc
  exact Grid.truncate_beq_zero_of_le (canonical_of_shape hw) hg hv hle

/-- Doubling an expression that is not zero on the grid gives one that is not zero. -/
theorem isZero_double (he : e.valid = true) (h : e.isZero = false) : e.double.isZero = false := by
  cases e with
  | const c =>
    simp only [double, h, Bool.false_eq_true, if_false]
    split
    · exact two_isZero
    · obtain ⟨w, hw, hg⟩ := Grid.exists_onGrid_of_beq_zero he h
      obtain ⟨v, hv, hle⟩ := exists_saturate_mul_two_ge hw
      exact Grid.truncate_beq_zero_of_le (canonical_of_shape hw) hg hv hle
  | var m => rfl
  | sum l r => rfl
  | prod l r => rfl

theorem hasVar_double : e.double.hasVar = e.hasVar := by
  cases e with
  | const c =>
    simp only [double]
    split_ifs <;> rfl
  | var m => rfl
  | sum l r => simp [double, hasVar, two]
  | prod l r => simp [double, hasVar, two]

/-! ## One step -/

theorem normal_addVar (he : e.normal = true) : (e.addVar n).normal = true := by
  cases e with
  | const c =>
    simp only [addVar]
    split
    · rfl
    · rename_i hz
      exact normal_sum_iff.mpr ⟨rfl, rfl, by simpa using hz, rfl, rfl⟩
  | _ => exact normal_sum_iff.mpr ⟨rfl, rfl, rfl, rfl, he⟩

theorem normal_mulVar (he : e.normal = true) : (e.mulVar n).normal = true := by
  have hleft : ∀ k : Kind, Kind.var = .const → k = .var ∨ k = .prod :=
    fun _ h => absurd h (by decide)
  cases e with
  | const c =>
    simp only [mulVar]
    split
    · rfl
    · split
      · rfl
      · rename_i hz ho
        exact normal_prod_iff.mpr ⟨rfl, rfl, rfl, by simpa using hz, by simpa using ho,
          hleft _, rfl, rfl⟩
  | _ => exact normal_prod_iff.mpr ⟨rfl, rfl, rfl, rfl, rfl, hleft _, rfl, he⟩

theorem normal_addConst (he : e.valid = true) (hn : e.normal = true)
    (hx : isMagnitude x = true) : (e.addConst x).normal = true := by
  have ht := Grid.isMagnitude_truncate hx
  cases e with
  | const c => rfl
  | sum l r =>
    obtain ⟨hv, hl0, hr0, hln, hrn⟩ := normal_sum_iff.mp hn
    obtain ⟨hl, hr⟩ : l.valid = true ∧ r.valid = true := by simpa using he
    simp only [addConst]
    split_ifs with hz hsl hsr
    · exact hn
    · -- the number merges with a constant on the left, which stays off zero
      obtain ⟨c, rfl⟩ := exists_const_of_same hsl
      exact normal_sum_iff.mpr ⟨hv, isZero_addConst_const hl ht (by simpa using hz), hr0, rfl, hrn⟩
    · obtain ⟨c, rfl⟩ := exists_const_of_same hsr
      exact normal_sum_iff.mpr ⟨hv, hl0, isZero_addConst_const hr ht (by simpa using hz), hln, rfl⟩
    · exact normal_sum_iff.mpr ⟨hv, by simpa using hz, rfl, rfl, hn⟩
  | _ =>
    -- a variable or a product gets the number in front, unless it is zero
    simp only [addConst]
    split
    · exact hn
    · rename_i hz
      exact normal_sum_iff.mpr ⟨hasVar_sum_right (hasVar_of_normal hn (by simp [kind])),
        by simpa using hz, rfl, rfl, hn⟩

theorem normal_double (he : e.normal = true) : e.double.normal = true := by
  have hk : ∀ k : Kind, k ≠ .const → k = .const → two.kind = .var ∨ two.kind = .prod :=
    fun _ hne h => absurd h hne
  cases e with
  | const c =>
    simp only [double]
    split_ifs <;> rfl
  | _ =>
    exact normal_prod_iff.mpr ⟨hasVar_prod_left (hasVar_of_normal he (by simp [kind])), rfl, rfl,
      two_isZero, two_isOne, hk _ (by simp [kind]), he, rfl⟩

theorem normal_addExpr (ha : a.valid = true) (hb : b.valid = true) (hna : a.normal = true)
    (hnb : b.normal = true) : (a.addExpr b).normal = true := by
  cases a with
  | const c =>
    simp only [addExpr]
    split_ifs
    · rfl
    · exact hnb
    · rfl
    · exact normal_addConst hb hnb ha
  | var m =>
    simp only [addExpr]
    split
    · exact hna
    · exact normal_addVar hnb
  | sum l r =>
    obtain ⟨hv, hl0, hr0, hln, hrn⟩ := normal_sum_iff.mp hna
    obtain ⟨hl, hr⟩ : l.valid = true ∧ r.valid = true := by simpa using ha
    -- doubling keeps the variables and keeps the operands off zero
    have hvd : ∀ {l' r' : Expr}, l'.hasVar = l.hasVar → r'.hasVar = r.hasVar →
        (sum l' r').hasVar = true := fun hl' hr' => by simpa [hasVar, hl', hr'] using hv
    simp only [addExpr]
    split_ifs with hz
    · exact hna
    · exact normal_sum_iff.mpr ⟨hvd hasVar_double hasVar_double, isZero_double hl hl0,
        isZero_double hr hr0, normal_double hln, normal_double hrn⟩
    · exact normal_sum_iff.mpr ⟨hvd hasVar_double rfl, isZero_double hl hl0, hr0,
        normal_double hln, hrn⟩
    · exact normal_sum_iff.mpr ⟨hvd rfl hasVar_double, hl0, isZero_double hr hr0,
        hln, normal_double hrn⟩
    · exact normal_sum_iff.mpr ⟨hasVar_sum_left hv, rfl, by simpa using hz, hna, hnb⟩
  | prod l r =>
    simp only [addExpr]
    split_ifs with hz
    · exact hna
    · exact normal_double hna
    · exact normal_sum_iff.mpr ⟨hasVar_sum_left (hasVar_of_normal hna (by simp [kind])), rfl,
        by simpa using hz, hna, hnb⟩

theorem normal_scale (he : e.valid = true) (hn : e.normal = true) (hx : isMagnitude x = true) :
    (e.scale x).normal = true := by
  have ht := Grid.isMagnitude_truncate hx
  induction e generalizing x with
  | const c => rfl
  | sum l r ihl ihr =>
    -- a coefficient is distributed over both operands, and the results added
    obtain ⟨-, -, -, hln, hrn⟩ := normal_sum_iff.mp hn
    obtain ⟨hl, hr⟩ : l.valid = true ∧ r.valid = true := by simpa using he
    simp only [scale]
    split_ifs
    · rfl
    · exact hn
    · exact normal_addExpr (valid_scale hl ht) (valid_scale hr ht)
        (ihl hl hln ht (Grid.isMagnitude_truncate ht))
        (ihr hr hrn ht (Grid.isMagnitude_truncate ht))
  | var m =>
    simp only [scale]
    split_ifs with hz ho
    · rfl
    · exact hn
    · exact normal_prod_iff.mpr ⟨rfl, by simpa using hz, by simpa using ho, rfl, rfl,
        fun _ => .inl rfl, rfl, rfl⟩
  | prod l r =>
    simp only [scale]
    split_ifs with hz ho
    · rfl
    · exact hn
    · exact normal_prod_iff.mpr ⟨hasVar_prod_right (hasVar_of_normal hn (by simp [kind])),
        by simpa using hz, by simpa using ho, rfl, rfl, fun _ => .inr rfl, rfl, hn⟩

theorem normal_mulExpr (ha : a.valid = true) (hb : b.valid = true) (hna : a.normal = true)
    (hnb : b.normal = true) : (a.mulExpr b).normal = true := by
  have hleft : ∀ k : Kind, k ≠ .const → k = .const → b.kind = .var ∨ b.kind = .prod :=
    fun _ hne h => absurd h hne
  cases a with
  | const c =>
    simp only [mulExpr]
    split_ifs
    · rfl
    · exact hnb
    · rfl
    · exact normal_scale hb hnb ha
  | var m =>
    simp only [mulExpr]
    split_ifs
    · rfl
    · exact hna
    · exact normal_mulVar hnb
  | _ =>
    -- a sum or a product is kept as the left operand of a product
    simp only [mulExpr]
    split_ifs with hz ho
    · rfl
    · exact hna
    · exact normal_prod_iff.mpr ⟨hasVar_prod_left (hasVar_of_normal hna (by simp [kind])), rfl,
        rfl, by simpa using hz, by simpa using ho, hleft _ (by simp [kind]), hna, hnb⟩

/-! ## Every run -/

/-- Every expression the combinators build is normal. -/
theorem normal_of_reachable (h : Reachable e) : e.normal = true := by
  induction h with
  | const _ => rfl
  | var _ => rfl
  | addExpr ha hb iha ihb =>
    exact normal_addExpr (valid_of_reachable ha) (valid_of_reachable hb) iha ihb
  | mulExpr ha hb iha ihb =>
    exact normal_mulExpr (valid_of_reachable ha) (valid_of_reachable hb) iha ihb
  | addVar _ _ ih => exact normal_addVar ih
  | mulVar _ _ ih => exact normal_mulVar ih
  | addConst ha hx ih => exact normal_addConst (valid_of_reachable ha) ih hx
  | scale ha hx ih => exact normal_scale (valid_of_reachable ha) ih hx

/-- Every expression built by the combinators from valid constants and variables, and every
expression read from text, is in normal form at each of its nodes. -/
theorem built_nodes_normal (h : Reachable e ∨ ∃ s, parse s = .ok e) :
    ∀ d ∈ e.nodes, d.rootNormal = true := by
  have hr : Reachable e := h.elim id fun ⟨_, hs⟩ => reachable_of_parse hs
  exact normal_iff_forall_nodes.mp (normal_of_reachable hr)

/-- A coefficient too small for one term of a sum: `(x + 0.1) * 0.00005` drops the constant term,
whose product with the coefficient is zero on the grid, and keeps `(0.00005)*(x)`. -/
theorem built_nodes_normal_small_coefficient :
    Reachable (((var "x").addConst 0.1).scale 0.00005) ∧
      ∀ d ∈ (((var "x").addConst 0.1).scale 0.00005).nodes, d.rootNormal = true :=
  have h : Reachable (((var "x").addConst 0.1).scale 0.00005) :=
    .scale (.addConst (.var (by decide)) (by decide)) (by decide)
  ⟨h, built_nodes_normal (.inl h)⟩

end Expr

end Polyform
