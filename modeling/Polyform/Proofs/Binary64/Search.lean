import Polyform.Proofs.Binary64.ReadBack
import Polyform.Proofs.Binary64.Spacing

/-!
# The search for the shortest decimal

`Finite.shortest` tries the grids `10 ^ (k - 1)`, `10 ^ (k - 2)`, … for `k = Finite.scale`, and
keeps the first on which `Finite.pick` finds a neighbour of the double that reads back.

`scale` is the least `k` with `v < 10 ^ k` (`Finite.Canonical.scale_spec`): the estimate from the
binary exponent, `⌊log2 v⌋ * 0.30103`, is within seven of it, and `settle` walks the rest of the
way one step at a time.

`pick` finds a neighbour on every grid that holds some point rounding to the double, and on every
grid finer than the gap below it. So a double that a positive multiple of `10 ^ -5` rounds to has
a shortest decimal with at most five places (`Finite.Canonical.neg_five_le_exp_shortest`): the
search reaches the grid `10 ^ -5` unless it stops earlier, on a coarser grid.
-/

namespace Polyform

namespace Binary64

theorem cmpScaled_eq_gt_iff (a : ℕ) (i : ℤ) (n : ℕ) (j : ℤ) :
    cmpScaled a i n j = .gt ↔ (n : ℚ) * 2 ^ j < a * 10 ^ i := by
  unfold cmpScaled
  simp only [Nat.pow_eq, compare_gt_iff_gt]
  rw [Finite.zpow_eq_div_toNat 2 (by norm_num) j, Finite.zpow_eq_div_toNat 10 (by norm_num) i,
    mul_div_assoc', mul_div_assoc', div_lt_div_iff₀ (by positivity) (by positivity)]
  exact_mod_cast Iff.rfl

/-! ## Powers of two against powers of ten -/

/-- `10 ^ 3 ≤ 2 ^ 10`, raised to a power. -/
theorem ten_zpow_le_two_zpow {x y : ℤ} (hx : 0 ≤ x) (h : 10 * x ≤ 3 * y) :
    (10 : ℚ) ^ x ≤ 2 ^ y := by
  have hcube : ((10 : ℚ) ^ x) ^ 3 ≤ ((2 : ℚ) ^ y) ^ 3 := by
    calc ((10 : ℚ) ^ x) ^ 3 = (10 ^ 3) ^ x := by
          rw [← zpow_natCast, ← zpow_mul, ← zpow_natCast, ← zpow_mul, mul_comm]
      _ ≤ (2 ^ 10) ^ x := zpow_le_zpow_left₀ hx (by norm_num) (by norm_num)
      _ = 2 ^ (10 * x) := by rw [← zpow_natCast, ← zpow_mul]; norm_num
      _ ≤ 2 ^ (3 * y) := zpow_le_zpow_right₀ (by norm_num) h
      _ = (2 ^ y) ^ 3 := by rw [← zpow_natCast, ← zpow_mul, mul_comm]; norm_num
  exact (pow_le_pow_iff_left₀ (by positivity) (by positivity) (by norm_num)).mp hcube

/-- `2 ^ 500 ≤ 10 ^ 151`, raised to a power. -/
theorem two_zpow_le_ten_zpow {x y : ℤ} (hx : 0 ≤ x) (h : 151 * x ≤ 500 * y) :
    (2 : ℚ) ^ x ≤ 10 ^ y := by
  have h500 : (2 : ℚ) ^ 500 ≤ 10 ^ 151 := by
    -- in halves, below the size at which numerals are expanded
    calc (2 : ℚ) ^ 500 = ((2 : ℚ) ^ 250) ^ 2 := by rw [← pow_mul]
      _ ≤ (10 ^ 75) ^ 2 * 10 := by norm_num
      _ = 10 ^ 151 := by rw [← pow_mul, ← pow_succ]
  have hpow : ((2 : ℚ) ^ x) ^ 500 ≤ ((10 : ℚ) ^ y) ^ 500 := by
    calc ((2 : ℚ) ^ x) ^ 500 = (2 ^ 500) ^ x := by
          rw [← zpow_natCast, ← zpow_mul, ← zpow_natCast, ← zpow_mul, mul_comm]
      _ ≤ (10 ^ 151) ^ x := zpow_le_zpow_left₀ hx (by norm_num) h500
      _ = 10 ^ (151 * x) := by rw [← zpow_natCast, ← zpow_mul]; norm_num
      _ ≤ 10 ^ (500 * y) := zpow_le_zpow_right₀ (by norm_num) h
      _ = (10 ^ y) ^ 500 := by rw [← zpow_natCast, ← zpow_mul, mul_comm]; norm_num
  exact (pow_le_pow_iff_left₀ (by positivity) (by positivity) (by norm_num)).mp hpow

/-- The estimate `⌊b * 0.30103⌋` of the decimal exponent, against `2 ^ b` from below. -/
theorem ten_zpow_estimate_le {b : ℤ} (hb : -1074 ≤ b) (hb' : b ≤ 1023) :
    (10 : ℚ) ^ (b * 30103 / 100000 - 8) ≤ 2 ^ b := by
  have hdiv := Int.ediv_mul_le (b * 30103) (show (100000 : ℤ) ≠ 0 by norm_num)
  rcases le_or_gt 0 (b * 30103 / 100000 - 8) with hx | hx
  · exact ten_zpow_le_two_zpow hx (by omega)
  rcases le_or_gt 0 b with hb0 | hb0
  · calc (10 : ℚ) ^ (b * 30103 / 100000 - 8) ≤ 1 := zpow_le_one_of_nonpos₀ (by norm_num) hx.le
      _ ≤ 2 ^ b := one_le_zpow₀ (by norm_num) hb0
  · -- both exponents negative: compare the reciprocals
    rw [← inv_le_inv₀ (by positivity) (by positivity), ← zpow_neg, ← zpow_neg]
    exact two_zpow_le_ten_zpow (by omega) (by omega)

/-- The estimate of the decimal exponent, against `2 ^ (b + 1)` from above. -/
theorem two_zpow_le_ten_zpow_estimate {b : ℤ} (hb : -1074 ≤ b) (hb' : b ≤ 1023) :
    (2 : ℚ) ^ (b + 1) ≤ 10 ^ (b * 30103 / 100000 + 7) := by
  have hdiv := Int.lt_ediv_add_one_mul_self (b * 30103) (show (0 : ℤ) < 100000 by norm_num)
  rcases le_or_gt 0 (b + 1) with hx | hx
  · exact two_zpow_le_ten_zpow hx (by omega)
  rcases le_or_gt 0 (b * 30103 / 100000 + 7) with hy | hy
  · calc (2 : ℚ) ^ (b + 1) ≤ 1 := zpow_le_one_of_nonpos₀ (by norm_num) hx.le
      _ ≤ 10 ^ (b * 30103 / 100000 + 7) := one_le_zpow₀ (by norm_num) hy
  · rw [← inv_le_inv₀ (by positivity) (by positivity), ← zpow_neg, ← zpow_neg]
    exact ten_zpow_le_two_zpow (by omega) (by omega)

namespace Finite

variable {v : Finite}

/-! ## The scale -/

theorem below_iff (k : ℤ) : v.below k = true ↔ v.val < 10 ^ k := by
  simp only [below, beq_iff_eq, cmpScaled_eq_gt_iff, Nat.cast_one, one_mul]
  rfl

/-- From a start less than `fuel` away from the least `k₀` with `v < 10 ^ k₀`, `settle` reaches
`k₀`: it steps down while `v < 10 ^ (k - 1)`, and up while `10 ^ k ≤ v`. -/
theorem settle_eq {k₀ : ℤ} (hlo : 10 ^ (k₀ - 1) ≤ v.val) (hhi : v.val < 10 ^ k₀) :
    ∀ (fuel : ℕ) (k : ℤ), k₀ < k + fuel → k < k₀ + fuel → v.settle fuel k = k₀
  | 0, k, h, h' => by omega
  | fuel + 1, k, h, h' => by
    have hmono : ∀ {i j : ℤ}, i ≤ j → (10 : ℚ) ^ i ≤ 10 ^ j :=
      fun hij => zpow_le_zpow_right₀ (by norm_num) hij
    unfold settle
    rcases lt_trichotomy k k₀ with hk | rfl | hk
    · -- too low: `10 ^ k ≤ v`, so step up
      rw [if_neg (by rw [below_iff]; exact not_lt.mpr ((hmono (by omega)).trans hlo))]
      exact settle_eq hlo hhi fuel (k + 1) (by push_cast at h; omega) (by omega)
    · rw [if_pos ((below_iff _).mpr hhi), if_neg (by rw [below_iff]; exact not_lt.mpr hlo)]
    · -- too high: `v < 10 ^ (k - 1)`, so step down
      rw [if_pos ((below_iff _).mpr (hhi.trans_le (hmono (by omega)))),
        if_pos ((below_iff _).mpr (hhi.trans_le (hmono (by omega))))]
      exact settle_eq hlo hhi fuel (k - 1) (by omega) (by push_cast at h'; omega)

/-! ## What `pick` finds -/

/-- What lies between two numbers that round to `v` rounds to it. -/
theorem Rounds.between {X Y Z : ℚ} (hX : v.Rounds X) (hZ : v.Rounds Z) (hXY : X ≤ Y)
    (hYZ : Y ≤ Z) : v.Rounds Y :=
  ⟨hX.1.trans hXY, hYZ.trans hZ.2.1,
    fun hm => ⟨(hX.2.2 hm).1.trans_le hXY, hYZ.trans_lt (hZ.2.2 hm).2⟩⟩

/-- Strictly inside the interval, a number rounds to `v` whatever the parity of `m`. -/
theorem rounds_of_lt {X : ℚ} (h₁ : v.val - v.gapBelow / 2 < X) (h₂ : X < v.val + 2 ^ v.q / 2) :
    v.Rounds X :=
  ⟨h₁.le, h₂.le, fun _ => ⟨h₁, h₂⟩⟩

theorem val_mul_two_zpow (v : Finite) : v.val * 2 ^ (2 - v.q) = 4 * v.m := by
  rw [val, mul_assoc, ← zpow_add₀ (by norm_num), add_sub_cancel]
  norm_num
  ring

/-- The lower of the two neighbours that `pick` tries on the grid `10 ^ g`. -/
def gridFloor (v : Finite) (g : ℤ) : ℕ :=
  4 * v.m * (v.gridScales g).2 / (v.gridScales g).1

theorem gridScales_pos (v : Finite) (g : ℤ) :
    0 < (v.gridScales g).1 ∧ 0 < (v.gridScales g).2 := by
  simp only [gridScales, Nat.pow_eq]
  constructor <;> positivity

/-- `gridFloor` is the floor of `v` on the grid. -/
theorem gridFloor_le (g : ℤ) : (v.gridFloor g : ℚ) * 10 ^ g ≤ v.val := by
  obtain ⟨ha, hb⟩ := gridScales_pos v g
  have hx := gridScales_ratio v (v.gridFloor g) g
  have hle : v.gridFloor g * (v.gridScales g).1 ≤ 4 * v.m * (v.gridScales g).2 :=
    Nat.div_mul_le_self _ _
  rw [le_natCast_mul_iff hb hx] at hle
  push_cast at hle
  rw [← val_mul_two_zpow] at hle
  exact le_of_mul_le_mul_right hle (two_zpow_pos _)

theorem lt_gridFloor_succ (g : ℤ) : v.val < ((v.gridFloor g + 1 : ℕ) : ℚ) * 10 ^ g := by
  obtain ⟨ha, hb⟩ := gridScales_pos v g
  have hx := gridScales_ratio v (v.gridFloor g + 1) g
  have hlt : 4 * v.m * (v.gridScales g).2 < (v.gridFloor g + 1) * (v.gridScales g).1 := by
    rw [add_mul, one_mul]
    exact Nat.lt_div_mul_add ha
  rw [natCast_mul_lt_iff hb hx] at hlt
  push_cast at hlt ⊢
  rw [← val_mul_two_zpow] at hlt
  exact lt_of_mul_lt_mul_right hlt (two_zpow_pos _).le

/-- `pick` finds a neighbour when the floor of `v` on the grid, or the grid point above it,
rounds to `v`. -/
theorem pick_ne_none (hm : 0 < v.m) {g : ℤ}
    (h : v.Rounds (v.gridFloor g * 10 ^ g) ∨ v.Rounds (((v.gridFloor g + 1 : ℕ) : ℚ) * 10 ^ g)) :
    v.pick g ≠ none := by
  rcases hab : v.gridScales g with ⟨a, b⟩
  have key : ∀ c : ℕ, v.Rounds (c * 10 ^ g) → v.inInterval (c * a) b = true := fun c hc => by
    have := (readsBack_iff hm ⟨c, g⟩).mpr hc
    simpa only [readsBack, hab] using this
  simp only [gridFloor, hab] at h
  simp only [pick, hab]
  -- only the branch where neither neighbour reads back gives nothing
  rcases h with h | h
  · have h₁ := key _ h
    cases v.inInterval ((4 * v.m * b / a + 1) * a) b
    · simp [h₁]
    · simp only [h₁]
      split
      · simp
      · simp
      · split_ifs <;> simp
  · have h₂ := key _ h
    cases v.inInterval (4 * v.m * b / a * a) b
    · simp [h₂]
    · simp only [h₂]
      split
      · simp
      · simp
      · split_ifs <;> simp

/-- Whatever `pick` returns lies on the grid it was given. -/
theorem exp_of_pick {g : ℤ} {d : Decimal} (h : v.pick g = some d) : d.exp = g := by
  rcases hab : v.gridScales g with ⟨a, b⟩
  simp only [pick, hab] at h
  split at h
  · split at h
    · cases h; rfl
    · cases h; rfl
    · split at h <;> cases h <;> rfl
  · cases h; rfl
  · cases h; rfl
  · cases h

/-- A grid that holds a point rounding to `v` holds a neighbour of `v` that does: the points
between the two round to `v` as well. -/
theorem pick_ne_none_of_rounds (hm : 0 < v.m) {g : ℤ} {D : ℕ} (hD : v.Rounds (D * 10 ^ g)) :
    v.pick g ≠ none := by
  apply pick_ne_none hm
  have hp : (0 : ℚ) < 10 ^ g := by positivity
  rcases le_or_gt D (v.gridFloor g) with h | h
  · left
    refine hD.between (rounds_val v) ?_ (gridFloor_le g)
    exact mul_le_mul_of_nonneg_right (by exact_mod_cast h) hp.le
  · right
    refine (rounds_val v).between hD (lt_gridFloor_succ g).le ?_
    exact mul_le_mul_of_nonneg_right (by exact_mod_cast h) hp.le

/-- A grid finer than the gap below `v` holds a neighbour of `v` that rounds to it: the nearer
neighbour is within half a step. -/
theorem pick_ne_none_of_lt_gapBelow (hm : 0 < v.m) {g : ℤ} (hg : 10 ^ g < v.gapBelow) :
    v.pick g ≠ none := by
  apply pick_ne_none hm
  have hlo := gridFloor_le (v := v) g
  have hhi := lt_gridFloor_succ (v := v) g
  have hgap := gapBelow_le v
  push_cast at hhi ⊢
  rcases le_or_gt (v.val - v.gridFloor g * 10 ^ g) (10 ^ g / 2) with h | h
  · left
    exact rounds_of_lt (by linarith) (by linarith [two_zpow_pos v.q])
  · right
    exact rounds_of_lt (by linarith [gapBelow_pos v]) (by linarith)

/-- What `pick` returns rounds to `v`, so it is not zero. -/
theorem coeff_pos_of_pick (hm : 0 < v.m) {g : ℤ} {d : Decimal} (h : v.pick g = some d) :
    0 < d.coeff := by
  have hpos := pos_of_rounds hm ((readsBack_iff hm d).mp (readsBack_of_pick h))
  refine Nat.pos_of_ne_zero fun h0 => ?_
  simp [Decimal.val, h0] at hpos

/-! ## The first grid that succeeds -/

/-- A search over `0, 1, …, N - 1` succeeds no later than at any place where it could. -/
theorem findSome_range_of_ne_none {f : ℕ → Option Decimal} {n₀ : ℕ} :
    ∀ {N : ℕ}, n₀ < N → f n₀ ≠ none →
      ∃ n ≤ n₀, ∃ d, f n = some d ∧ (List.range N).findSome? f = some d
  | 0, h, _ => absurd h (Nat.not_lt_zero _)
  | N + 1, h, hf => by
    rw [List.range_succ, List.findSome?_append]
    rcases Nat.lt_succ_iff_lt_or_eq.mp h with h' | rfl
    · obtain ⟨n, hn, d, hd, hfind⟩ := findSome_range_of_ne_none h' hf
      exact ⟨n, hn, d, hd, by simp [hfind]⟩
    · rcases hfind : (List.range n₀).findSome? f with _ | d
      · obtain ⟨d, hd⟩ := Option.ne_none_iff_exists'.mp hf
        exact ⟨n₀, le_rfl, d, hd, by simp [hd]⟩
      · obtain ⟨n, hn, hd⟩ := List.exists_of_findSome?_eq_some hfind
        exact ⟨n, (List.mem_range.mp hn).le, d, hd, by simp⟩

/-- When `pick` succeeds on the grid of step `n₀` of the search, the shortest decimal lies on
that grid or a coarser one. -/
theorem exp_shortest_of_pick (hm : 0 < v.m) {n₀ : ℕ} (hn₀ : n₀ < 17)
    (h : v.pick (v.scale - ((n₀ : ℤ) + 1)) ≠ none) : v.scale - ((n₀ : ℤ) + 1) ≤ v.shortest.exp := by
  obtain ⟨n, hn, d, hd, hfind⟩ :=
    findSome_range_of_ne_none (f := fun n : ℕ => v.pick (v.scale - ((n : ℤ) + 1))) hn₀ h
  unfold shortest
  dsimp only
  rw [hfind]
  have hexp := exp_of_pick hd
  have := Decimal.exp_le_exp_normalize (coeff_pos_of_pick hm hd)
  dsimp only
  omega

namespace Canonical

/-- `scale` is the least `k` with `v < 10 ^ k`. -/
theorem scale_spec (hv : v.Canonical) : 10 ^ (v.scale - 1) ≤ v.val ∧ v.val < 10 ^ v.scale := by
  set b : ℤ := (Nat.log2 v.m : ℤ) + v.q with hb
  have hpos := val_pos hv.pos
  have hlog : v.m.log2 < 53 := (Nat.log2_lt hv.pos.ne').mpr hv.lt
  have hb₁ : -1074 ≤ b := by have := hv.q_ge; omega
  have hb₂ : b ≤ 1023 := by have := hv.q_le; omega
  -- `2 ^ b ≤ v < 2 ^ (b + 1)`
  have hlo2 : (2 : ℚ) ^ b ≤ v.val := by
    have := Binary64.two_zpow_le_val hv.pos v.q
    rwa [Float.Model.totalExponent, show (v.m.log2 : ℤ) + 1 + v.q - 1 = b by omega] at this
  have hhi2 : v.val < 2 ^ (b + 1) := by
    have := val_lt_two_zpow v.m v.q
    rwa [Float.Model.totalExponent, show (v.m.log2 : ℤ) + 1 + v.q = b + 1 by omega] at this
  set k₀ := Int.log 10 v.val + 1 with hk₀
  have hlo : (10 : ℚ) ^ (k₀ - 1) ≤ v.val := by
    rw [hk₀, add_sub_cancel_right]
    exact_mod_cast Int.zpow_log_le_self (by norm_num) hpos
  have hhi : v.val < 10 ^ k₀ := by exact_mod_cast Int.lt_zpow_succ_log_self (by norm_num) v.val
  -- the estimate is within seven of `k₀`
  have hest₁ : b * 30103 / 100000 - 8 ≤ k₀ - 1 := by
    rw [hk₀, add_sub_cancel_right]
    exact (Int.zpow_le_iff_le_log (by norm_num) hpos).mp
      (by exact_mod_cast (ten_zpow_estimate_le hb₁ hb₂).trans hlo2)
  have hest₂ : k₀ - 1 < b * 30103 / 100000 + 7 := by
    rw [hk₀, add_sub_cancel_right]
    exact (Int.lt_zpow_iff_log_lt (by norm_num) hpos).mp
      (by exact_mod_cast hhi2.trans_le (two_zpow_le_ten_zpow_estimate hb₁ hb₂))
  have hscale : v.scale = k₀ :=
    settle_eq hlo hhi 8 _ (by push_cast; omega) (by push_cast; omega)
  rw [hscale]
  exact ⟨hlo, hhi⟩

/-- The gap below a double is at least its value times `2 ^ -53`. -/
theorem val_le_gapBelow (hv : v.Canonical) : v.val ≤ 2 ^ 53 * v.gapBelow := by
  have hq := two_zpow_pos v.q
  unfold val gapBelow
  split
  · rename_i hn
    rw [(hv.narrow.mp hn).1, two_zpow_succ v.q]
    push_cast
    ring_nf
    exact le_rfl
  · have : (v.m : ℚ) ≤ 2 ^ 53 := by exact_mod_cast hv.lt.le
    exact mul_le_mul_of_nonneg_right this hq.le

/-- A double on the grid of five places exceeds `10 ^ -5`: the double nearest to `10 ^ -5` lies
above it, and nothing below that double rounds a multiple of `10 ^ -5`. -/
theorem lt_val_of_onGrid (hv : v.Canonical) (hg : v.OnGrid) : (1 / 100000 : ℚ) < v.val := by
  obtain ⟨D, hD, hR⟩ := hg
  set u : Finite := ⟨5902958103587057, -69, false⟩ with hu_def
  have hu : u.Canonical :=
    ⟨by norm_num, by norm_num, by norm_num, by norm_num, fun _ => by norm_num, by simp [u]⟩
  have huR : u.Rounds (1 / 100000) := by norm_num [Rounds, val, gapBelow, u]
  have hu₁ : (1 / 100000 : ℚ) < u.val := by norm_num [val, u]
  refine hu₁.trans_le (le_of_not_gt fun hlt => ?_)
  have hX : (D : ℚ) / 10 ^ 5 ≤ 1 / 100000 := hv.le_of_rounds_of_lt hu hlt hR huR
  have hD₁ : (1 : ℚ) ≤ D := by exact_mod_cast hD
  have hD' : (D : ℚ) / 10 ^ 5 = 1 / 100000 := le_antisymm hX (by linarith)
  rw [hD'] at hR
  exact hlt.ne (congrArg val (hv.eq_of_rounds hu hR huR))

/-- A double that a positive multiple of `10 ^ -5` rounds to has a shortest decimal with at most
five places. Below `10 ^ 12` the search tries the grid `10 ^ -5`; from there on, its last grid
is coarser but already finer than the gap below the double. -/
theorem neg_five_le_exp_shortest (hv : v.Canonical) (hg : v.OnGrid) : -5 ≤ v.shortest.exp := by
  obtain ⟨hlo, hhi⟩ := hv.scale_spec
  have h5 := hv.lt_val_of_onGrid hg
  have hk : -4 ≤ v.scale := by
    by_contra h
    have : (10 : ℚ) ^ v.scale ≤ 10 ^ (-5 : ℤ) := zpow_le_zpow_right₀ (by norm_num) (by omega)
    norm_num at this
    linarith
  rcases le_or_gt v.scale 12 with hk' | hk'
  · obtain ⟨D, -, hR⟩ := hg
    have hstep : v.scale - (((v.scale + 4).toNat : ℕ) + 1 : ℤ) = -5 := by omega
    have hpick : v.pick (v.scale - (((v.scale + 4).toNat : ℕ) + 1 : ℤ)) ≠ none := by
      rw [hstep]
      refine pick_ne_none_of_rounds hv.pos (D := D) ?_
      simpa [zpow_neg, div_eq_mul_inv] using hR
    have := exp_shortest_of_pick hv.pos (by omega) hpick
    omega
  · have hgap : (10 : ℚ) ^ (v.scale - ((16 : ℕ) + 1 : ℤ)) < v.gapBelow := by
      have hv53 := hv.val_le_gapBelow
      have h16 : (10 : ℚ) ^ (v.scale - 1) = 10 ^ (v.scale - ((16 : ℕ) + 1 : ℤ)) * 10 ^ 16 := by
        rw [← zpow_natCast, ← zpow_add₀ (by norm_num)]
        congr 1
        push_cast
        ring
      have hp := (zpow_pos (show (0 : ℚ) < 10 by norm_num) (v.scale - ((16 : ℕ) + 1 : ℤ)))
      nlinarith
    have := exp_shortest_of_pick hv.pos (by norm_num) (pick_ne_none_of_lt_gapBelow hv.pos hgap)
    omega

end Canonical

end Finite

end Binary64

end Polyform
