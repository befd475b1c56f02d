import Polyform.Proofs.Decimal.Plain

/-!
# Shortest decimals read back

Whatever the search of `Finite.shortest` returns reads back to the double: a grid neighbour that
`Finite.pick` chooses passes the interval test, and the exact value that stands behind the
search is the double itself. Normalizing keeps the value, so the shortest decimal of a double
rounds to it (`Finite.rounds_shortest`). Two rounding intervals never meet, so the shortest
decimal determines the double (`Finite.eq_of_shortest_eq`).
-/

namespace Polyform

namespace Binary64

namespace Finite

variable {v w : Finite}

/-- A neighbour that `pick` chooses lies in the rounding interval. -/
theorem readsBack_of_pick {g : ℤ} {d : Decimal} (h : v.pick g = some d) :
    v.readsBack d = true := by
  rcases hab : v.gridScales g with ⟨a, b⟩
  have key : ∀ c, v.inInterval (c * a) b = true → v.readsBack ⟨c, g⟩ = true := by
    intro c hc
    simpa only [readsBack, hab] using hc
  simp only [pick, hab] at h
  split at h
  · rename_i hlo hhi
    split at h
    · cases h; exact key _ hlo
    · cases h; exact key _ hhi
    · split at h <;> cases h
      · exact key _ hlo
      · exact key _ hhi
  · rename_i hlo _
    cases h; exact key _ hlo
  · rename_i _ hhi
    cases h; exact key _ hhi
  · cases h

/-- The exact decimal of a double has its value. -/
theorem val_exact (v : Finite) : v.exact.val = v.val := by
  unfold exact Decimal.val val
  simp only [Nat.pow_eq]
  split
  · rename_i hq
    push_cast
    rw [← zpow_natCast, Int.toNat_of_nonneg hq, mul_one]
  · rename_i hq
    -- `10 ^ q = 2 ^ q * 5 ^ q`, and `5 ^ -q` cancels `5 ^ q`
    have h5 : (5 : ℚ) ^ (-v.q).toNat * 5 ^ v.q = 1 := by
      rw [← zpow_natCast, Int.toNat_of_nonneg (by omega), ← zpow_add₀ (by norm_num),
        neg_add_cancel, zpow_zero]
    push_cast
    rw [show (10 : ℚ) = 2 * 5 by norm_num, mul_zpow]
    linear_combination (v.m : ℚ) * 2 ^ v.q * h5

/-- The shortest decimal of a double rounds to it. -/
theorem rounds_shortest (hm : 0 < v.m) : v.Rounds v.shortest.val := by
  unfold shortest
  dsimp only
  split
  · rename_i d hd
    obtain ⟨n, -, hn⟩ := List.exists_of_findSome?_eq_some hd
    rw [Decimal.val_normalize, ← readsBack_iff hm]
    exact readsBack_of_pick hn
  · rw [Decimal.val_normalize, val_exact]
    exact rounds_val v

theorem normalized_shortest (v : Finite) : v.shortest.Normalized := by
  unfold shortest
  dsimp only
  split <;> exact Decimal.normalized_normalize _

/-- Everything that rounds to a positive double is positive. -/
theorem pos_of_rounds (hm : 0 < v.m) {X : ℚ} (hX : v.Rounds X) : 0 < X := by
  have hle : (2 : ℚ) ^ v.q ≤ v.val := by
    unfold val
    have : (1 : ℚ) ≤ v.m := by exact_mod_cast hm
    nlinarith [two_zpow_pos v.q]
  have := gapBelow_le v
  have := gapBelow_pos v
  linarith [hX.1]

/-- The shortest decimal of a positive double is not zero. -/
theorem coeff_shortest_pos (hm : 0 < v.m) : 0 < v.shortest.coeff := by
  have hpos := pos_of_rounds hm (rounds_shortest hm)
  refine Nat.pos_of_ne_zero fun h => ?_
  simp [Decimal.val, h] at hpos

/-- The shortest decimal determines the double. -/
theorem eq_of_shortest_eq (hv : v.Canonical) (hw : w.Canonical)
    (h : v.shortest = w.shortest) : v = w :=
  Canonical.eq_of_rounds hv hw (rounds_shortest hv.pos) (h ▸ rounds_shortest hw.pos)

end Finite

end Binary64

end Polyform
