import Mathlib
import Polyform.Proofs.Expr.Valid

/-!
# Regrouping builds a bracketing

A full bracketing of a run of terms adds them two at a time with `Expr.addExpr`, keeping their
order, until one expression is left (`Expr.Bracketing`). The parser reads a run of sum terms with
a table (`Expr.regroup`) whose row `i` holds one result for each run of `i + 1` terms. Every entry
is a bracketing of its run (`Expr.TableBracketing`): a row is computed from the rows before it,
and each candidate it may keep is the sum of the entries for two adjacent shorter runs. So the
parser's result for a run is a bracketing of the run (`Expr.bracketing_regroup`), and from
expressions the combinators build it builds only such expressions (`Expr.Bracketing.reachable`).

The table keeps a single result per run. `Expr.addExpr` looks at the operands themselves, not
only at their texts, so the kept result can behave differently from another bracketing of the same
text one level up, and a bracketing that gives the text of the whole run can be missed
(`Expr.regroup_misses_bracketing`). So the text of an expression that the combinators built need
not read back as that expression: `x + 3`, then `+ y`, then `3 +` gives `3 + 3 + x + y`, where
the inner `3 + x` stays apart from the outer `3` because `Expr.addConst` merges only with a
constant that is a direct operand; the table keeps `3 + (x + y)` for the run `3 + x + y`, the
outer `3` merges with its left operand, and the text reads back as `6 + x + y`
(`Expr.parse_render_merges_kept_constants`).
-/

namespace Polyform

namespace Expr

/-- `Bracketing ts e`: `e` is what a full bracketing of `Expr.addExpr` over the terms `ts`, in
their order, gives. -/
inductive Bracketing : List Expr → Expr → Prop
  /-- A single term. -/
  | term (t : Expr) : Bracketing [t] t
  /-- The bracketings of two adjacent runs, added. -/
  | add {ts us : List Expr} {a b : Expr} :
      Bracketing ts a → Bracketing us b → Bracketing (ts ++ us) (a.addExpr b)

/-- A bracketing of expressions that the combinators build is one too. -/
theorem Bracketing.reachable {ts : List Expr} {e : Expr} (h : Bracketing ts e)
    (hts : ∀ t ∈ ts, Reachable t) : Reachable e := by
  induction h with
  | term t => exact hts t (List.mem_singleton_self t)
  | add _ _ iha ihb =>
    exact .addExpr (iha fun t ht => hts t (List.mem_append_left _ ht))
      (ihb fun t ht => hts t (List.mem_append_right _ ht))

/-! ## The first match -/

theorem firstMatch_eq_some {target : List Char} {candidate : ℕ → Expr} :
    ∀ {ss : List ℕ} {c : Expr}, firstMatch target candidate ss = some c →
      ∃ s ∈ ss, c = candidate s
  | [], _, h => by simp [firstMatch] at h
  | s :: ss, c, h => by
    simp only [firstMatch] at h
    split at h
    · exact ⟨s, List.mem_cons_self, (Option.some.inj h).symm⟩
    · obtain ⟨s', hs', rfl⟩ := firstMatch_eq_some h
      exact ⟨s', List.mem_cons_of_mem s hs', rfl⟩

/-! ## The table -/

/-- The run of `len` terms from position `j`. -/
def run (terms : List Expr) (j len : ℕ) : List Expr :=
  (terms.drop j).take len

theorem run_append (terms : List Expr) {j s len : ℕ} (hs : s ≤ len) :
    run terms j s ++ run terms (j + s) (len - s) = run terms j len := by
  rw [run, run, run, ← List.drop_drop, ← List.take_add, Nat.add_sub_cancel' hs]

theorem run_length (terms : List Expr) : run terms 0 terms.length = terms := by
  simp [run]

theorem run_one {terms : List Expr} {j : ℕ} (hj : j < terms.length) :
    run terms j 1 = [terms[j]] := by
  rw [run, List.take_one, List.head?_drop, List.getElem?_eq_getElem hj]
  rfl

/-- Every entry of the table is a bracketing of its run: row `i` at position `j` brackets the
`i + 1` terms from `j`, wherever that run lies within the terms. -/
def TableBracketing (terms : List Expr) (rows : Array (Array Expr)) : Prop :=
  ∀ i j, i < rows.size → j + i + 1 ≤ terms.length →
    Bracketing (run terms j (i + 1)) ((rows.getD i #[]).getD j default)

variable {terms : List Expr} {texts : Array String} {rows : Array (Array Expr)} {len j : ℕ}

/-- The first row, the terms themselves. -/
theorem tableBracketing_first (terms : List Expr) : TableBracketing terms #[terms.toArray] := by
  intro i j hi hj
  obtain rfl : i = 0 := by simpa using hi
  have hj' : j < terms.length := by omega
  have hget : ((#[terms.toArray] : Array (Array Expr)).getD 0 #[]).getD j default = terms[j] := by
    simp [Array.getD_eq_getD_getElem?, hj']
  rw [run_one hj', hget]
  exact .term _

/-- A run of at least two terms is regrouped into a bracketing of it, when the table holds one
row for each shorter length. -/
theorem bracketing_regroupRun (h : TableBracketing terms rows) (hsize : rows.size + 1 = len)
    (hlen : 2 ≤ len) (hj : j + len ≤ terms.length) :
    Bracketing (run terms j len) (regroupRun texts rows len j) := by
  -- each split point `s` adds the entries for the first `s` terms and for the rest
  have hcand : ∀ s, 1 ≤ s → s ≤ len - 1 →
      Bracketing (run terms j len)
        (((rows.getD (s - 1) #[]).getD j default).addExpr
          ((rows.getD (len - s - 1) #[]).getD (j + s) default)) := by
    intro s hs₁ hs₂
    have hl := h (s - 1) j (by omega) (by omega)
    have hr := h (len - s - 1) (j + s) (by omega) (by omega)
    rw [Nat.sub_add_cancel hs₁] at hl
    rw [Nat.sub_add_cancel (by omega)] at hr
    rw [← run_append terms (show s ≤ len by omega)]
    exact .add hl hr
  unfold regroupRun
  dsimp only
  rcases hm : firstMatch _ _ (List.range' 1 (len - 1)) with _ | c
  · exact hcand 1 le_rfl (by omega)
  · obtain ⟨s, hs, rfl⟩ := firstMatch_eq_some hm
    rw [List.mem_range'] at hs
    obtain ⟨i, hi, rfl⟩ := hs
    exact hcand _ (by omega) (by omega)

/-- Pushing the row for the next length keeps every entry a bracketing. -/
theorem TableBracketing.push (h : TableBracketing terms rows) (hsize : rows.size + 1 = len)
    (hlen : 2 ≤ len) (htexts : texts.size = terms.length) :
    TableBracketing terms (rows.push (regroupRow texts rows len)) := by
  intro i j hi hj
  rw [Array.size_push] at hi
  rcases Nat.lt_succ_iff_lt_or_eq.mp hi with hi | rfl
  · have hold : (rows.push (regroupRow texts rows len)).getD i #[] = rows.getD i #[] := by
      simp only [Array.getD_eq_getD_getElem?, Array.getElem?_push, hi.ne, if_false]
    rw [hold]
    exact h i j hi hj
  · -- the new row: its entry `j` regroups the run of `len` terms from `j`
    have hnew : ((rows.push (regroupRow texts rows len)).getD rows.size #[]).getD j default =
        regroupRun texts rows len j := by
      simp only [Array.getD_eq_getD_getElem?, Array.getElem?_push, if_pos, Option.getD_some,
        regroupRow, Array.getElem?_map, Array.getElem?_range]
      rw [if_pos (by omega)]
      rfl
    rw [hnew, hsize]
    exact bracketing_regroupRun h hsize hlen (by omega)

/-- Pushing the rows for the lengths `s, s + 1, …, s + m - 1`, in order, keeps every entry a
bracketing and adds `m` rows. -/
theorem TableBracketing.foldl (htexts : texts.size = terms.length) :
    ∀ (m s : ℕ) (rows : Array (Array Expr)), TableBracketing terms rows →
      rows.size + 1 = s → 2 ≤ s →
      TableBracketing terms ((List.range' s m).foldl
          (fun rows len => rows.push (regroupRow texts rows len)) rows) ∧
        ((List.range' s m).foldl
          (fun rows len => rows.push (regroupRow texts rows len)) rows).size = rows.size + m
  | 0, _, _, h, _, _ => ⟨h, rfl⟩
  | m + 1, s, rows, h, hsize, hs => by
    rw [List.range'_succ, List.foldl_cons]
    obtain ⟨h', hsize'⟩ := TableBracketing.foldl htexts m (s + 1) _ (h.push hsize hs htexts)
      (by rw [Array.size_push, hsize]) (by omega)
    exact ⟨h', by rw [hsize', Array.size_push]; omega⟩

/-- The parser's regrouping of a non-empty run of terms is a full bracketing of it. -/
theorem bracketing_regroup {terms : List Expr} (hne : terms ≠ []) :
    Bracketing terms (regroup terms) := by
  have hn : 1 ≤ terms.length := List.length_pos_iff.mpr hne
  obtain ⟨h, hsize⟩ := @TableBracketing.foldl terms (terms.toArray.map render) (by simp)
    (terms.length - 1) 2 _ (tableBracketing_first terms) rfl le_rfl
  have hlast := h (terms.length - 1) 0 (by simp only [hsize]; simp) (by omega)
  rw [Nat.sub_add_cancel hn, run_length] at hlast
  simpa [regroup] using hlast

/-- A run of terms that a bracketing reads back as, while the table does not: in
`3 + ((3 + x) + y)` the two constants stay apart, but the table keeps `3 + (x + y)` for the run
`3 + x + y`, and the first `3` then merges with its left operand, giving `6 + x + y`. -/
theorem regroup_misses_bracketing :
    Bracketing [const 3, const 3, var "x", var "y"]
        ((const 3).addExpr (((const 3).addExpr (var "x")).addExpr (var "y"))) ∧
      ((const 3).addExpr (((const 3).addExpr (var "x")).addExpr (var "y"))).render =
        " + ".intercalate ([const 3, const 3, var "x", var "y"].map render) ∧
      (regroup [const 3, const 3, var "x", var "y"]).render ≠
        " + ".intercalate ([const 3, const 3, var "x", var "y"].map render) := by
  refine ⟨.add (.term _) (.add (.add (.term _) (.term _)) (.term _)), ?_, ?_⟩
  · decide +kernel
  · decide +kernel

/-- A sum that the combinators built whose text does not read back as the same expression. -/
theorem parse_render_merges_kept_constants :
    Reachable (((var "x").addConst 3 |>.addExpr (var "y")).addConst 3) ∧
      ∃ r, parse (CodePoint.ofString
          (((var "x").addConst 3 |>.addExpr (var "y")).addConst 3).render) = .ok r ∧
        r.render = "6 + x + y" ∧
        r.same (((var "x").addConst 3 |>.addExpr (var "y")).addConst 3) = false := by
  refine ⟨.addConst (.addExpr (.addConst (.var (by decide)) (by decide)) (.var (by decide)))
    (by decide), ?_⟩
  have h : (parse (CodePoint.ofString
      (((var "x").addConst 3 |>.addExpr (var "y")).addConst 3).render)).toOption.map
        (fun r => (r.render, r.same (((var "x").addConst 3 |>.addExpr (var "y")).addConst 3))) =
      some ("6 + x + y", false) := by
    decide +kernel
  generalize parse _ = p at h ⊢
  cases p with
  | error f => simp [Except.toOption] at h
  | ok r =>
    simp only [Except.toOption, Option.map_some, Option.some.injEq, Prod.mk.injEq] at h
    exact ⟨r, rfl, h⟩

end Expr

end Polyform
