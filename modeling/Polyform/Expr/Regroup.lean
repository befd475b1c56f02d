import Polyform.Expr.Build
import Polyform.Expr.Match

/-!
# Regrouping a run of terms

The parser reads `t₀ + t₁ + … + tₙ` as a run of terms and must choose how to add them. For a run
of one term the answer is the term. For a longer run it tries the places to split the run, first
to last: for each it regroups the two parts, adds them with `Expr.addExpr`, and keeps the first
result whose text is the texts of the terms joined by ` + `. When no split gives that text, it
keeps the result of the first split.

Keeping the text is what lets a sum built by the combinators read back as itself: constants that
the combinators kept apart are not merged again, because merging them would change the text.

The result for a run depends only on the run, so `regroup` fills a table by the length of the
run: row `k` holds the results for the runs of `k + 1` terms, one for each start.

## Main definitions

* `Expr.firstMatch`: the first candidate, over the split points, whose text is the target.
* `Expr.regroupRow`: the results for the runs of one length, from those for shorter runs.
* `Expr.regroup`: the result for the whole run.
-/

namespace Polyform

namespace Expr

/-- The candidate of the first split point whose text is `target`. The texts are compared by
`rendersAs`, which stops at the first difference. -/
def firstMatch (target : List Char) (candidate : Nat → Expr) : List Nat → Option Expr
  | [] => none
  | s :: ss =>
    let c := candidate s
    if c.rendersAs target then some c else firstMatch target candidate ss

/-- The result for the run of `len` terms starting at `start`, given the results for every
shorter run in `rows` (row `k` for the runs of `k + 1` terms). -/
def regroupRun (texts : Array String) (rows : Array (Array Expr)) (len start : Nat) : Expr :=
  let target := (" + ".intercalate (texts.extract start (start + len)).toList).toList
  let part (n j : Nat) : Expr := (rows.getD (n - 1) #[]).getD j default
  let candidate (s : Nat) : Expr := (part s start).addExpr (part (len - s) (start + s))
  (firstMatch target candidate (List.range' 1 (len - 1))).getD (candidate 1)

/-- The results for the runs of `len` terms, one for each start, given those for shorter runs. -/
def regroupRow (texts : Array String) (rows : Array (Array Expr)) (len : Nat) : Array Expr :=
  (Array.range (texts.size + 1 - len)).map (regroupRun texts rows len)

/-- The sum a run of terms is read as. -/
def regroup (terms : List Expr) : Expr :=
  let first := terms.toArray
  let texts := first.map render
  let rows := (List.range' 2 (terms.length - 1)).foldl
    (fun rows len => rows.push (regroupRow texts rows len)) #[first]
  (rows.getD (terms.length - 1) #[]).getD 0 default

end Expr

end Polyform
