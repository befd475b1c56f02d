import Polyform.Expr.Regroup
import Polyform.Decimal.Numeral
import Polyform.Text.Parens
import Polyform.Datum.Check

/-!
# Reading expressions

`Expr.parse` reads the text of an expression. The parentheses of the whole text are checked
first. Then a piece of text is trimmed and stripped of enclosing parentheses (`Text.unwrap`);
what is left must not be empty. If it has a `+` at depth zero, the pieces between are read and
regrouped as a run of terms (`Expr.regroup`); else, if it has a `*` at depth zero, the pieces are
read and multiplied from the left with `Expr.mulExpr`; else it is a numeral, a constant, or a
name of ASCII letters, a variable.

Everything is built through the combinators, so a tree that is read is simplified as a tree
built by hand would be.

## Main definitions

* `Expr.atom`: a numeral or a name.
* `Expr.product`: factors multiplied from the left.
* `Expr.parseGroup`: a piece of text, already unwrapped.
* `Expr.parse`: the text of an expression.
* `Expr.parse?`: an operand, which must be text.
-/

namespace Polyform

namespace Expr

/-- A numeral as a constant, or a name as a variable. -/
def atom (cs : List CodePoint) : Except Fault Expr :=
  match Decimal.ofNumeral? cs with
  | some d =>
    let x := d.toFloat
    if x.isInf then .error (.literalTooLarge cs) else .ok (const (x + 0.0))
  | none => if isName cs then .ok (var (CodePoint.asString cs)) else .error (.badAtom cs)

/-- Factors multiplied from the left. -/
def product : List Expr → Expr
  | [] => default
  | e :: es => es.foldl mulExpr e

/-- The separator of terms. -/
def plus : List CodePoint := [.ofChar '+']

/-- The separator of factors. -/
def times : List CodePoint := [.ofChar '*']

/-- Reads a piece of text that is already trimmed and without enclosing parentheses. -/
def parseGroup (t : List CodePoint) : Except Fault Expr :=
  if t.isEmpty then .error .empty
  else if h : 1 < (Text.splitTop plus t).length then do
    let terms ← (Text.splitTop plus t).attach.mapM fun p => parseGroup (Text.unwrap p.1)
    pure (regroup terms)
  else if h : 1 < (Text.splitTop times t).length then do
    let factors ← (Text.splitTop times t).attach.mapM fun p => parseGroup (Text.unwrap p.1)
    pure (product factors)
  else atom t
termination_by t.length
decreasing_by
  all_goals
    have := Text.length_unwrap_le p.1
    have := Text.length_lt_of_mem_splitTop p.2 h
    omega

/-- Reads the text of an expression. -/
def parse (s : List CodePoint) : Except Fault Expr :=
  match Text.balance s with
  | .unbalanced pos => .error (.unbalanced pos s)
  | .unclosed => .error (.unclosed s)
  | .balanced => parseGroup (Text.unwrap s)

/-- Reads an operand, which must be a text: an expression, or any other plain value, is
refused. -/
def parse? : Operand → Except Fault Expr
  | .plain (.str s) => parse s
  | x => .error (.notText x)

end Expr

end Polyform
