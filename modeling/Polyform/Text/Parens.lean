import Polyform.Text.Blank

/-!
# Parentheses in text

Depth is the number of opening parentheses met so far less the number of closing ones. Text is
balanced when the depth never falls below zero and ends at zero (`Text.balance`).

`Text.splitTop` cuts text at the separators met at depth zero; a separator is a text of its own,
and only a separator of one code point ever matches. Text is enclosed by parentheses
(`Text.enclosed`) when it begins with `(`, ends with `)`, and the depth does not come back to
zero before the last character, so that the first and the last character match each other.
`Text.unwrap` trims the text and removes enclosing parentheses until none are left.

## Main definitions

* `Text.balance`: whether parentheses are balanced, and where they are not.
* `Text.splitTop`: the pieces between separators at depth zero.
* `Text.enclosed`: the text is one parenthesised group.
* `Text.unwrap`: the text without blanks and enclosing parentheses around it.
-/

namespace Polyform

namespace Text

/-- The change of depth a code point makes. -/
def depthStep (c : CodePoint) : Int :=
  if c = .ofChar '(' then 1 else if c = .ofChar ')' then -1 else 0

/-- How the parentheses of a text are balanced. -/
inductive Balance where
  /-- The depth never falls below zero and ends at zero. -/
  | balanced
  /-- The closing parenthesis at this index takes the depth below zero, the first to do so. -/
  | unbalanced (pos : Nat)
  /-- The depth never falls below zero but ends above it. -/
  | unclosed
deriving DecidableEq, Repr

/-- The balance of the rest of a text, from depth `d`, with its next character at index `i`. -/
def balanceFrom : Int → Nat → List CodePoint → Balance
  | d, _, [] => if d = 0 then .balanced else .unclosed
  | d, i, c :: cs =>
    if d + depthStep c < 0 then .unbalanced i else balanceFrom (d + depthStep c) (i + 1) cs

/-- How the parentheses of the characters are balanced. -/
def balance (cs : List CodePoint) : Balance :=
  balanceFrom 0 0 cs

/-- The pieces of the rest of a text, from depth `d`, with the current piece held reversed in
`cur`. -/
def splitFrom (sep : List CodePoint) :
    Int → List CodePoint → List CodePoint → List (List CodePoint)
  | _, cur, [] => [cur.reverse]
  | d, cur, c :: cs =>
    if d = 0 ∧ [c] = sep then cur.reverse :: splitFrom sep d [] cs
    else splitFrom sep (d + depthStep c) (c :: cur) cs

/-- The pieces of the characters between the separators met at depth zero, in order. There is
one piece more than there are such separators. -/
def splitTop (sep : List CodePoint) (cs : List CodePoint) : List (List CodePoint) :=
  splitFrom sep 0 [] cs

/-- The pieces and the separators between them add up to the text. -/
theorem splitFrom_lengths (sep : List CodePoint) : ∀ (d : Int) (cur cs : List CodePoint),
    (splitFrom sep d cur cs).flatten.length + (splitFrom sep d cur cs).length =
      cur.length + cs.length + 1
  | d, cur, [] => by simp [splitFrom]
  | d, cur, c :: cs => by
    unfold splitFrom
    split
    · have := splitFrom_lengths sep d [] cs
      simp only [List.flatten_cons, List.length_append, List.length_cons, List.length_reverse,
        List.length_nil] at this ⊢
      omega
    · have := splitFrom_lengths sep (d + depthStep c) (c :: cur) cs
      simp only [List.length_cons] at this ⊢
      omega

theorem length_le_of_mem_flatten {p : List CodePoint} :
    ∀ {ps : List (List CodePoint)}, p ∈ ps → p.length ≤ ps.flatten.length
  | q :: qs, h => by
    rcases List.mem_cons.mp h with rfl | h
    · simp
    · have := length_le_of_mem_flatten h
      simp only [List.flatten_cons, List.length_append]
      omega

/-- When the text is cut at all, every piece is shorter than the text. -/
theorem length_lt_of_mem_splitTop {sep : List CodePoint} {cs p : List CodePoint} (hp : p ∈ splitTop sep cs)
    (h : 1 < (splitTop sep cs).length) : p.length < cs.length := by
  have := splitFrom_lengths sep 0 [] cs
  have := length_le_of_mem_flatten hp
  simp only [splitTop, List.length_nil] at *
  omega

/-- The depth, starting from `d`, does not reach zero after any of the characters. -/
def staysOpen : Int → List CodePoint → Bool
  | _, [] => true
  | d, c :: cs => d + depthStep c != 0 && staysOpen (d + depthStep c) cs

/-- The characters form one parenthesised group: they begin with `(`, end with `)`, and the depth
does not come back to zero before the last character. -/
def enclosed (cs : List CodePoint) : Bool :=
  cs.head? == some (.ofChar '(') && cs.getLast? == some (.ofChar ')') && staysOpen 0 cs.dropLast

theorem length_trimList_le (cs : List CodePoint) : (trimList cs).length ≤ cs.length := by
  simp only [trimList, List.length_reverse]
  exact Nat.le_trans (List.dropWhile_suffix _).length_le
    (by simpa using (List.dropWhile_suffix _).length_le)

theorem length_pos_of_enclosed {cs : List CodePoint} (h : enclosed cs = true) : 0 < cs.length := by
  cases cs with
  | nil => simp [enclosed] at h
  | cons c cs => simp

/-- The characters trimmed, then stripped of enclosing parentheses and trimmed again, for as long
as they are enclosed. -/
def unwrap (cs : List CodePoint) : List CodePoint :=
  if h : enclosed (trimList cs) then unwrap ((trimList cs).drop 1).dropLast else trimList cs
termination_by cs.length
decreasing_by
  have := length_trimList_le cs
  have := length_pos_of_enclosed h
  simp only [List.length_dropLast, List.length_drop]
  omega

theorem length_unwrap_le (cs : List CodePoint) : (unwrap cs).length ≤ cs.length := by
  fun_induction unwrap cs with
  | case1 cs _ ih =>
    have := length_trimList_le cs
    simp only [List.length_dropLast, List.length_drop] at ih
    omega
  | case2 cs h => exact length_trimList_le cs

example : splitTop (CodePoint.ofString "+") (CodePoint.ofString "a+(b+c)+d") =
    ["a", "(b+c)", "d"].map CodePoint.ofString := by
  decide +kernel
example : enclosed (CodePoint.ofString "(a)+(b)") = false ∧
    enclosed (CodePoint.ofString "((a)+(b))") = true := by
  decide +kernel
example : unwrap (CodePoint.ofString " ( (x) ) ") = CodePoint.ofString "x" := by decide +kernel
example : balance (CodePoint.ofString "a)(") = .unbalanced 1 ∧
    balance (CodePoint.ofString "((a)") = .unclosed := by
  decide +kernel

end Text

end Polyform
