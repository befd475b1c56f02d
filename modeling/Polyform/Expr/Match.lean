import Polyform.Expr.Basic

/-!
# Matching the text of an expression

`Expr.rendersAs e t` decides whether the text of `e` is `t` by reading `t` along the tree, one
leaf and one piece of punctuation at a time, so that a mismatch is found without writing the
rest of the text. `rendersAs_iff` says it decides exactly `e.render = t`.

## Main definitions

* `Text.dropPrefix?`: the rest of a list after a given beginning.
* `Expr.stripText`: the rest of a list after the text of an expression.
* `Expr.rendersAs`: whether the text of an expression is a given text.
-/

namespace Polyform

namespace Text

/-- The rest of `cs` after `p`, when `cs` begins with `p`. -/
def dropPrefix? : List Char → List Char → Option (List Char)
  | [], cs => some cs
  | _ :: _, [] => none
  | p :: ps, c :: cs => if p = c then dropPrefix? ps cs else none

theorem dropPrefix?_eq_some_iff :
    ∀ (p cs rest : List Char), dropPrefix? p cs = some rest ↔ cs = p ++ rest
  | [], cs, rest => by simp [dropPrefix?]
  | _ :: _, [], rest => by simp [dropPrefix?]
  | p :: ps, c :: cs, rest => by
    by_cases h : p = c
    · subst h
      simp [dropPrefix?, dropPrefix?_eq_some_iff ps cs rest]
    · simp [dropPrefix?, h, Ne.symm h]

end Text

namespace Expr

/-- The rest of `cs` after the text of `e`, when `cs` begins with it. -/
def stripText : Expr → List Char → Option (List Char)
  | const x, cs => Text.dropPrefix? (constText x).toList cs
  | var n, cs => Text.dropPrefix? n.toList cs
  | sum l r, cs => do
    let cs ← l.stripText cs
    let cs ← Text.dropPrefix? " + ".toList cs
    r.stripText cs
  | prod l r, cs => do
    let cs ← Text.dropPrefix? "(".toList cs
    let cs ← l.stripText cs
    let cs ← Text.dropPrefix? ")*(".toList cs
    let cs ← r.stripText cs
    Text.dropPrefix? ")".toList cs

theorem stripText_eq_some_iff :
    ∀ (e : Expr) (cs rest : List Char), e.stripText cs = some rest ↔ cs = e.render.toList ++ rest
  | const x, cs, rest => by simp [stripText, render, Text.dropPrefix?_eq_some_iff]
  | var n, cs, rest => by simp [stripText, render, Text.dropPrefix?_eq_some_iff]
  | sum l r, cs, rest => by
    simp only [stripText, render, Option.bind_eq_bind, Option.bind_eq_some_iff,
      Text.dropPrefix?_eq_some_iff, stripText_eq_some_iff l, stripText_eq_some_iff r,
      String.toList_append, List.append_assoc]
    constructor
    · rintro ⟨a, rfl, b, rfl, rfl⟩
      rfl
    · rintro rfl
      exact ⟨_, rfl, _, rfl, rfl⟩
  | prod l r, cs, rest => by
    simp only [stripText, render, Option.bind_eq_bind, Option.bind_eq_some_iff,
      Text.dropPrefix?_eq_some_iff, stripText_eq_some_iff l, stripText_eq_some_iff r,
      String.toList_append, List.append_assoc]
    constructor
    · rintro ⟨a, rfl, b, rfl, c, rfl, d, rfl, rfl⟩
      rfl
    · rintro rfl
      exact ⟨_, rfl, _, rfl, _, rfl, _, rfl, rfl⟩

/-- Whether the text of `e` is the characters `cs`. -/
def rendersAs (e : Expr) (cs : List Char) : Bool :=
  e.stripText cs == some []

theorem rendersAs_iff (e : Expr) (cs : List Char) :
    e.rendersAs cs = true ↔ e.render.toList = cs := by
  unfold rendersAs
  rw [beq_iff_eq, stripText_eq_some_iff, List.append_nil]
  exact eq_comm

end Expr

end Polyform
