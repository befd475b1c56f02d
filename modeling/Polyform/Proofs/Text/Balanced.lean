import Mathlib
import Polyform.Text.Parens

/-!
# Balanced parentheses

`Text.depth` is the depth a text ends at: the sum of `Text.depthStep` over its code points. A text
is balanced (`Text.Balanced`) when no prefix ends below zero and the whole ends at zero; a code
point stands inside parentheses in a text (`Text.Inside`) when every occurrence of it follows a
prefix of positive depth. Joining balanced texts and wrapping one in parentheses keep balance.

Two ways of reading a text back rest on this. Texts joined by ` + `, each balanced with every `+`
inside parentheses, are determined by the joined text (`Text.intercalate_inj`): the first
separator is the first `+` at depth zero. And `(l)*(r)` with `l` and `r` balanced determines them
(`Text.prodText_inj`): the parenthesis that closes after `l` is the first to reach depth zero.
-/

namespace Polyform

namespace Text

/-- The depth at the end of a text. -/
def depth (cs : List CodePoint) : ℤ :=
  (cs.map depthStep).sum

@[simp] theorem depth_nil : depth [] = 0 := rfl

@[simp] theorem depth_cons (c : CodePoint) (cs : List CodePoint) :
    depth (c :: cs) = depthStep c + depth cs := by
  simp [depth]

@[simp] theorem depth_append (a b : List CodePoint) : depth (a ++ b) = depth a + depth b := by
  simp [depth]

@[simp] theorem depthStep_open : depthStep (.ofChar '(') = 1 := by decide

@[simp] theorem depthStep_close : depthStep (.ofChar ')') = -1 := by decide

/-- No prefix ends below zero, and the whole text ends at zero. -/
structure Balanced (cs : List CodePoint) : Prop where
  nonneg : ∀ p q, cs = p ++ q → 0 ≤ depth p
  closed : depth cs = 0

/-- Every occurrence of `c` follows a prefix of positive depth. -/
def Inside (c : CodePoint) (cs : List CodePoint) : Prop :=
  ∀ p q, cs = p ++ c :: q → 0 < depth p

/-- A text wrapped in parentheses. -/
def wrap (cs : List CodePoint) : List CodePoint :=
  .ofChar '(' :: cs ++ [.ofChar ')']

variable {a b cs : List CodePoint} {c : CodePoint}

theorem depth_eq_zero_of_forall (h : ∀ c ∈ cs, depthStep c = 0) : depth cs = 0 := by
  induction cs with
  | nil => rfl
  | cons d cs ih => simp [h d (by simp), ih fun c hc => h c (by simp [hc])]

/-- A text without parentheses is balanced. -/
theorem balanced_of_forall (h : ∀ c ∈ cs, depthStep c = 0) : Balanced cs where
  nonneg p q hpq := by
    rw [depth_eq_zero_of_forall fun c hc => h c (hpq ▸ List.mem_append_left q hc)]
  closed := depth_eq_zero_of_forall h

theorem Balanced.append (ha : Balanced a) (hb : Balanced b) : Balanced (a ++ b) where
  nonneg p q h := by
    rcases List.append_eq_append_iff.mp h with ⟨m, rfl, hm⟩ | ⟨m, rfl, -⟩
    · rw [depth_append, ha.closed, zero_add]
      exact hb.nonneg m q hm
    · exact ha.nonneg p m rfl
  closed := by rw [depth_append, ha.closed, hb.closed, add_zero]

theorem Balanced.wrap (ha : Balanced a) : Balanced (wrap a) where
  nonneg p _ h := by
    cases p with
    | nil => exact le_rfl
    | cons d p =>
      simp only [Text.wrap, List.cons_append, List.cons.injEq] at h
      obtain ⟨rfl, h⟩ := h
      rcases List.append_eq_append_iff.mp h with ⟨m, rfl, hm⟩ | ⟨m, rfl, -⟩
      · -- past the whole of `a`: at most the closing parenthesis more
        have : m = [] ∨ m = [.ofChar ')'] := by
          cases m with
          | nil => exact .inl rfl
          | cons e m => cases m <;> simp_all
        rcases this with rfl | rfl <;> simp [ha.closed]
      · have := ha.nonneg p m rfl
        simp only [depth_cons, depthStep_open]
        omega
  closed := by simp [Text.wrap, ha.closed]

theorem inside_of_not_mem (h : c ∉ cs) : Inside c cs := fun p _ hpq =>
  absurd (hpq ▸ List.mem_append_right p List.mem_cons_self) h

theorem Inside.append (ha : Balanced a) (hia : Inside c a) (hib : Inside c b) :
    Inside c (a ++ b) := by
  intro p q h
  rcases List.append_eq_append_iff.mp h with ⟨m, rfl, hm⟩ | ⟨m, rfl, hm⟩
  · rw [depth_append, ha.closed, zero_add]
    exact hib m q hm
  · cases m with
    | nil =>
      -- `c` would begin `b`, at depth zero
      have := hib [] q (by simpa using hm.symm)
      simp at this
    | cons d m =>
      obtain ⟨rfl, -⟩ := List.cons.inj hm
      exact hia p m rfl

theorem Inside.wrap (ha : Balanced a) (h₁ : c ≠ .ofChar '(') (h₂ : c ≠ .ofChar ')') :
    Inside c (wrap a) := by
  intro p q h
  cases p with
  | nil => exact absurd (List.cons.inj h).1.symm h₁
  | cons d p =>
    simp only [Text.wrap, List.cons_append, List.cons.injEq] at h
    obtain ⟨rfl, h⟩ := h
    rcases List.append_eq_append_iff.mp h with ⟨m, -, hm⟩ | ⟨m, rfl, -⟩
    · -- `c` would be the closing parenthesis
      cases m with
      | nil => exact absurd (List.cons.inj hm).1.symm h₂
      | cons e m => simp at hm
    · have := ha.nonneg p m rfl
      simp only [depth_cons, depthStep_open]
      omega

/-! ## Reading a text back -/

/-- The code point `+`. -/
def plusCode : CodePoint := .ofChar '+'

/-- The separator ` + ` between the terms of a sum. -/
def sumSep : List CodePoint := CodePoint.ofString " + "

theorem sumSep_append (t : List CodePoint) :
    sumSep ++ t = .ofChar ' ' :: plusCode :: .ofChar ' ' :: t := rfl

/-- Behind a balanced text, a space and a `+` stand at depth zero. -/
theorem not_inside_append (ha : Balanced a) (t : List CodePoint) :
    ¬Inside plusCode (a ++ .ofChar ' ' :: plusCode :: t) := fun h => by
  have := h (a ++ [.ofChar ' ']) t (by simp)
  simp [ha.closed, show depthStep (.ofChar ' ') = 0 by decide] at this

/-- A balanced text followed by ` + ` is not the beginning of a longer text whose `+` all stand
inside parentheses. -/
theorem eq_nil_of_sep (ha : Balanced a) {m t t' : List CodePoint}
    (hi : Inside plusCode (a ++ m)) (h : sumSep ++ t = m ++ (sumSep ++ t')) : m = [] := by
  rcases m with _ | ⟨d, _ | ⟨e, m⟩⟩
  · rfl
  · simp only [sumSep_append, List.cons_append, List.nil_append, List.cons.injEq] at h
    exact absurd h.2.1 (by decide)
  · simp only [sumSep_append, List.cons_append, List.cons.injEq] at h
    obtain ⟨rfl, rfl, -⟩ := h
    exact absurd hi (not_inside_append ha m)

/-- Of two balanced texts with every `+` inside parentheses, each followed by ` + `, the joined
texts agree only if the texts do. -/
theorem append_sep_inj {a' t t' : List CodePoint} (ha : Balanced a) (ha' : Balanced a')
    (hi : Inside plusCode a) (hi' : Inside plusCode a')
    (h : a ++ (sumSep ++ t) = a' ++ (sumSep ++ t')) : a = a' ∧ t = t' := by
  rcases List.append_eq_append_iff.mp h with ⟨m, rfl, hm⟩ | ⟨m, rfl, hm⟩
  · obtain rfl := eq_nil_of_sep ha hi' hm
    simpa using hm
  · obtain rfl := eq_nil_of_sep ha' hi hm
    simpa using hm.symm

theorem intercalate_append {sep : List CodePoint} {xs ys : List (List CodePoint)} (hx : xs ≠ [])
    (hy : ys ≠ []) :
    sep.intercalate (xs ++ ys) = sep.intercalate xs ++ (sep ++ sep.intercalate ys) := by
  induction xs with
  | nil => exact absurd rfl hx
  | cons x xs ih =>
    cases xs with
    | nil => simp [List.intercalate_cons_of_ne_nil hy]
    | cons x' xs =>
      have := ih (by simp)
      rw [List.cons_append] at this
      simp [this]

/-- Texts joined by ` + `, each balanced with every `+` inside parentheses, can be read back. -/
theorem intercalate_inj : ∀ {xs ys : List (List CodePoint)},
    (∀ x ∈ xs, Balanced x ∧ Inside plusCode x) → (∀ y ∈ ys, Balanced y ∧ Inside plusCode y) →
    xs ≠ [] → ys ≠ [] → sumSep.intercalate xs = sumSep.intercalate ys → xs = ys
  | [x], [y], _, _, _, _, h => by simpa using h
  | [x], y :: y' :: ys, hx, hy, _, _, h => by
    -- the single text would hold a `+` at depth zero
    simp only [List.intercalate_singleton, List.intercalate_cons_cons, List.append_assoc,
      sumSep_append] at h
    exact absurd (h ▸ (hx x (by simp)).2) (not_inside_append (hy y (by simp)).1 _)
  | x :: x' :: xs, [y], hx, hy, _, _, h => by
    simp only [List.intercalate_singleton, List.intercalate_cons_cons, List.append_assoc,
      sumSep_append] at h
    exact absurd (h ▸ (hy y (by simp)).2) (not_inside_append (hx x (by simp)).1 _)
  | x :: x' :: xs, y :: y' :: ys, hx, hy, _, _, h => by
    simp only [List.intercalate_cons_cons, List.append_assoc] at h
    obtain ⟨rfl, htail⟩ := append_sep_inj (hx x (by simp)).1 (hy y (by simp)).1
      (hx x (by simp)).2 (hy y (by simp)).2 h
    rw [intercalate_inj (fun z hz => hx z (List.mem_cons_of_mem x hz))
      (fun z hz => hy z (List.mem_cons_of_mem x hz)) (by simp) (by simp) htail]

/-- The text `(l)*(r)` of a product. -/
def prodText (l r : List CodePoint) : List CodePoint :=
  wrap l ++ .ofChar '*' :: wrap r

/-- A balanced text followed by `)` is not the beginning of a balanced text. -/
theorem eq_nil_of_close (ha : Balanced a) {m t t' : List CodePoint} (hb : Balanced (a ++ m))
    (h : .ofChar ')' :: t = m ++ .ofChar ')' :: t') : m = [] := by
  cases m with
  | nil => rfl
  | cons d m =>
    obtain ⟨rfl, -⟩ := List.cons.inj h
    have := hb.nonneg (a ++ [.ofChar ')']) m (by simp)
    simp [ha.closed] at this

/-- The text of a product of balanced texts can be read back. -/
theorem prodText_inj {l r l' r' : List CodePoint} (hl : Balanced l) (hl' : Balanced l')
    (h : prodText l r = prodText l' r') : l = l' ∧ r = r' := by
  simp only [prodText, Text.wrap, List.cons_append, List.cons.injEq, true_and,
    List.append_assoc] at h
  rcases List.append_eq_append_iff.mp h with ⟨m, rfl, hm⟩ | ⟨m, rfl, hm⟩
  · obtain rfl := eq_nil_of_close hl hl' hm
    simpa using hm
  · obtain rfl := eq_nil_of_close hl' hl hm
    simpa using hm.symm

theorem prodText_eq_iff {l r l' r' : List CodePoint} (hl : Balanced l) (hl' : Balanced l') :
    prodText l r = prodText l' r' ↔ l = l' ∧ r = r' :=
  ⟨prodText_inj hl hl', fun h => h.1 ▸ h.2 ▸ rfl⟩

end Text

end Polyform
