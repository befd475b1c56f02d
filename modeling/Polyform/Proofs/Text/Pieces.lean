import Polyform.Proofs.Text.Balanced

/-!
# Cutting text at depth zero

`Text.balance` decides `Text.Balanced` (`balance_eq_balanced_iff`). Cutting at the separators of
depth zero loses nothing: the pieces joined by the separator are the text (`intercalate_splitTop`).
On balanced text, with a separator of one code point that is no parenthesis, every piece is
balanced and holds the separator only inside parentheses (`balanced_of_mem_splitTop`); and
pieces of that kind, joined, are cut back into themselves (`splitTop_intercalate`).

A text is enclosed (`Text.enclosed`) when it is one parenthesised group: the depth does not come
back to zero before the last code point (`staysOpen_iff`). A balanced text in parentheses is
enclosed (`enclosed_wrap`), and a text that comes back to depth zero before its end is not
(`enclosed_append_eq_false`). Trimming takes blanks off both ends and nothing else
(`trimList_spec`, `trimList_eq`).
-/

namespace Polyform

namespace Text

variable {cs a b m : List CodePoint} {c : CodePoint}

/-! ## Balance -/

theorem balanceFrom_eq_balanced_iff : ∀ {d : ℤ} (i : ℕ) (cs : List CodePoint), 0 ≤ d →
    (balanceFrom d i cs = .balanced ↔ (∀ p q, cs = p ++ q → 0 ≤ d + depth p) ∧ d + depth cs = 0)
  | d, i, [], hd => by
    by_cases h0 : d = 0
    · subst h0
      simp only [balanceFrom, if_true, depth_nil, add_zero, true_iff]
      exact ⟨fun p q h => by simp [List.nil_eq_append_iff.mp h |>.1], trivial⟩
    · simp [balanceFrom, h0]
  | d, i, e :: cs, hd => by
    simp only [balanceFrom]
    split_ifs with hneg
    · -- the code point `e` takes the depth below zero
      refine iff_of_false (by simp) fun h => ?_
      have := h.1 [e] cs rfl
      simp only [depth_cons, depth_nil, add_zero] at this
      omega
    · rw [balanceFrom_eq_balanced_iff (i + 1) cs (by omega)]
      constructor
      · rintro ⟨hp, hc⟩
        refine ⟨fun p q h => ?_, by simp only [depth_cons]; omega⟩
        cases p with
        | nil => simpa using hd
        | cons e' p =>
          obtain ⟨rfl, rfl⟩ := List.cons.inj h
          have := hp p q rfl
          simp only [depth_cons]
          omega
      · rintro ⟨hp, hc⟩
        refine ⟨fun p q h => ?_, by simp only [depth_cons] at hc; omega⟩
        have := hp (e :: p) q (by simp [h])
        simp only [depth_cons] at this
        omega

/-- `balance` decides balance. -/
theorem balance_eq_balanced_iff : balance cs = .balanced ↔ Balanced cs := by
  rw [balance, balanceFrom_eq_balanced_iff 0 cs le_rfl]
  simp only [zero_add]
  exact ⟨fun h => ⟨h.1, h.2⟩, fun h => ⟨h.nonneg, h.closed⟩⟩

/-! ## Cutting -/

theorem splitFrom_nil (sep : List CodePoint) (d : ℤ) (cur : List CodePoint) :
    splitFrom sep d cur [] = [cur.reverse] := by
  simp [splitFrom]

theorem splitFrom_ne_nil (sep : List CodePoint) :
    ∀ (d : ℤ) (cur cs : List CodePoint), splitFrom sep d cur cs ≠ []
  | d, cur, [] => by simp [splitFrom]
  | d, cur, e :: cs => by
    simp only [splitFrom]
    split
    · simp
    · exact splitFrom_ne_nil sep _ _ cs

/-- The pieces joined by the separator are the text. -/
theorem intercalate_splitFrom (sep : List CodePoint) :
    ∀ (d : ℤ) (cur cs : List CodePoint),
      sep.intercalate (splitFrom sep d cur cs) = cur.reverse ++ cs
  | d, cur, [] => by simp [splitFrom]
  | d, cur, e :: cs => by
    simp only [splitFrom]
    split
    · rename_i h
      rw [List.intercalate_cons_of_ne_nil (splitFrom_ne_nil sep d [] cs),
        intercalate_splitFrom sep d [] cs, ← h.2]
      simp
    · rw [intercalate_splitFrom sep _ (e :: cur) cs]
      simp

theorem intercalate_splitTop (sep cs : List CodePoint) : sep.intercalate (splitTop sep cs) = cs := by
  simp [splitTop, intercalate_splitFrom]

/-- Code points that are not the separator at depth zero go into the current piece. -/
theorem splitFrom_append : ∀ (a : List CodePoint) {d : ℤ} (cur rest : List CodePoint),
    (∀ p q, a = p ++ c :: q → d + depth p ≠ 0) →
    splitFrom [c] d cur (a ++ rest) = splitFrom [c] (d + depth a) (a.reverse ++ cur) rest
  | [], d, cur, rest, _ => by simp
  | e :: a, d, cur, rest, h => by
    rw [List.cons_append, splitFrom, if_neg]
    · rw [splitFrom_append a (e :: cur) rest fun p q hpq => by
        have := h (e :: p) q (by simp [hpq])
        simp only [depth_cons] at this
        omega]
      simp [add_assoc]
    · -- a separator at depth zero would be a cut inside `a`
      rintro ⟨hd, he⟩
      have := h [] a (by simp only [List.cons.injEq, and_true] at he; simp [he])
      simp [hd] at this

/-- Pieces that are balanced and hold the separator only inside parentheses, joined by it, are
cut back into themselves. -/
theorem splitTop_intercalate : ∀ {xs : List (List CodePoint)}, xs ≠ [] →
    (∀ x ∈ xs, Balanced x ∧ Inside c x) → splitTop [c] ([c].intercalate xs) = xs
  | [x], _, hx => by
    have hin := (hx x (by simp)).2
    rw [List.intercalate_singleton, splitTop, ← List.append_nil x,
      splitFrom_append x [] [] fun p q h => by simpa using (hin p q h).ne']
    simp [splitFrom_nil]
  | x :: x' :: xs, _, hx => by
    obtain ⟨hb, hin⟩ := hx x (by simp)
    rw [List.intercalate_cons_cons, List.append_assoc, splitTop,
      splitFrom_append x [] _ fun p q h => by simpa using (hin p q h).ne', zero_add, hb.closed,
      List.singleton_append, splitFrom, if_pos ⟨rfl, rfl⟩]
    simp only [List.append_nil, List.reverse_reverse, List.cons.injEq, true_and]
    exact splitTop_intercalate (by simp) fun y hy => hx y (List.mem_cons_of_mem x hy)

theorem nonneg_concat {pre : List CodePoint} {e : CodePoint}
    (hnn : ∀ p q, pre = p ++ q → 0 ≤ depth p) (he : 0 ≤ depth pre + depthStep e) :
    ∀ p q, pre ++ [e] = p ++ q → 0 ≤ depth p := by
  intro p q h
  rcases List.eq_nil_or_concat q with rfl | ⟨q', e', rfl⟩
  · rw [List.append_nil] at h
    rw [← h]
    simpa using he
  · have h' : pre ++ [e] = (p ++ q') ++ [e'] := by simpa using h
    exact hnn p q' (List.append_inj' h' rfl).1

theorem Inside.concat {pre : List CodePoint} {e : CodePoint} (hin : Inside c pre)
    (he : e = c → 0 < depth pre) : Inside c (pre ++ [e]) := by
  intro p q h
  rcases List.eq_nil_or_concat q with rfl | ⟨q', e', rfl⟩
  · obtain ⟨rfl, hec⟩ := List.append_inj' h rfl
    exact he (by simpa using hec)
  · have h' : pre ++ [e] = (p ++ c :: q') ++ [e'] := by rw [h]; simp
    exact hin p q' (List.append_inj' h' rfl).1

/-- While the text is cut, the current piece `cur.reverse` is at depth `d`, no prefix of it is
below zero and the separator stands in it only inside parentheses; the rest of the text closes
the depth `d` without going below zero. Then every piece is balanced and holds the separator only
inside parentheses. -/
theorem balanced_of_mem_splitFrom (hc : depthStep c = 0) :
    ∀ (cs : List CodePoint) {d : ℤ} (cur : List CodePoint),
      depth cur.reverse = d → (∀ p q, cur.reverse = p ++ q → 0 ≤ depth p) → Inside c cur.reverse →
      (∀ p q, cs = p ++ q → 0 ≤ d + depth p) → d + depth cs = 0 →
      ∀ x ∈ splitFrom [c] d cur cs, Balanced x ∧ Inside c x
  | [], d, cur, hd, hnn, hin, _, hcl => by
    simp only [splitFrom_nil, List.mem_singleton]
    rintro x rfl
    exact ⟨⟨hnn, by simpa [hd] using hcl⟩, hin⟩
  | e :: cs, d, cur, hd, hnn, hin, hrest, hcl => by
    have he : 0 ≤ d + depthStep e := by simpa using hrest [e] cs rfl
    have hd0 : 0 ≤ d := hd ▸ hnn cur.reverse [] (by simp)
    simp only [splitFrom]
    split
    · -- a cut: the piece ends at depth zero, and the rest starts a piece of its own
      rename_i h
      obtain ⟨rfl, hsep⟩ := h
      obtain rfl : c = e := (by simpa using hsep : e = c).symm
      simp only [List.mem_cons]
      rintro x (rfl | hx)
      · exact ⟨⟨hnn, hd⟩, hin⟩
      · refine balanced_of_mem_splitFrom hc cs [] (by simp) (by simp) (inside_of_not_mem (by simp))
          (fun p q h => ?_) (by simpa [hc] using hcl) x hx
        simpa [hc, h] using hrest (c :: p) q (by simp [h])
    · -- the code point joins the current piece
      rename_i h
      refine balanced_of_mem_splitFrom hc cs (e :: cur) (by simp [hd]) ?_ ?_ (fun p q hpq => ?_)
        (by simp only [depth_cons] at hcl; omega)
      · rw [List.reverse_cons]
        exact nonneg_concat hnn (by rwa [hd])
      · rw [List.reverse_cons]
        refine hin.concat fun hec => ?_
        have : d ≠ 0 := fun h0 => h ⟨h0, by rw [hec]⟩
        omega
      · have := hrest (e :: p) q (by simp [hpq])
        simp only [depth_cons] at this
        omega

/-- On balanced text, every piece is balanced and holds the separator only inside parentheses. -/
theorem balanced_of_mem_splitTop (hc : depthStep c = 0) (hb : Balanced cs) :
    ∀ x ∈ splitTop [c] cs, Balanced x ∧ Inside c x :=
  balanced_of_mem_splitFrom hc cs [] (by simp) (by simp) (inside_of_not_mem (by simp))
    (fun p q h => by simpa using hb.nonneg p q h) (by simpa using hb.closed)

/-- A balanced text that is its own only piece holds the separator only inside parentheses. -/
theorem inside_of_length_splitTop_le (hc : depthStep c = 0) (hb : Balanced cs)
    (h : (splitTop [c] cs).length ≤ 1) : Inside c cs := by
  obtain ⟨x, hx⟩ : ∃ x, splitTop [c] cs = [x] := by
    have := List.length_pos_iff.mpr (splitFrom_ne_nil [c] 0 [] cs)
    exact List.length_eq_one_iff.mp (by simp only [splitTop] at h ⊢; omega)
  have hxcs : x = cs := by simpa [hx] using intercalate_splitTop [c] cs
  subst hxcs
  exact (balanced_of_mem_splitTop hc hb x (by simp [hx])).2

/-! ## Enclosing parentheses -/

theorem staysOpen_iff : ∀ (d : ℤ) (cs : List CodePoint),
    staysOpen d cs = true ↔ ∀ p q, cs = p ++ q → p ≠ [] → d + depth p ≠ 0
  | d, [] => by simp [staysOpen]
  | d, e :: cs => by
    simp only [staysOpen, Bool.and_eq_true, bne_iff_ne, ne_eq, staysOpen_iff (d + depthStep e) cs]
    constructor
    · rintro ⟨he, hcs⟩ p q hpq hp
      cases p with
      | nil => exact absurd rfl hp
      | cons f p =>
        obtain ⟨rfl, rfl⟩ := List.cons.inj hpq
        cases p with
        | nil => simpa using he
        | cons g p =>
          have := hcs (g :: p) q rfl (by simp)
          simp only [depth_cons] at this ⊢
          omega
    · intro h
      refine ⟨by simpa using h [e] cs rfl (by simp), fun p q hpq hp => ?_⟩
      have := h (e :: p) q (by simp [hpq]) (by simp)
      simp only [depth_cons] at this
      omega

/-- A text in parentheses whose prefixes never go below zero is enclosed. -/
theorem enclosed_wrap (hnn : ∀ p q, m = p ++ q → 0 ≤ depth p) : enclosed (wrap m) = true := by
  have hopen : staysOpen 0 (.ofChar '(' :: m) = true := by
    rw [staysOpen_iff]
    intro p q hpq hp
    cases p with
    | nil => exact absurd rfl hp
    | cons f p =>
      obtain ⟨rfl, rfl⟩ := List.cons.inj hpq
      have := hnn p q rfl
      simp only [depth_cons, depthStep_open]
      omega
  have hdrop : (wrap m).dropLast = .ofChar '(' :: m := by
    rw [wrap, List.dropLast_concat]
  have hlast : (wrap m).getLast? = some (.ofChar ')') := List.getLast?_concat
  have hhead : (wrap m).head? = some (.ofChar '(') := rfl
  simp only [enclosed, hdrop, hopen, hlast, hhead, beq_self_eq_true, Bool.and_self]

/-- A text that comes back to depth zero before its end is not enclosed. -/
theorem enclosed_append_eq_false (ha : a ≠ []) (hd : depth a = 0) (hb : b ≠ []) :
    enclosed (a ++ b) = false := by
  simp only [enclosed, Bool.and_eq_false_iff]
  right
  rw [List.dropLast_append_of_ne_nil hb, Bool.eq_false_iff, ne_eq, staysOpen_iff]
  intro h
  exact h a _ rfl ha (by simp [hd])

theorem exists_wrap_of_enclosed (h : enclosed cs = true) : ∃ m, cs = wrap m := by
  simp only [enclosed, Bool.and_eq_true, beq_iff_eq] at h
  obtain ⟨⟨hhead, hlast⟩, -⟩ := h
  obtain ⟨ys, rfl⟩ := List.getLast?_eq_some_iff.mp hlast
  cases ys with
  | nil => exact absurd (by simpa using hhead) (by decide)
  | cons e m =>
    obtain rfl : e = .ofChar '(' := by simpa using hhead
    exact ⟨m, rfl⟩

/-! ## Trimming -/

/-- Trimming takes blank code points off both ends. -/
theorem trimList_spec (cs : List CodePoint) :
    ∃ bs bs', cs = bs ++ trimList cs ++ bs' ∧ (∀ c ∈ bs, isBlank c = true) ∧
      ∀ c ∈ bs', isBlank c = true := by
  set u := cs.dropWhile isBlank
  set v := u.reverse.dropWhile isBlank
  have h1 : cs = cs.takeWhile isBlank ++ u := List.takeWhile_append_dropWhile.symm
  have h2 : u = v.reverse ++ (u.reverse.takeWhile isBlank).reverse := by
    have := congrArg List.reverse (List.takeWhile_append_dropWhile (p := isBlank) (l := u.reverse))
    rw [List.reverse_append, List.reverse_reverse] at this
    exact this.symm
  refine ⟨cs.takeWhile isBlank, (u.reverse.takeWhile isBlank).reverse, ?_,
    fun c hc => List.mem_takeWhile_imp hc, fun c hc => List.mem_takeWhile_imp (List.mem_reverse.mp hc)⟩
  rw [trimList, List.append_assoc, ← h2]
  exact h1

/-- Blanks in front of a text that does not begin with one are dropped, and nothing more. -/
theorem dropWhile_blanks_append {bs : List CodePoint} (hbs : ∀ c ∈ bs, isBlank c = true)
    (hm : ∀ e ∈ m.head?, isBlank e = false) : (bs ++ m).dropWhile isBlank = m := by
  rw [List.dropWhile_append, if_pos (by simpa [List.dropWhile_eq_nil_iff] using hbs)]
  cases m with
  | nil => rfl
  | cons e m => simp [hm e rfl]

/-- Trimming a text between blanks that neither begins nor ends with a blank gives the text. -/
theorem trimList_eq {bs bs' : List CodePoint} (hbs : ∀ c ∈ bs, isBlank c = true)
    (hbs' : ∀ c ∈ bs', isBlank c = true) (hne : m ≠ []) (hhead : ∀ e ∈ m.head?, isBlank e = false)
    (hlast : ∀ f ∈ m.getLast?, isBlank f = false) : trimList (bs ++ m ++ bs') = m := by
  rw [trimList, List.append_assoc, dropWhile_blanks_append hbs (by
      rwa [List.head?_append_of_ne_nil _ hne]), List.reverse_append,
    dropWhile_blanks_append (by simpa using hbs') (by rwa [List.head?_reverse]),
    List.reverse_reverse]

/-! ## Separators at depth zero -/

/-- The number of occurrences of `c` in the rest of a text, read from depth `d`, that stand at
depth zero: behind a prefix whose parentheses are all closed. -/
def topCount (c : CodePoint) : ℤ → List CodePoint → ℕ
  | _, [] => 0
  | d, e :: cs => (if d = 0 ∧ e = c then 1 else 0) + topCount c (d + depthStep e) cs

theorem depthStep_eq_zero_iff : depthStep c = 0 ↔ c ≠ .ofChar '(' ∧ c ≠ .ofChar ')' := by
  unfold depthStep
  split_ifs with h₁ h₂ <;> simp_all

/-- Every separator at depth zero starts one more piece. The depth is not moved by the
separator, which is what lets the cutter skip it. -/
theorem length_splitFrom (hc : depthStep c = 0) :
    ∀ (d : ℤ) (cur cs : List CodePoint), (splitFrom [c] d cur cs).length = 1 + topCount c d cs
  | d, cur, [] => by simp [splitFrom, topCount]
  | d, cur, e :: cs => by
    simp only [splitFrom, topCount]
    split
    · rename_i h
      obtain ⟨rfl, he⟩ := h
      have he : e = c := by simpa using he
      rw [List.length_cons, length_splitFrom hc 0 [] cs, he, hc, add_zero, if_pos ⟨rfl, rfl⟩]
      omega
    · rename_i h
      rw [length_splitFrom hc _ (e :: cur) cs, if_neg (by simpa using h)]
      omega

/-- On balanced text, with a separator of one code point that is no parenthesis, the pieces are
exactly the texts that are balanced, hold the separator only inside parentheses and give the
text back when joined by it: the separators between them are the ones at depth zero. -/
theorem splitTop_eq_iff (hc : depthStep c = 0) (hb : Balanced cs) {xs : List (List CodePoint)} :
    splitTop [c] cs = xs ↔
      xs ≠ [] ∧ [c].intercalate xs = cs ∧ ∀ x ∈ xs, Balanced x ∧ Inside c x := by
  constructor
  · rintro rfl
    exact ⟨splitFrom_ne_nil _ 0 [] cs, intercalate_splitTop _ cs, balanced_of_mem_splitTop hc hb⟩
  · rintro ⟨hne, rfl, hxs⟩
    exact splitTop_intercalate hne hxs

/-- Cutting text at the separators of depth zero. Joining the pieces by the separator gives the
text back, whatever the separator. When it is one code point other than a parenthesis and the
text is balanced, the pieces are the texts between the separators at depth zero: each is
balanced and holds the separator only inside parentheses, and there is one more piece than
there are such separators. -/
theorem splitTop_cuts_at_depth_zero (sep cs : List CodePoint) :
    sep.intercalate (splitTop sep cs) = cs ∧
      ∀ c, sep = [c] → c ≠ .ofChar '(' → c ≠ .ofChar ')' → Balanced cs →
        (∀ xs, splitTop sep cs = xs ↔
          xs ≠ [] ∧ sep.intercalate xs = cs ∧ ∀ x ∈ xs, Balanced x ∧ Inside c x) ∧
        (∀ x ∈ splitTop sep cs, Balanced x ∧ Inside c x) ∧
        (splitTop sep cs).length = 1 + topCount c 0 cs := by
  refine ⟨intercalate_splitTop sep cs, ?_⟩
  rintro c rfl hopen hclose hb
  have hc : depthStep c = 0 := depthStep_eq_zero_iff.mpr ⟨hopen, hclose⟩
  exact ⟨fun xs => splitTop_eq_iff hc hb, balanced_of_mem_splitTop hc hb,
    length_splitFrom hc 0 [] cs⟩

/-- The terms of `a+(b+c)+d` are cut at the two `+` outside the parentheses. -/
theorem splitTop_sum_with_group :
    Balanced (CodePoint.ofString "a+(b+c)+d") ∧
      (∀ xs, splitTop [plusCode] (CodePoint.ofString "a+(b+c)+d") = xs ↔
        xs ≠ [] ∧ [plusCode].intercalate xs = CodePoint.ofString "a+(b+c)+d" ∧
          ∀ x ∈ xs, Balanced x ∧ Inside plusCode x) ∧
      (∀ x ∈ splitTop [plusCode] (CodePoint.ofString "a+(b+c)+d"),
        Balanced x ∧ Inside plusCode x) ∧
      (splitTop [plusCode] (CodePoint.ofString "a+(b+c)+d")).length =
        1 + topCount plusCode 0 (CodePoint.ofString "a+(b+c)+d") := by
  have hb : Balanced (CodePoint.ofString "a+(b+c)+d") :=
    balance_eq_balanced_iff.mp (by decide +kernel)
  exact ⟨hb, (splitTop_cuts_at_depth_zero [plusCode] (CodePoint.ofString "a+(b+c)+d")).2 plusCode
    rfl (by decide) (by decide) hb⟩

end Text

end Polyform
