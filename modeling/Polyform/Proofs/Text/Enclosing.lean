import Polyform.Proofs.Text.Pieces

/-!
# Enclosing parentheses

A text is matched (`Text.Matched`) when it opens with `(` and its last code point is the `)` that
closes that one: it is a balanced text in parentheses. `Text.enclosed` only watches the depth,
which must not come back to zero before the last code point; on balanced text this decides
exactly whether the text is matched (`Text.enclosed_iff_matched`).

`Text.unwrap` takes off blanks and matched pairs until neither is left. What it leaves of a
balanced text is balanced, neither begins nor ends with a blank, and is not matched; and the text
was what it leaves inside some number of pairs, with blanks around each (`Text.Wraps`). Such a
text is left alone, so unwrapping twice is unwrapping once (`Text.unwrap_of_unwrapped`).
-/

namespace Polyform

namespace Text

variable {cs m r t : List CodePoint} {c : CodePoint}

/-- The text opens with `(`, and its last code point is the `)` that matches it. -/
def Matched (cs : List CodePoint) : Prop :=
  ∃ m, cs = wrap m ∧ Balanced m

/-- `Wraps r k t`: the text `t` is `r` inside `k` pairs of parentheses, with blank code points
before and after `r` and before and after every pair. -/
inductive Wraps (r : List CodePoint) : ℕ → List CodePoint → Prop
  /-- No pair: blanks around `r`. -/
  | blanks {bs bs' : List CodePoint} : (∀ c ∈ bs, isBlank c = true) →
      (∀ c ∈ bs', isBlank c = true) → Wraps r 0 (bs ++ r ++ bs')
  /-- One pair more, with blanks around it. -/
  | wrap {k : ℕ} {t bs bs' : List CodePoint} : Wraps r k t → (∀ c ∈ bs, isBlank c = true) →
      (∀ c ∈ bs', isBlank c = true) → Wraps r (k + 1) (bs ++ Text.wrap t ++ bs')

/-- What unwrapping leaves of the text `t`: a balanced text `r` with no blank at either end and
no matched pair around it, out of which `t` is made by pairs and blanks. -/
structure Unwrapped (t r : List CodePoint) : Prop where
  balanced : Balanced r
  head_not_blank : ∀ c ∈ r.head?, isBlank c = false
  last_not_blank : ∀ c ∈ r.getLast?, isBlank c = false
  not_matched : ¬Matched r
  wraps : ∃ k, Wraps r k t

/-! ## Blanks -/

theorem depthStep_of_isBlank (h : isBlank c = true) : depthStep c = 0 := by
  obtain ⟨v⟩ := c
  have hopen : CodePoint.ofChar '(' = ⟨40⟩ := rfl
  have hclose : CodePoint.ofChar ')' = ⟨41⟩ := rfl
  simp only [isBlank, blankRanges, List.any_cons, List.any_nil, Bool.or_false, Bool.or_eq_true,
    Bool.and_eq_true, decide_eq_true_eq] at h
  simp only [depthStep, hopen, hclose, CodePoint.mk.injEq]
  split_ifs <;> omega

/-- Blanks around a balanced text leave it balanced, and taking them off does too. -/
theorem balanced_blanks_iff {bs bs' : List CodePoint} (hbs : ∀ c ∈ bs, isBlank c = true)
    (hbs' : ∀ c ∈ bs', isBlank c = true) : Balanced (bs ++ m ++ bs') ↔ Balanced m := by
  have hb : Balanced bs := balanced_of_forall fun c hc => depthStep_of_isBlank (hbs c hc)
  have hb' : Balanced bs' := balanced_of_forall fun c hc => depthStep_of_isBlank (hbs' c hc)
  refine ⟨fun h => ⟨fun p q hpq => ?_, ?_⟩, fun h => (hb.append h).append hb'⟩
  · -- a prefix of `m` is a prefix of the whole text behind the blanks
    have := h.nonneg (bs ++ p) (q ++ bs') (by simp [hpq])
    rwa [depth_append, hb.closed, zero_add] at this
  · have := h.closed
    rwa [depth_append, depth_append, hb.closed, hb'.closed, zero_add, add_zero] at this

theorem balanced_trimList (h : Balanced cs) : Balanced (trimList cs) := by
  obtain ⟨bs, bs', hcs, hbs, hbs'⟩ := trimList_spec cs
  rw [hcs] at h
  exact (balanced_blanks_iff hbs hbs').mp h

/-- Trimmed text does not begin with a blank. -/
theorem head_trimList (cs : List CodePoint) : ∀ c ∈ (trimList cs).head?, isBlank c = false := by
  intro c hc
  -- the trimmed text is a prefix of the text without its leading blanks
  have hpre : trimList cs <+: cs.dropWhile isBlank :=
    ⟨((cs.dropWhile isBlank).reverse.takeWhile isBlank).reverse, by
      rw [trimList, ← List.reverse_append, List.takeWhile_append_dropWhile, List.reverse_reverse]⟩
  have hne : trimList cs ≠ [] := by rintro h; simp [h] at hc
  have hu : cs.dropWhile isBlank ≠ [] := fun h => hne (List.prefix_nil.mp (h ▸ hpre))
  rw [List.head?_eq_some_head hne, Option.mem_some_iff] at hc
  rw [← hc, hpre.head hne]
  exact List.head_dropWhile_not isBlank hu

/-- Trimmed text does not end with a blank. -/
theorem getLast_trimList (cs : List CodePoint) :
    ∀ c ∈ (trimList cs).getLast?, isBlank c = false := by
  intro c hc
  rw [trimList, List.getLast?_reverse] at hc
  have hne : (cs.dropWhile isBlank).reverse.dropWhile isBlank ≠ [] := by rintro h; simp [h] at hc
  rw [List.head?_eq_some_head hne, Option.mem_some_iff] at hc
  rw [← hc]
  exact List.head_dropWhile_not isBlank hne

/-- A text with no blank at either end is its own trimming. -/
theorem trimList_of_ends (hhead : ∀ c ∈ r.head?, isBlank c = false)
    (hlast : ∀ c ∈ r.getLast?, isBlank c = false) : trimList r = r := by
  rcases eq_or_ne r [] with rfl | hne
  · rfl
  · have h := trimList_eq (fun c (hc : c ∈ ([] : List CodePoint)) => absurd hc List.not_mem_nil)
      (fun c (hc : c ∈ ([] : List CodePoint)) => absurd hc List.not_mem_nil) hne hhead hlast
    simpa using h

/-! ## Matched pairs -/

theorem drop_dropLast_wrap (m : List CodePoint) : ((wrap m).drop 1).dropLast = m := by
  simp [wrap]

/-- An enclosed balanced text in parentheses holds a balanced text: inside the pair the depth
stays at one or above until the last code point. -/
theorem balanced_of_enclosed_wrap (hb : Balanced (wrap m)) (h : enclosed (wrap m) = true) :
    Balanced m := by
  have hopen : staysOpen 0 (.ofChar '(' :: m) = true := by
    simp only [enclosed, Bool.and_eq_true] at h
    rw [← h.2, wrap, List.dropLast_concat]
  rw [staysOpen_iff] at hopen
  refine ⟨fun p q hpq => ?_, ?_⟩
  · have hne := hopen (.ofChar '(' :: p) q (by simp [hpq]) (by simp)
    have hnn := hb.nonneg (.ofChar '(' :: p) (q ++ [.ofChar ')']) (by simp [wrap, hpq])
    simp only [depth_cons, depthStep_open, zero_add] at hne hnn
    omega
  · have := hb.closed
    simpa [wrap] using this

/-- On balanced text, `enclosed` decides whether the text is matched. -/
theorem enclosed_iff_matched (hb : Balanced cs) : enclosed cs = true ↔ Matched cs := by
  constructor
  · intro h
    obtain ⟨m, rfl⟩ := exists_wrap_of_enclosed h
    exact ⟨m, rfl, balanced_of_enclosed_wrap hb h⟩
  · rintro ⟨m, rfl, hm⟩
    exact enclosed_wrap hm.nonneg

/-! ## Unwrapping -/

/-- What unwrapping leaves of a balanced text. The induction follows `unwrap`: an enclosed text
is, after trimming, a matched pair around a balanced text, which is unwrapped in turn. -/
theorem unwrapped_unwrap (hb : Balanced cs) : Unwrapped cs (unwrap cs) := by
  fun_induction unwrap cs with
  | case1 cs h ih =>
    obtain ⟨m, hm, hbm⟩ := (enclosed_iff_matched (balanced_trimList hb)).mp h
    rw [hm, drop_dropLast_wrap] at ih ⊢
    obtain ⟨hr, hhead, hlast, hnm, k, hk⟩ := ih hbm
    obtain ⟨bs, bs', hcs, hbs, hbs'⟩ := trimList_spec cs
    rw [hm] at hcs
    exact ⟨hr, hhead, hlast, hnm, k + 1, hcs ▸ hk.wrap hbs hbs'⟩
  | case2 cs h =>
    obtain ⟨bs, bs', hcs, hbs, hbs'⟩ := trimList_spec cs
    have hbt := balanced_trimList hb
    have hw : Wraps (trimList cs) 0 (bs ++ trimList cs ++ bs') := .blanks hbs hbs'
    rw [← hcs] at hw
    exact ⟨hbt, head_trimList cs, getLast_trimList cs,
      fun hm => h ((enclosed_iff_matched hbt).mpr hm), 0, hw⟩

/-- What is left by unwrapping is left alone by it. -/
theorem unwrap_of_unwrapped (h : Unwrapped t r) : unwrap r = r := by
  have hne : ¬enclosed r = true := fun he => h.not_matched ((enclosed_iff_matched h.balanced).mp he)
  rw [unwrap, trimList_of_ends h.head_not_blank h.last_not_blank, dif_neg hne]

/-- Unwrapping on balanced text. The text is enclosed exactly when it is matched; unwrapping
leaves a balanced text without blanks at its ends and without a matched pair around it, out of
which the text is made by some number of pairs and blanks; and unwrapping again changes
nothing. -/
theorem unwrap_strips_matched_pairs (hb : Balanced cs) :
    (enclosed cs = true ↔ Matched cs) ∧ Unwrapped cs (unwrap cs) ∧
      unwrap (unwrap cs) = unwrap cs :=
  ⟨enclosed_iff_matched hb, unwrapped_unwrap hb, unwrap_of_unwrapped (unwrapped_unwrap hb)⟩

/-- ` ( (x) ) ` is `x` inside two pairs. -/
theorem unwrap_nested_pairs :
    Balanced (CodePoint.ofString " ( (x) ) ") ∧
      ((enclosed (CodePoint.ofString " ( (x) ) ") = true ↔ Matched (CodePoint.ofString " ( (x) ) ")) ∧
        Unwrapped (CodePoint.ofString " ( (x) ) ") (unwrap (CodePoint.ofString " ( (x) ) ")) ∧
        unwrap (unwrap (CodePoint.ofString " ( (x) ) ")) = unwrap (CodePoint.ofString " ( (x) ) ")) := by
  have hb : Balanced (CodePoint.ofString " ( (x) ) ") :=
    balance_eq_balanced_iff.mp (by decide +kernel)
  exact ⟨hb, unwrap_strips_matched_pairs hb⟩

end Text

end Polyform
