import Mathlib
import Polyform.Proofs.Expr.Bracketing
import Polyform.Proofs.Expr.Closure

/-!
# What the parser reads is built by the combinators

The parser builds every node through the combinators: a numeral becomes a constant, a name a
variable, the factors of a product are multiplied from the left with `Expr.mulExpr`, and the
terms of a sum are regrouped into a bracketing of `Expr.addExpr` (`Expr.bracketing_regroup`).
A numeral that reads to a finite double gives a constant that may exist, and a name is read only
when it is ASCII letters. So every expression that `Expr.parse` returns is one the combinators
build from valid constants and variables (`Expr.reachable_of_parse`), and whatever holds of
those holds of what is read.
-/

namespace Polyform

/-- A bind that succeeds ran its first step successfully. -/
theorem exists_of_bind_eq_ok {ε α β : Type} {x : Except ε α} {f : α → Except ε β} {b : β}
    (h : (x >>= f) = .ok b) : ∃ a, x = .ok a ∧ f a = .ok b := by
  cases x with
  | error e => simp [bind, Except.bind] at h
  | ok a => exact ⟨a, rfl, h⟩

/-- A successful `mapM` gives one result for each item, each from an item. -/
theorem mapM_eq_ok {ε α β : Type} {f : α → Except ε β} :
    ∀ {xs : List α} {ys : List β}, xs.mapM f = .ok ys →
      ys.length = xs.length ∧ ∀ y ∈ ys, ∃ x ∈ xs, f x = .ok y
  | [], ys, h => by
    simp only [List.mapM_nil, pure, Except.pure, Except.ok.injEq] at h
    subst h
    simp
  | x :: xs, ys, h => by
    rw [List.mapM_cons] at h
    cases hx : f x with
    | error e => simp [hx, bind, Except.bind] at h
    | ok y =>
      cases hxs : xs.mapM f with
      | error e => simp [hx, hxs, bind, Except.bind] at h
      | ok ys' =>
        simp only [hx, hxs, bind, Except.bind, pure, Except.pure, Except.ok.injEq] at h
        subst h
        obtain ⟨hlen, hmem⟩ := mapM_eq_ok hxs
        refine ⟨by simp [hlen], ?_⟩
        intro z hz
        rcases List.mem_cons.mp hz with rfl | hz
        · exact ⟨x, List.mem_cons_self, hx⟩
        · obtain ⟨w, hw, hwz⟩ := hmem z hz
          exact ⟨w, List.mem_cons_of_mem x hw, hwz⟩

namespace CodePoint

/-- A code point below the surrogates is the code point of its character. -/
theorem ofChar_toChar {c : CodePoint} (h : c.val < 0xD800) : ofChar c.toChar = c := by
  simp [ofChar, toChar, Char.toNat_ofNat, Nat.isValidChar, h]

theorem ofString_asString {cs : List CodePoint} (h : ∀ c ∈ cs, c.val < 0xD800) :
    ofString (asString cs) = cs := by
  simp only [ofString, asString, String.toList_ofList, List.map_map]
  exact (List.map_congr_left fun c hc => ofChar_toChar (h c hc)).trans (by simp)

end CodePoint

namespace Binary64

/-- A double that a non-negative number rounds to, if it is not infinite, plus `0.0` may be held
by a constant. -/
theorem isMagnitude_add_zero_of_roundsTo {X : ℚ} {x : Float} (h : RoundsTo X false x)
    (hx : x.isInf = false) : isMagnitude (x + 0.0) = true := by
  have h0 : shape (0.0 : Float) = .zero false := by decide
  unfold RoundsTo at h
  rcases hs : shape x with _ | b | b | ⟨b, v⟩ <;> rw [hs] at h
  · exact h.elim
  · rw [(isInf_iff.mpr ⟨b, hs⟩)] at hx
    exact absurd hx (by decide)
  · obtain ⟨rfl, -⟩ := h
    exact isMagnitude_of_shape_zero (shape_add_zeros hs h0)
  · obtain ⟨rfl, -⟩ := h
    exact isMagnitude_of_shape_finite (shape_add_zero_right hs h0)

end Binary64

namespace Expr

variable {cs : List CodePoint} {e : Expr}

/-- A name of ASCII letters read from text is a valid name. -/
theorem isVarName_asString (h : isName cs = true) : isVarName (CodePoint.asString cs) = true := by
  have hletters : ∀ c ∈ cs, c.isAsciiLetter = true := by
    simp only [isName, Bool.and_eq_true, List.all_eq_true] at h
    exact h.2
  have hval : ∀ c ∈ cs, c.val < 0xD800 := fun c hc => by
    have := hletters c hc
    simp only [CodePoint.isAsciiLetter, Bool.or_eq_true, Bool.and_eq_true,
      decide_eq_true_eq] at this
    omega
  rw [isVarName, CodePoint.ofString_asString hval]
  exact h

/-- An atom is a valid constant or a valid variable. -/
theorem reachable_atom (h : atom cs = .ok e) : Reachable e := by
  unfold atom at h
  split at h
  · rename_i d _
    dsimp only at h
    split at h
    · cases h
    · rename_i hinf
      cases h
      exact .const (Binary64.isMagnitude_add_zero_of_roundsTo (Binary64.roundsTo_toFloat d)
        (by simpa using hinf))
  · split at h
    · rename_i hname
      cases h
      exact .var (isVarName_asString hname)
    · cases h

/-- Multiplying built expressions from the left builds an expression. -/
theorem reachable_foldl_mulExpr :
    ∀ {es : List Expr} {acc : Expr}, Reachable acc → (∀ f ∈ es, Reachable f) →
      Reachable (es.foldl mulExpr acc)
  | [], _, hacc, _ => hacc
  | f :: es, acc, hacc, hes => by
    rw [List.foldl_cons]
    exact reachable_foldl_mulExpr (.mulExpr hacc (hes f List.mem_cons_self))
      fun g hg => hes g (List.mem_cons_of_mem f hg)

/-- Every expression that a piece of text is read as is built by the combinators. The induction
follows the reading: the pieces between the separators are read first, each shorter than the
text. -/
theorem reachable_of_parseGroup {t : List CodePoint} : ∀ {e : Expr}, parseGroup t = .ok e →
    Reachable e := by
  induction t using parseGroup.induct with
  | case1 t ht =>
    intro e h
    rw [parseGroup, if_pos ht] at h
    cases h
  | case2 t ht hplus ih =>
    intro e h
    rw [parseGroup, if_neg ht, dif_pos hplus] at h
    obtain ⟨terms, hterms, h⟩ := exists_of_bind_eq_ok h
    cases h
    obtain ⟨hlen, hmem⟩ := mapM_eq_ok hterms
    have hne : terms ≠ [] := by
      rw [← List.length_pos_iff, hlen, List.length_attach]
      omega
    refine (bracketing_regroup hne).reachable fun term hterm => ?_
    obtain ⟨p, -, hp⟩ := hmem term hterm
    exact ih p hp
  | case3 t ht hplus htimes ih =>
    intro e h
    rw [parseGroup, if_neg ht, dif_neg hplus, dif_pos htimes] at h
    obtain ⟨factors, hfactors, h⟩ := exists_of_bind_eq_ok h
    cases h
    obtain ⟨hlen, hmem⟩ := mapM_eq_ok hfactors
    have hall : ∀ f ∈ factors, Reachable f := fun f hf => by
      obtain ⟨p, -, hp⟩ := hmem f hf
      exact ih p hp
    cases factors with
    | nil => simp at hlen; omega
    | cons f fs =>
      show Reachable (fs.foldl mulExpr f)
      exact reachable_foldl_mulExpr (hall f List.mem_cons_self)
        fun g hg => hall g (List.mem_cons_of_mem f hg)
  | case4 t ht hplus htimes =>
    intro e h
    rw [parseGroup, if_neg ht, dif_neg hplus, dif_neg htimes] at h
    exact reachable_atom h

/-- Every expression that text is read as is built by the combinators from valid constants and
variables. -/
theorem reachable_of_parse {s : List CodePoint} (h : parse s = .ok e) : Reachable e := by
  unfold parse at h
  split at h
  · cases h
  · cases h
  · exact reachable_of_parseGroup h

end Expr

end Polyform
