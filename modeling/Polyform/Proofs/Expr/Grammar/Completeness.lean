import Polyform.Proofs.Expr.Grammar
import Polyform.Proofs.Expr.Reading

/-!
# The reader accepts every sentence

A text that a well-formed derivation spells is read as the expression the derivation builds
(`Grammar.parse_of_spells`): the reader accepts every sentence of the grammar, and what it reads
depends on the tokens alone, not on the blanks between them.

The proof follows the derivation. A number or a name between blanks unwraps to itself and is read
as an atom (`Grammar.parse_of_word`). A primary in parentheses unwraps to the sum inside. A
product of two factors or more, trimmed, is not enclosed, and is cut at its `*` of depth zero into
one piece for each factor (`Grammar.ReadsAs`); a sum is cut at its `+` in the same way. The
splitting the reader does is the splitting of `Text.splitTop_eq_iff`, so the reader meets exactly
the pieces of the derivation.
-/

namespace Polyform

/-- A `mapM` succeeds exactly when each item gives its result, in order. -/
theorem mapM_eq_ok_iff {ε α β : Type} {f : α → Except ε β} {xs : List α} {ys : List β} :
    xs.mapM f = .ok ys ↔ List.Forall₂ (fun x y => f x = .ok y) xs ys := by
  induction xs generalizing ys with
  | nil => cases ys <;> simp [pure, Except.pure]
  | cons x xs ih =>
    rw [List.mapM_cons]
    -- the first item, then the rest, each either fails or gives its results
    cases hx : f x with
    | error e => cases ys <;> simp [bind, Except.bind, hx]
    | ok y =>
      cases hxs : xs.mapM f with
      | error e => cases ys <;> simp [bind, Except.bind, ← ih, hxs, hx]
      | ok ys' => cases ys <;> simp [bind, Except.bind, pure, Except.pure, ← ih, hxs, hx]

/-- Mapping over the members of a list with their proofs of membership, when the proofs are not
used, is mapping over the list. -/
theorem mapM_attach_val {ε α β : Type} {l : List α} (f : α → Except ε β) :
    l.attach.mapM (fun p => f p.1) = l.mapM f := by
  rw [List.mapM_subtype fun _ _ => rfl, List.unattach_attach]

namespace Text

variable {t m bs bs' : List CodePoint} {c : CodePoint}

theorem trimList_of_blanks (h : ∀ c ∈ t, isBlank c = true) : trimList t = [] := by
  simp [trimList, List.dropWhile_eq_nil_iff.mpr h]

/-- Blanks around a text do not change its trimming. -/
theorem trimList_blanks (hbs : ∀ c ∈ bs, isBlank c = true) (hbs' : ∀ c ∈ bs', isBlank c = true) :
    trimList (bs ++ m ++ bs') = trimList m := by
  obtain ⟨b₁, b₂, hm, hb₁, hb₂⟩ := trimList_spec m
  rcases eq_or_ne (trimList m) [] with h | h
  · rw [h]
    rw [h, List.append_nil] at hm
    refine trimList_of_blanks fun c hc => ?_
    simp only [List.mem_append, hm] at hc
    rcases hc with ((hc | hc | hc) | hc) <;> simp_all
  · have hl : ∀ c ∈ bs ++ b₁, isBlank c = true := fun c hc => by
      rcases List.mem_append.mp hc with hc | hc
      exacts [hbs c hc, hb₁ c hc]
    have hr : ∀ c ∈ b₂ ++ bs', isBlank c = true := fun c hc => by
      rcases List.mem_append.mp hc with hc | hc
      exacts [hb₂ c hc, hbs' c hc]
    conv_lhs => rw [hm]
    rw [show bs ++ (b₁ ++ trimList m ++ b₂) ++ bs' = (bs ++ b₁) ++ trimList m ++ (b₂ ++ bs') by
      simp, trimList_eq hl hr h (head_trimList m) (getLast_trimList m)]

/-- Blanks around a text do not change what unwrapping leaves. -/
theorem unwrap_blanks (hbs : ∀ c ∈ bs, isBlank c = true) (hbs' : ∀ c ∈ bs', isBlank c = true) :
    unwrap (bs ++ m ++ bs') = unwrap m := by
  rw [unwrap.eq_def (bs ++ m ++ bs'), unwrap.eq_def m, trimList_blanks hbs hbs']

theorem unwrap_of_not_enclosed (h : enclosed (trimList t) = false) : unwrap t = trimList t := by
  rw [unwrap, dif_neg (by simp [h])]

/-- A balanced text in parentheses unwraps as the text inside. -/
theorem unwrap_wrap (hm : Balanced m) : unwrap (wrap m) = unwrap m := by
  have hhead : ∀ c ∈ (wrap m).head?, isBlank c = false := fun c hc => by
    rw [show (wrap m).head? = some (.ofChar '(') from rfl, Option.mem_some_iff] at hc
    rw [← hc]
    decide
  have hlast : ∀ c ∈ (wrap m).getLast?, isBlank c = false := fun c hc => by
    rw [wrap, List.getLast?_concat, Option.mem_some_iff] at hc
    rw [← hc]
    decide
  have ht : trimList (wrap m) = wrap m := trimList_of_ends hhead hlast
  rw [unwrap, ht, dif_pos (enclosed_wrap hm.nonneg), drop_dropLast_wrap]

/-- In a matched text every code point other than a parenthesis stands inside the pair. -/
theorem Matched.inside (h : Matched m) (h₁ : c ≠ .ofChar '(') (h₂ : c ≠ .ofChar ')') :
    Inside c m := by
  obtain ⟨m', rfl, hm'⟩ := h
  exact Inside.wrap hm' h₁ h₂

end Text

namespace Expr

@[simp] theorem regroup_singleton (e : Expr) : regroup [e] = e := by
  simp [regroup]

@[simp] theorem product_singleton (e : Expr) : product [e] = e := rfl

end Expr

namespace Grammar

open Text

variable {t m : List CodePoint} {cs : List CodePoint} {toks : List Token}

/-! ## Numerals and names -/

theorem IsNumeral.exists_ofNumeral (h : IsNumeral cs) : ∃ d, Decimal.ofNumeral? cs = some d := by
  have hpoint : ¬(CodePoint.ofChar '.').isDigit = true := by decide
  rcases h with ⟨hne, hd⟩ | ⟨ds, fs, hne, hds, hfs, rfl⟩ | ⟨fs, hne, hfs, rfl⟩
  · unfold Decimal.ofNumeral?
    rw [List.takeWhile_eq_self_iff.mpr hd, List.dropWhile_eq_nil_iff.mpr hd]
    simp [hne]
  · unfold Decimal.ofNumeral?
    rw [List.takeWhile_append_of_pos hds, List.dropWhile_append_of_pos hds,
      List.takeWhile_cons_of_neg hpoint, List.dropWhile_cons_of_neg hpoint]
    simpa [hne, IsDigits] using hfs
  · unfold Decimal.ofNumeral?
    rw [List.takeWhile_cons_of_neg hpoint, List.dropWhile_cons_of_neg hpoint]
    simpa [hne, IsDigits] using hfs

theorem isNumeral_of_ofNumeral {d : Decimal} (h : Decimal.ofNumeral? cs = some d) :
    IsNumeral cs := by
  have hcs := (List.takeWhile_append_dropWhile (p := CodePoint.isDigit) (l := cs)).symm
  have hws : IsDigits (cs.takeWhile CodePoint.isDigit) := fun c hc => List.mem_takeWhile_imp hc
  unfold Decimal.ofNumeral? at h
  split at h
  · rename_i hdrop
    rw [hdrop, List.append_nil] at hcs
    refine .inl ⟨fun h0 => ?_, hcs ▸ hws⟩
    simp [hcs ▸ h0] at h
  · rename_i e frac hdrop
    rw [hdrop] at hcs
    dsimp only at h
    split at h
    · rename_i hok
      simp only [Bool.and_eq_true, decide_eq_true_eq, List.all_eq_true, Bool.not_eq_true',
        Bool.and_eq_false_iff, List.isEmpty_eq_false_iff] at hok
      obtain ⟨⟨rfl, hfrac⟩, hne⟩ := hok
      rcases eq_or_ne (cs.takeWhile CodePoint.isDigit) [] with h0 | h0
      · rw [h0, List.nil_append] at hcs
        exact .inr (.inr ⟨frac, by simpa [h0] using hne, hfrac, hcs⟩)
      · exact .inr (.inl ⟨_, frac, h0, hws, hfrac, hcs⟩)
    · cases h

theorem numeral_eq {d : Decimal} (h : Decimal.ofNumeral? cs = some d) : numeral cs = d := by
  simp [numeral, h]

theorem IsName.ofNumeral_eq_none (h : IsName cs) : Decimal.ofNumeral? cs = none := by
  obtain ⟨c, rest, rfl⟩ := List.exists_cons_of_ne_nil h.1
  have hc := h.2 c List.mem_cons_self
  have hdigit : ¬c.isDigit = true := fun hd => by
    obtain ⟨v⟩ := c
    simp only [CodePoint.isDigit, CodePoint.isAsciiLetter, Bool.and_eq_true, Bool.or_eq_true,
      decide_eq_true_eq] at hd hc
    omega
  have hdot : c ≠ .ofChar '.' := by
    rintro rfl
    exact absurd hc (by decide)
  unfold Decimal.ofNumeral?
  rw [List.takeWhile_cons_of_neg hdigit, List.dropWhile_cons_of_neg hdigit]
  simp [hdot]

theorem isName_iff : isName cs = true ↔ IsName cs := by
  simp [isName, IsName, List.all_eq_true]

/-- A literal converts to a finite double. -/
theorem IsLiteral.isInf_toFloat (h : IsLiteral cs) : (numeral cs).toFloat.isInf = false := by
  rw [Bool.eq_false_iff, ne_eq, Binary64.isInf_toFloat_iff, not_le]
  simpa [overflow] using h.2

/-- A literal is read as the constant of its double. -/
theorem atom_of_isLiteral (h : IsLiteral cs) : Expr.atom cs = .ok (Primary.num cs).build := by
  obtain ⟨d, hd⟩ := h.1.exists_ofNumeral
  have hinf := h.isInf_toFloat
  rw [numeral_eq hd] at hinf
  simp [Expr.atom, hd, hinf, Primary.build, numeral_eq hd]

/-- A name is read as the variable of its letters. -/
theorem atom_of_isName (h : IsName cs) : Expr.atom cs = .ok (Primary.name cs).build := by
  simp [Expr.atom, h.ofNumeral_eq_none, isName_iff.mpr h, Primary.build]


/-! ## Spelled texts of words -/

theorem Token.word_signs : Token.plus.Word ∧ Token.times.Word ∧ Token.lparen.Word ∧ Token.rparen.Word := by
  refine ⟨⟨?_, ?_⟩, ⟨?_, ?_⟩, ⟨?_, ?_⟩, ⟨?_, ?_⟩⟩ <;> decide

mutual

/-- Every token of a well-formed primary is a word. -/
theorem Primary.words : ∀ {p : Primary}, p.WF → ∀ tok ∈ p.tokens, tok.Word
  | .num cs, hp, tok, htok => by
    obtain rfl := List.mem_singleton.mp htok
    exact ⟨hp.1.ne_nil, fun c hc => (quiet_of_word (hp.1.word c hc)).2⟩
  | .name cs, hp, tok, htok => by
    obtain rfl := List.mem_singleton.mp htok
    exact ⟨hp.1, fun c hc => (quiet_of_word (.inr (.inr (hp.2 c hc)))).2⟩
  | .group s, hp, tok, htok => by
    simp only [Primary.tokens, List.cons_append, List.mem_cons, List.mem_append,
      List.not_mem_nil, or_false] at htok
    rcases htok with rfl | htok | rfl
    · exact Token.word_signs.2.2.1
    · exact Terms.words hp tok htok
    · exact Token.word_signs.2.2.2

/-- Every token of a well-formed product is a word. -/
theorem Factors.words : ∀ {f : Factors}, f.WF → ∀ tok ∈ f.tokens, tok.Word
  | .last p, hp => Primary.words hp
  | .cons p rest, hp => fun tok htok => by
    simp only [Factors.tokens, List.mem_append, List.mem_cons] at htok
    rcases htok with htok | rfl | htok
    · exact Primary.words hp.1 tok htok
    · exact Token.word_signs.2.1
    · exact Factors.words hp.2 tok htok

/-- Every token of a well-formed sum is a word. -/
theorem Terms.words : ∀ {s : Terms}, s.WF → ∀ tok ∈ s.tokens, tok.Word
  | .last f, hf => Factors.words hf
  | .cons f rest, hf => fun tok htok => by
    simp only [Terms.tokens, List.mem_append, List.mem_cons] at htok
    rcases htok with htok | rfl | htok
    · exact Factors.words hf.1 tok htok
    · exact Token.word_signs.1
    · exact Terms.words hf.2 tok htok

end

/-- Trimming a text that spells words spells the same words. -/
theorem Spells.trimList (h : Spells t toks) (hw : ∀ tok ∈ toks, tok.Word) :
    Spells (trimList t) toks := by
  obtain ⟨bs, m, bs', rfl, hbs, hbs', hm, -, hhead, hlast⟩ := h.core hw
  rwa [trimList_blanks hbs hbs', trimList_of_ends hhead hlast]


/-- Parentheses around a spelled text spell the tokens in parentheses. -/
theorem Spells.wrap (h : Spells t toks) : Spells (wrap t) (.lparen :: toks ++ [.rparen]) := by
  have := @Spells.cons [] _ .lparen _ blanks_nil
    (h.append (@Spells.cons [] _ .rparen _ blanks_nil (.nil blanks_nil)))
  simpa [Token.text, Text.wrap] using this

/-- A word between blanks unwraps to itself and is read as an atom. -/
theorem parseGroup_unwrap_word {bs bs' : List CodePoint} (hbs : Blanks bs) (hbs' : Blanks bs')
    (hne : cs ≠ []) (hq : ∀ c ∈ cs, Quiet c ∧ isBlank c = false) :
    Expr.parseGroup (unwrap (bs ++ cs ++ bs')) = Expr.atom cs := by
  have hbal : Balanced cs := balanced_of_forall fun c hc => (hq c hc).1.1
  have hcut : ∀ c, c ∉ cs → splitTop [c] cs = [cs] := fun c hc => by
    simpa using splitTop_intercalate (List.cons_ne_nil cs [])
      (by simpa using ⟨hbal, inside_of_not_mem hc⟩)
  -- the first code point changes no depth, so it is no opening parenthesis
  have hopen : enclosed cs = false := by
    obtain ⟨c, cs', hcs⟩ := List.exists_cons_of_ne_nil hne
    have hc : c ≠ .ofChar '(' := fun h => by
      simpa [h] using (hq c (hcs ▸ List.mem_cons_self)).1.1
    simp [enclosed, hcs, hc]
  have htrim : trimList cs = cs := trimList_of_ends
    (fun c hc => (hq c (List.mem_of_mem_head? hc)).2) (fun c hc => (hq c (List.mem_of_mem_getLast? hc)).2)
  have hplus : ¬1 < (splitTop Expr.plus cs).length := by
    rw [Expr.plus, hcut (.ofChar '+') fun hc => (hq _ hc).1.2.1 rfl]
    simp
  have htimes : ¬1 < (splitTop Expr.times cs).length := by
    rw [Expr.times, hcut (.ofChar '*') fun hc => (hq _ hc).1.2.2 rfl]
    simp
  rw [unwrap_blanks hbs hbs', unwrap_of_not_enclosed (by rw [htrim]; exact hopen), htrim, Expr.parseGroup,
    if_neg (by simpa using hne), dif_neg hplus, dif_neg htimes]

/-! ## The branches of the reader -/

/-- Text with a `+` at depth zero is read as its pieces, regrouped. -/
theorem parseGroup_of_plus (hne : t ≠ []) (h : 1 < (splitTop Expr.plus t).length) :
    Expr.parseGroup t = (splitTop Expr.plus t).mapM (fun p => Expr.parseGroup (unwrap p)) >>=
      fun es => pure (Expr.regroup es) := by
  rw [Expr.parseGroup, if_neg (by simpa using hne), dif_pos h,
    mapM_attach_val (fun p => Expr.parseGroup (unwrap p))]

/-- Text with a `*` but no `+` at depth zero is read as its pieces, multiplied. -/
theorem parseGroup_of_times (hne : t ≠ []) (hp : ¬1 < (splitTop Expr.plus t).length)
    (h : 1 < (splitTop Expr.times t).length) :
    Expr.parseGroup t = (splitTop Expr.times t).mapM (fun p => Expr.parseGroup (unwrap p)) >>=
      fun es => pure (Expr.product es) := by
  rw [Expr.parseGroup, if_neg (by simpa using hne), dif_neg hp, dif_pos h,
    mapM_attach_val (fun p => Expr.parseGroup (unwrap p))]

/-! ## Sentences are read as their derivations build -/

/-- The text is cut at the sign `c` into pieces, each balanced and holding `c` only inside
parentheses, that are read, unwrapped, as the expressions `es` in turn. -/
def ReadsAs (c : CodePoint) (t : List CodePoint) (es : List Expr) : Prop :=
  ∃ ps : List (List CodePoint), ps ≠ [] ∧ [c].intercalate ps = t ∧
    (∀ p ∈ ps, Balanced p ∧ Inside c p) ∧
    List.Forall₂ (fun p e => Expr.parseGroup (unwrap p) = .ok e) ps es

variable {c : CodePoint} {es : List Expr}

theorem ReadsAs.splitTop (h : ReadsAs c t es) :
    ∃ ps, Text.splitTop [c] t = ps ∧ ps.mapM (fun p => Expr.parseGroup (unwrap p)) = .ok es := by
  obtain ⟨ps, hne, rfl, hps, hread⟩ := h
  exact ⟨ps, splitTop_intercalate hne hps, mapM_eq_ok_iff.mpr hread⟩

/-- Text cut into two pieces or more at a sign that is no parenthesis is not enclosed. -/
theorem ReadsAs.enclosed_eq_false (h : ReadsAs c t es) (hb : Balanced t) (hlen : 2 ≤ es.length)
    (h₁ : c ≠ .ofChar '(') (h₂ : c ≠ .ofChar ')') : enclosed t = false := by
  obtain ⟨ps, hne, rfl, hps, hread⟩ := h
  rw [Bool.eq_false_iff]
  intro he
  -- a matched text holds the sign only inside its pair, and would be one piece
  have hin := ((enclosed_iff_matched hb).mp he).inside h₁ h₂
  have hone := @splitTop_intercalate c [[c].intercalate ps] (by simp) (by simpa using ⟨hb, hin⟩)
  rw [List.intercalate_singleton, splitTop_intercalate hne hps] at hone
  have := hread.length_eq
  rw [hone, List.length_singleton] at this
  omega

theorem ReadsAs.ne_nil (h : ReadsAs c t es) (hlen : 2 ≤ es.length) : t ≠ [] := by
  obtain ⟨ps, hne, rfl, hps, hread⟩ := h
  obtain ⟨p, p', ps', rfl⟩ : ∃ p p' ps', ps = p :: p' :: ps' := by
    match ps, hread.length_eq with
    | p :: p' :: ps', _ => exact ⟨p, p', ps', rfl⟩
    | [], h | [_], h => simp at h; omega
  simp

/-- A trimmed text cut at `+` into two pieces or more is read as the pieces, regrouped. -/
theorem parseGroup_unwrap_of_plus (hb : Balanced (trimList t))
    (h : ReadsAs plusCode (trimList t) es) (hlen : 2 ≤ es.length) :
    Expr.parseGroup (unwrap t) = .ok (Expr.regroup es) := by
  obtain ⟨ps, hsplit, hread⟩ := h.splitTop
  have hlen' : 1 < (splitTop Expr.plus (trimList t)).length := by
    rw [Expr.plus, ← plusCode, hsplit, (mapM_eq_ok_iff.mp hread).length_eq]
    omega
  rw [unwrap_of_not_enclosed (h.enclosed_eq_false hb hlen (by decide) (by decide)),
    parseGroup_of_plus (h.ne_nil hlen) hlen', Expr.plus, ← plusCode, hsplit, hread]
  rfl

/-- A trimmed text with no `+` at depth zero, cut at `*` into two pieces or more, is read as the
pieces, multiplied. -/
theorem parseGroup_unwrap_of_times (hb : Balanced (trimList t)) (hp : Inside plusCode (trimList t))
    (h : ReadsAs timesCode (trimList t) es) (hlen : 2 ≤ es.length) :
    Expr.parseGroup (unwrap t) = .ok (Expr.product es) := by
  obtain ⟨ps, hsplit, hread⟩ := h.splitTop
  have hone : ¬1 < (splitTop Expr.plus (trimList t)).length := by
    have hsingle := @splitTop_intercalate plusCode [trimList t] (by simp) (by simpa using ⟨hb, hp⟩)
    rw [List.intercalate_singleton] at hsingle
    rw [Expr.plus, ← plusCode, hsingle]
    simp
  have hlen' : 1 < (splitTop Expr.times (trimList t)).length := by
    rw [Expr.times, ← timesCode, hsplit, (mapM_eq_ok_iff.mp hread).length_eq]
    omega
  rw [unwrap_of_not_enclosed (h.enclosed_eq_false hb hlen (by decide) (by decide)),
    parseGroup_of_times (h.ne_nil hlen) hone hlen', Expr.times, ← timesCode, hsplit, hread]
  rfl

theorem Factors.builds_ne_nil : ∀ f : Factors, f.builds ≠ []
  | .last _ | .cons _ _ => by simp [Factors.builds]

theorem Terms.builds_ne_nil : ∀ s : Terms, s.builds ≠ []
  | .last _ | .cons _ _ => by simp [Terms.builds]

variable {bs : List CodePoint}

/-- A balanced text that holds `c` only inside parentheses, with blanks after it, is still such
a text, when `c` is no blank. -/
theorem balanced_inside_append_blanks (hb : Balanced t) (hi : Inside c t) (hbs : Blanks bs)
    (hc : isBlank c = false) : Balanced (t ++ bs) ∧ Inside c (t ++ bs) := by
  have hbb : Balanced bs := balanced_of_forall fun e he => depthStep_of_isBlank (hbs e he)
  refine ⟨hb.append hbb, hi.append hb (inside_of_not_mem fun h => ?_)⟩
  rw [hbs c h] at hc
  cases hc

mutual

/-- A spelled primary is read as what it builds. -/
theorem Primary.parseGroup_unwrap : ∀ {p : Primary} {t : List CodePoint}, p.WF →
    Spells t p.tokens → Expr.parseGroup (unwrap t) = .ok p.build
  | .num cs, _, hp, ht => by
    obtain ⟨bs, bs', rfl, hbs, hbs'⟩ := Spells.single_iff.mp ht
    exact (parseGroup_unwrap_word hbs hbs' hp.1.ne_nil fun c hc => quiet_of_word (hp.1.word c hc)).trans
      (atom_of_isLiteral hp)
  | .name cs, _, hp, ht => by
    obtain ⟨bs, bs', rfl, hbs, hbs'⟩ := Spells.single_iff.mp ht
    exact (parseGroup_unwrap_word hbs hbs' hp.1
      fun c hc => quiet_of_word (.inr (.inr (hp.2 c hc)))).trans (atom_of_isName hp)
  | .group s, _, hp, ht => by
    obtain ⟨t₁, t₂, rfl, h₁, h₂⟩ := Spells.split ht
    cases h₁ with
    | @cons bs u _ _ hb hu =>
      obtain ⟨bs₂, bs₃, rfl, hb₂, hb₃⟩ := Spells.single_iff.mp h₂
      -- the text is blanks, then the inner text in parentheses, then blanks
      have hin : Balanced (u ++ bs₂) := (Terms.balanced hp hu).append
        (balanced_of_forall fun c hc => depthStep_of_isBlank (hb₂ c hc))
      have heq : bs ++ Token.text .lparen ++ u ++ (bs₂ ++ Token.text .rparen ++ bs₃) =
          bs ++ wrap (u ++ bs₂) ++ bs₃ := by
        simp [Token.text, wrap, List.append_assoc]
      rw [heq, unwrap_blanks hb hb₃, unwrap_wrap hin]
      exact (Terms.reads hp).2 (hu.append_blanks hb₂)

/-- A spelled product is cut at `*` into pieces read as its factors, and is read as their
product. -/
theorem Factors.reads : ∀ {f : Factors}, f.WF →
    (∀ {t}, Spells t f.tokens → ReadsAs timesCode t f.builds) ∧
      ∀ {t}, Spells t f.tokens → Expr.parseGroup (unwrap t) = .ok (Expr.product f.builds)
  | .last p, hp => by
    refine ⟨fun {t} ht => ⟨[t], by simp, by simp, ?_, .cons (Primary.parseGroup_unwrap hp ht) .nil⟩,
      fun ht => Primary.parseGroup_unwrap hp ht⟩
    simpa using (Primary.balanced hp ht).imp_right And.right
  | .cons p rest, hp => by
    have hR : ∀ {t}, Spells t (Factors.cons p rest).tokens →
        ReadsAs timesCode t (Factors.cons p rest).builds := by
      intro t ht
      obtain ⟨t₁, t₂, rfl, h₁, h₂⟩ := Spells.split ht
      cases h₂ with
      | @cons bs t₃ _ _ hb h₃ =>
        -- the first piece is the first factor with the blanks before the sign
        obtain ⟨ps, hne, rfl, hps, hread⟩ := (Factors.reads hp.2).1 h₃
        obtain ⟨hb₁, -, hi₁⟩ := Primary.balanced hp.1 h₁
        refine ⟨(t₁ ++ bs) :: ps, List.cons_ne_nil _ _, ?_, ?_,
          .cons (Primary.parseGroup_unwrap hp.1 (h₁.append_blanks hb)) hread⟩
        · rw [List.intercalate_cons_of_ne_nil hne]
          simp [Token.text, timesCode]
        · intro q hq
          rcases List.mem_cons.mp hq with rfl | hq
          · exact balanced_inside_append_blanks hb₁ hi₁ hb (by decide)
          · exact hps q hq
    refine ⟨hR, fun {t} ht => ?_⟩
    have hm := ht.trimList (Factors.words hp)
    obtain ⟨hb, hi⟩ := Factors.balanced hp hm
    refine parseGroup_unwrap_of_times hb hi (hR hm) ?_
    simpa [Factors.builds, Nat.succ_le_succ_iff, Nat.one_le_iff_ne_zero] using
      Factors.builds_ne_nil rest

/-- A spelled sum is cut at `+` into pieces read as its terms, and is read as their
regrouping. -/
theorem Terms.reads : ∀ {s : Terms}, s.WF →
    (∀ {t}, Spells t s.tokens → ReadsAs plusCode t s.builds) ∧
      ∀ {t}, Spells t s.tokens → Expr.parseGroup (unwrap t) = .ok s.build
  | .last f, hf => by
    refine ⟨fun {t} ht => ⟨[t], by simp, by simp, by simpa using Factors.balanced hf ht,
      .cons ((Factors.reads hf).2 ht) .nil⟩, fun ht => ?_⟩
    rw [(Factors.reads hf).2 ht]
    simp [Terms.build, Terms.builds]
  | .cons f rest, hf => by
    have hR : ∀ {t}, Spells t (Terms.cons f rest).tokens →
        ReadsAs plusCode t (Terms.cons f rest).builds := by
      intro t ht
      obtain ⟨t₁, t₂, rfl, h₁, h₂⟩ := Spells.split ht
      cases h₂ with
      | @cons bs t₃ _ _ hb h₃ =>
        obtain ⟨ps, hne, rfl, hps, hread⟩ := (Terms.reads hf.2).1 h₃
        obtain ⟨hb₁, hi₁⟩ := Factors.balanced hf.1 h₁
        refine ⟨(t₁ ++ bs) :: ps, List.cons_ne_nil _ _, ?_, ?_,
          .cons ((Factors.reads hf.1).2 (h₁.append_blanks hb)) hread⟩
        · rw [List.intercalate_cons_of_ne_nil hne]
          simp [Token.text, plusCode]
        · intro q hq
          rcases List.mem_cons.mp hq with rfl | hq
          · exact balanced_inside_append_blanks hb₁ hi₁ hb (by decide)
          · exact hps q hq
    refine ⟨hR, fun {t} ht => ?_⟩
    have hm := ht.trimList (Terms.words hf)
    refine parseGroup_unwrap_of_plus (Terms.balanced hf hm) (hR hm) ?_
    simpa [Terms.builds, Nat.succ_le_succ_iff, Nat.one_le_iff_ne_zero] using
      Terms.builds_ne_nil rest

end

/-- A text spelled by a well-formed derivation is read as the expression the derivation builds:
the reader accepts every sentence, and what it reads depends on the tokens alone. -/
theorem parse_of_spells {s : Terms} (hs : s.WF) (ht : Spells t s.tokens) :
    Expr.parse t = .ok s.build := by
  unfold Expr.parse
  rw [balance_eq_balanced_iff.mpr (Terms.balanced hs ht)]
  exact (Terms.reads hs).2 ht

end Grammar

end Polyform
