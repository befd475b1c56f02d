import Polyform.Proofs.Expr.ConstText

/-!
# The language the reader accepts

The reader accepts exactly the sentences of the grammar (`Grammar.parse_accepts_exactly_sentences`).
Whatever it reads, a well-formed derivation of the text builds (`Grammar.exists_of_parse`): the
induction follows the reader, and each piece it cuts off is, once unwrapped, a derivation of its
own inside some pairs of parentheses (`Grammar.exists_of_unwrap`). A piece that holds `+` only
inside parentheses has one term, and one that holds `*` only inside parentheses one factor, so
the pieces join into a derivation of the whole. Every fault the reader reports is a parse fault
(`Grammar.kind_of_parse?`), and the text of every valid expression is a sentence, spelled by a
derivation read off the expression (`Grammar.spells_render`).
-/

namespace Polyform

/-- A `mapM` that fails fails at one of the items. -/
theorem mapM_eq_error {ε α β : Type} {g : α → Except ε β} {f : ε} :
    ∀ {xs : List α}, xs.mapM g = .error f → ∃ x ∈ xs, g x = .error f
  | [], h => by simp [pure, Except.pure] at h
  | x :: xs, h => by
    rw [List.mapM_cons] at h
    cases hx : g x with
    | error f' =>
      simp only [hx, bind, Except.bind, Except.error.injEq] at h
      exact ⟨x, List.mem_cons_self, h ▸ hx⟩
    | ok y =>
      cases hxs : xs.mapM g with
      | error f' =>
        simp only [hx, hxs, bind, Except.bind, Except.error.injEq] at h
        obtain ⟨z, hz, hgz⟩ := mapM_eq_error hxs
        exact ⟨z, List.mem_cons_of_mem x hz, h ▸ hgz⟩
      | ok ys => simp [hx, hxs, bind, Except.bind, pure, Except.pure] at h

/-- Reading pieces and combining what they are read as fails only where a piece fails. -/
theorem mapM_bind_pure_eq_error {α β γ : Type} {g : α → Except Fault β} {k : List β → γ}
    {xs : List α} {f : Fault} (h : (xs.mapM g >>= fun es => pure (k es)) = .error f) :
    ∃ x ∈ xs, g x = .error f := by
  cases hm : xs.mapM g with
  | error f' =>
    simp only [hm, bind, Except.bind, Except.error.injEq] at h
    exact h ▸ mapM_eq_error hm
  | ok es => simp [hm, bind, Except.bind, pure, Except.pure] at h

namespace Text

variable {a b : List CodePoint} {c : CodePoint}

theorem Inside.left (h : Inside c (a ++ b)) : Inside c a := fun p q hpq =>
  h p (q ++ b) (by simp [hpq])

theorem Inside.right (ha : Balanced a) (h : Inside c (a ++ b)) : Inside c b := fun p q hpq => by
  have := h (a ++ p) q (by simp [hpq])
  rwa [depth_append, ha.closed, zero_add] at this

/-- The pieces of a text that holds `c` only inside parentheses hold it only inside
parentheses too. -/
theorem inside_of_mem_intercalate {d : CodePoint} (hd : depthStep d = 0) :
    ∀ {ps : List (List CodePoint)}, (∀ p ∈ ps, Balanced p) → Inside c ([d].intercalate ps) →
      ∀ q ∈ ps, Inside c q
  | [], _, _, q, hq => absurd hq List.not_mem_nil
  | [p], _, h, q, hq => by
    rw [List.mem_singleton.mp hq]
    simpa using h
  | p :: p' :: ps, hps, h, q, hq => by
    rw [List.intercalate_cons_cons, List.append_assoc] at h
    rcases List.mem_cons.mp hq with rfl | hq
    · exact h.left
    · -- past the first piece and the separator the depth is back at zero
      have hpre : Balanced (p ++ [d]) :=
        (hps p List.mem_cons_self).append (balanced_of_forall fun e he => by
          rw [List.mem_singleton.mp he]; exact hd)
      rw [← List.append_assoc] at h
      exact inside_of_mem_intercalate hd (fun r hr => hps r (List.mem_cons_of_mem p hr))
        (h.right hpre) q hq

end Text

namespace Grammar

open Text

variable {t u : List CodePoint} {e : Expr}

/-! ## What is read is a sentence -/

/-- An atom is a literal, read as its constant, or a name, read as its variable. -/
theorem atom_eq_ok (h : Expr.atom u = .ok e) :
    (IsLiteral u ∧ e = (Primary.num u).build) ∨ (IsName u ∧ e = (Primary.name u).build) := by
  unfold Expr.atom at h
  split at h
  · rename_i d hd
    dsimp only at h
    split at h
    · cases h
    · rename_i hinf
      cases h
      refine .inl ⟨⟨isNumeral_of_ofNumeral hd, ?_⟩, by simp [Primary.build, numeral_eq hd]⟩
      rw [numeral_eq hd]
      exact not_le.mp fun h => hinf ((Binary64.isInf_toFloat_iff d).mpr h)
  · split at h
    · rename_i hname
      cases h
      exact .inr ⟨isName_iff.mp hname, rfl⟩
    · cases h

/-- A derivation of a text that sits inside pairs of parentheses, with blanks around, gives a
derivation of the whole that builds the same expression. -/
theorem exists_of_wraps {r : List CodePoint} {s : Terms} (hs : s.WF) (hr : Spells r s.tokens)
    {k : ℕ} (hw : Wraps r k t) : ∃ s' : Terms, s'.WF ∧ Spells t s'.tokens ∧ s'.build = s.build := by
  induction hw with
  | blanks hbs hbs' =>
    exact ⟨s, hs, by simpa [List.append_assoc] using Spells.blanks_append hbs (hr.append_blanks hbs'),
      rfl⟩
  | wrap _ hbs hbs' ih =>
    obtain ⟨s', hs', ht', hb'⟩ := ih
    refine ⟨.last (.last (.group s')), hs', ?_, ?_⟩
    · simpa [Primary.tokens, Factors.tokens, Terms.tokens, List.append_assoc] using
        (ht'.wrap.append_blanks hbs').blanks_append hbs
    · simpa [Terms.build, Terms.builds, Factors.builds, Primary.build] using hb'

/-- A sign written behind a balanced text and blanks stands at depth zero. -/
theorem not_inside_of_blanks {c : CodePoint} {t₁ bs t₃ : List CodePoint} (h₁ : Balanced t₁)
    (hbs : Blanks bs) : ¬Inside c (t₁ ++ (bs ++ [c] ++ t₃)) := fun hi => by
  have hpre : Balanced (t₁ ++ bs) :=
    h₁.append (balanced_of_forall fun d hd => depthStep_of_isBlank (hbs d hd))
  have := hi (t₁ ++ bs) t₃ (by simp)
  rw [hpre.closed] at this
  exact lt_irrefl 0 this

/-- A spelled sum that holds `+` only inside parentheses has one term. -/
theorem Terms.eq_last_of_inside {s : Terms} (hs : s.WF) (ht : Spells t s.tokens)
    (hi : Inside plusCode t) : ∃ f, s = .last f := by
  cases s with
  | last f => exact ⟨f, rfl⟩
  | cons f rest =>
    obtain ⟨t₁, t₂, rfl, h₁, h₂⟩ := Spells.split ht
    cases h₂ with
    -- the first term and the blanks after it end at depth zero, and `+` follows
    | cons hb _ => exact absurd hi (not_inside_of_blanks (Factors.balanced hs.1 h₁).1 hb)

/-- A spelled product that holds `*` only inside parentheses has one factor. -/
theorem Factors.eq_last_of_inside {f : Factors} (hf : f.WF) (ht : Spells t f.tokens)
    (hi : Inside timesCode t) : ∃ p, f = .last p := by
  cases f with
  | last p => exact ⟨p, rfl⟩
  | cons p rest =>
    obtain ⟨t₁, t₂, rfl, h₁, h₂⟩ := Spells.split ht
    cases h₂ with
    | cons hb _ => exact absurd hi (not_inside_of_blanks (Primary.balanced hf.1 h₁).1 hb)

/-- Pieces spelled by products, joined by `+`, are spelled by the sum of them. -/
theorem Terms.exists_of_pieces : ∀ {ps : List (List CodePoint)} {es : List Expr}, ps ≠ [] →
    List.Forall₂ (fun p e => ∃ f : Factors, f.WF ∧ Spells p f.tokens ∧ Expr.product f.builds = e)
      ps es →
    ∃ s : Terms, s.WF ∧ Spells ([plusCode].intercalate ps) s.tokens ∧ s.builds = es
  | [p], _, _, .cons ⟨f, hf, hp, he⟩ .nil =>
    ⟨.last f, hf, by simpa [Terms.tokens] using hp, by simp [Terms.builds, he]⟩
  | p :: p' :: ps, _, _, .cons ⟨f, hf, hp, he⟩ hrest => by
    obtain ⟨s, hs, hsp, hes⟩ := Terms.exists_of_pieces (List.cons_ne_nil p' ps) hrest
    refine ⟨.cons f s, ⟨hf, hs⟩, ?_, by simp [Terms.builds, he, hes]⟩
    rw [List.intercalate_cons_cons, List.append_assoc]
    exact hp.append (@Spells.cons [] _ .plus _ blanks_nil hsp)

/-- Pieces spelled by primaries, joined by `*`, are spelled by the product of them. -/
theorem Factors.exists_of_pieces : ∀ {ps : List (List CodePoint)} {es : List Expr}, ps ≠ [] →
    List.Forall₂ (fun p e => ∃ q : Primary, q.WF ∧ Spells p q.tokens ∧ q.build = e) ps es →
    ∃ f : Factors, f.WF ∧ Spells ([timesCode].intercalate ps) f.tokens ∧ f.builds = es
  | [p], _, _, .cons ⟨q, hq, hp, he⟩ .nil =>
    ⟨.last q, hq, by simpa [Factors.tokens] using hp, by simp [Factors.builds, he]⟩
  | p :: p' :: ps, _, _, .cons ⟨q, hq, hp, he⟩ hrest => by
    obtain ⟨f, hf, hsp, hes⟩ := Factors.exists_of_pieces (List.cons_ne_nil p' ps) hrest
    refine ⟨.cons q f, ⟨hq, hf⟩, ?_, by simp [Factors.builds, he, hes]⟩
    rw [List.intercalate_cons_cons, List.append_assoc]
    exact hp.append (@Spells.cons [] _ .times _ blanks_nil hsp)

/-- A derivation of what a balanced text unwraps to gives a derivation of the text that builds
the same expression. -/
theorem exists_of_unwrap (hb : Balanced t)
    (h : ∃ s : Terms, s.WF ∧ Spells (unwrap t) s.tokens ∧ s.build = e) :
    ∃ s : Terms, s.WF ∧ Spells t s.tokens ∧ s.build = e := by
  obtain ⟨s, hs, hsp, rfl⟩ := h
  obtain ⟨k, hk⟩ := (unwrapped_unwrap hb).wraps
  exact exists_of_wraps hs hsp hk

/-- Whatever a balanced text is read as, a well-formed derivation of the text builds. The
induction follows the reader: each piece between the signs is read on its own, and what it is
read as is built by a derivation of the piece with one term, or one factor. -/
theorem exists_of_parseGroup {u : List CodePoint} : ∀ {e : Expr}, Balanced u →
    Expr.parseGroup u = .ok e → ∃ s : Terms, s.WF ∧ Spells u s.tokens ∧ s.build = e := by
  induction u using Expr.parseGroup.induct with
  | case1 u hu =>
    intro e _ h
    rw [Expr.parseGroup, if_pos hu] at h
    cases h
  | case2 u hu hplus ih =>
    intro e hb h
    rw [parseGroup_of_plus (by simpa using hu) hplus] at h
    obtain ⟨es, hes, he⟩ := exists_of_bind_eq_ok h
    cases he
    -- each piece holds `+` only inside parentheses, so its derivation has one term
    have hpieces : List.Forall₂ (fun p e => ∃ f : Factors, f.WF ∧ Spells p f.tokens ∧
        Expr.product f.builds = e) (splitTop Expr.plus u) es := by
      refine ((List.forall₂_and_left _ _).mpr ⟨fun p hp => hp, mapM_eq_ok_iff.mp hes⟩).imp ?_
      rintro p e' ⟨hp, hpe⟩
      obtain ⟨hbp, hip⟩ := balanced_of_mem_splitTop (by decide) hb p hp
      obtain ⟨s, hs, hsp, hse⟩ :=
        exists_of_unwrap hbp (ih ⟨p, hp⟩ (unwrapped_unwrap hbp).balanced hpe)
      obtain ⟨f, rfl⟩ := Terms.eq_last_of_inside hs hsp hip
      exact ⟨f, hs, hsp, by simpa [Terms.build, Terms.builds] using hse⟩
    obtain ⟨s, hs, hsp, hbuild⟩ :=
      Terms.exists_of_pieces (List.ne_nil_of_length_pos (by omega)) hpieces
    refine ⟨s, hs, ?_, by rw [Terms.build, hbuild]⟩
    rwa [show [plusCode] = Expr.plus from rfl, intercalate_splitTop] at hsp
  | case3 u hu hplus htimes ih =>
    intro e hb h
    rw [parseGroup_of_times (by simpa using hu) hplus htimes] at h
    obtain ⟨es, hes, he⟩ := exists_of_bind_eq_ok h
    cases he
    -- with no `+` at depth zero the text is its only piece at `+`
    have hip : Inside plusCode u := inside_of_length_splitTop_le (by decide) hb (not_lt.mp hplus)
    have hpieces : List.Forall₂ (fun p e => ∃ q : Primary, q.WF ∧ Spells p q.tokens ∧ q.build = e)
        (splitTop Expr.times u) es := by
      refine ((List.forall₂_and_left _ _).mpr ⟨fun p hp => hp, mapM_eq_ok_iff.mp hes⟩).imp ?_
      rintro p e' ⟨hp, hpe⟩
      obtain ⟨hbp, hit⟩ := balanced_of_mem_splitTop (by decide) hb p hp
      have hipp : Inside plusCode p :=
        @inside_of_mem_intercalate plusCode timesCode (by decide) (splitTop [timesCode] u)
          (fun q hq => (balanced_of_mem_splitTop (by decide) hb q hq).1)
          (by rwa [intercalate_splitTop]) p hp
      obtain ⟨s, hs, hsp, hse⟩ :=
        exists_of_unwrap hbp (ih ⟨p, hp⟩ (unwrapped_unwrap hbp).balanced hpe)
      obtain ⟨f, rfl⟩ := Terms.eq_last_of_inside hs hsp hipp
      obtain ⟨q, rfl⟩ := Factors.eq_last_of_inside hs hsp hit
      exact ⟨q, hs, hsp, by simpa [Terms.build, Terms.builds, Factors.builds] using hse⟩
    obtain ⟨f, hf, hsp, hbuild⟩ :=
      Factors.exists_of_pieces (List.ne_nil_of_length_pos (by omega)) hpieces
    refine ⟨.last f, hf, ?_, by simp [Terms.build, Terms.builds, hbuild]⟩
    rwa [show [timesCode] = Expr.times from rfl, intercalate_splitTop] at hsp
  | case4 u hu hplus htimes =>
    intro e _ h
    rw [Expr.parseGroup, if_neg hu, dif_neg hplus, dif_neg htimes] at h
    have hsp (tok : Token) (htok : tok.text = u) : Spells u [tok] :=
      Spells.single_iff.mpr ⟨[], [], by simp [htok], blanks_nil, blanks_nil⟩
    rcases atom_eq_ok h with ⟨hl, rfl⟩ | ⟨hn, rfl⟩
    · exact ⟨.last (.last (.num u)), hl, hsp (.num u) rfl, by simp [Terms.build, Terms.builds, Factors.builds]⟩
    · exact ⟨.last (.last (.name u)), hn, hsp (.name u) rfl, by simp [Terms.build, Terms.builds, Factors.builds]⟩

/-- Whatever a text is read as, a well-formed derivation of the text builds: the reader accepts
sentences only. -/
theorem exists_of_parse (h : Expr.parse t = .ok e) :
    ∃ s : Terms, s.WF ∧ Spells t s.tokens ∧ s.build = e := by
  unfold Expr.parse at h
  split at h
  · cases h
  · cases h
  · rename_i hbal
    have hb := balance_eq_balanced_iff.mp hbal
    exact exists_of_unwrap hb (exists_of_parseGroup (unwrapped_unwrap hb).balanced h)

/-! ## Every refusal is a parse fault -/

variable {f : Fault}

/-- Every fault of reading a piece of text is a parse fault. -/
theorem kind_of_parseGroup {u : List CodePoint} : ∀ {f : Fault}, Expr.parseGroup u = .error f →
    f.kind = .parsing := by
  induction u using Expr.parseGroup.induct with
  | case1 u hu =>
    intro f h
    rw [Expr.parseGroup, if_pos hu] at h
    cases h
    rfl
  | case2 u hu hplus ih =>
    intro f h
    rw [parseGroup_of_plus (by simpa using hu) hplus] at h
    obtain ⟨p, hp, hpf⟩ := mapM_bind_pure_eq_error h
    exact ih ⟨p, hp⟩ hpf
  | case3 u hu hplus htimes ih =>
    intro f h
    rw [parseGroup_of_times (by simpa using hu) hplus htimes] at h
    obtain ⟨p, hp, hpf⟩ := mapM_bind_pure_eq_error h
    exact ih ⟨p, hp⟩ hpf
  | case4 u hu hplus htimes =>
    intro f h
    rw [Expr.parseGroup, if_neg hu, dif_neg hplus, dif_neg htimes, Expr.atom] at h
    split at h
    · dsimp only at h
      split at h
      · cases h
        rfl
      · cases h
    · split at h
      · cases h
      · cases h
        rfl

theorem kind_of_parse (h : Expr.parse t = .error f) : f.kind = .parsing := by
  unfold Expr.parse at h
  split at h
  · cases h
    rfl
  · cases h
    rfl
  · exact kind_of_parseGroup h

/-- Every fault of reading an operand is a parse fault: an expression and a plain value that is
not text are refused as the reader's input. -/
theorem kind_of_parse? {x : Operand} (h : Expr.parse? x = .error f) : f.kind = .parsing := by
  cases x with
  | plain d =>
    cases d with
    | str t => exact kind_of_parse h
    | _ =>
      cases h
      rfl
  | expr b =>
    cases h
    rfl

/-! ## Printed expressions are sentences -/

/-- The terms of one sum followed by those of another. -/
def Terms.append : Terms → Terms → Terms
  | .last f, s => .cons f s
  | .cons f rest, s => .cons f (rest.append s)

theorem Terms.tokens_append : ∀ s s' : Terms, (s.append s').tokens = s.tokens ++ .plus :: s'.tokens
  | .last f, s' => by simp [Terms.append, Terms.tokens]
  | .cons f rest, s' => by simp [Terms.append, Terms.tokens, Terms.tokens_append rest s']

theorem Terms.WF.append : ∀ {s s' : Terms}, s.WF → s'.WF → (s.append s').WF
  | .last _, _, hs, hs' => ⟨hs, hs'⟩
  | .cons _ _, _, hs, hs' => ⟨hs.1, Terms.WF.append hs.2 hs'⟩

/-- The derivation of the text of an expression: a sum has the terms of both sides, and a
product its two sides in parentheses. -/
def ofExpr : Expr → Terms
  | .const x => .last (.last (.num (CodePoint.ofString (Expr.constText x))))
  | .var n => .last (.last (.name (CodePoint.ofString n)))
  | .sum l r => (ofExpr l).append (ofExpr r)
  | .prod l r => .last (.cons (.group (ofExpr l)) (.last (.group (ofExpr r))))

/-- The text of a constant is a literal. -/
theorem isLiteral_constText {x : Float} (hx : Binary64.isMagnitude x = true) :
    IsLiteral (CodePoint.ofString (Expr.constText x)) := by
  obtain ⟨d, hd, hfloat⟩ := Expr.toFloat_constText hx
  refine ⟨isNumeral_of_ofNumeral hd, ?_⟩
  have hinf : d.toFloat.isInf = false := hfloat ▸ Grid.isInf_truncate hx
  rw [numeral_eq hd]
  exact not_le.mp fun h => by rw [(Binary64.isInf_toFloat_iff d).mpr h] at hinf; cases hinf

/-- The text of a valid expression is spelled by its derivation. -/
theorem spells_render : ∀ {e : Expr}, e.valid = true →
    (ofExpr e).WF ∧ Spells (CodePoint.ofString e.render) (ofExpr e).tokens
  | .const x, he => ⟨isLiteral_constText he,
      Spells.single_iff.mpr ⟨[], [], by simp [Token.text, Expr.render], blanks_nil, blanks_nil⟩⟩
  | .var n, he => ⟨isName_iff.mp he,
      Spells.single_iff.mpr ⟨[], [], by simp [Token.text, Expr.render], blanks_nil, blanks_nil⟩⟩
  | .sum l r, he => by
    simp only [Expr.valid_sum, Bool.and_eq_true] at he
    obtain ⟨hl, hsl⟩ := spells_render he.1
    obtain ⟨hr, hsr⟩ := spells_render he.2
    have hsp : Blanks [CodePoint.ofChar ' '] := fun c hc => by
      rw [List.mem_singleton.mp hc]
      decide
    refine ⟨hl.append hr, ?_⟩
    rw [Expr.ofString_render_sum, sumSep_append, ofExpr, Terms.tokens_append]
    exact hsl.append (@Spells.cons [.ofChar ' '] _ .plus _ hsp (hsr.blanks_append hsp))
  | .prod l r, he => by
    simp only [Expr.valid_prod, Bool.and_eq_true] at he
    obtain ⟨hl, hsl⟩ := spells_render he.1
    obtain ⟨hr, hsr⟩ := spells_render he.2
    refine ⟨⟨hl, hr⟩, ?_⟩
    rw [Expr.ofString_render_prod, prodText]
    exact hsl.wrap.append (@Spells.cons [] _ .times _ blanks_nil hsr.wrap)


/-! ## The language -/

/-- An operand is read exactly when it is a text that is a sentence. -/
theorem exists_parse?_iff (x : Operand) :
    (∃ e, Expr.parse? x = .ok e) ↔ ∃ t, x = .plain (.str t) ∧ Sentence t := by
  constructor
  · rintro ⟨e, h⟩
    obtain ⟨t, rfl, ht⟩ := Expr.text_of_parse? h
    obtain ⟨s, hs, hst, -⟩ := exists_of_parse ht
    exact ⟨t, rfl, s, hs, hst⟩
  · rintro ⟨t, rfl, s, hs, ht⟩
    exact ⟨s.build, parse_of_spells hs ht⟩

/-- The reader accepts exactly the sentences of the grammar. An operand is read exactly when it
is a text that a well-formed derivation spells, and every fault it is refused with is a parse
fault. A text spelled by a derivation is read as the expression the derivation builds, so
what is read depends on the tokens alone. And the text of every valid expression is a sentence. -/
theorem parse_accepts_exactly_sentences :
    (∀ x : Operand, (∃ e, Expr.parse? x = .ok e) ↔ ∃ t, x = .plain (.str t) ∧ Sentence t) ∧
      (∀ (x : Operand) (f : Fault), Expr.parse? x = .error f → f.kind = .parsing) ∧
      (∀ (s : Terms) (t : List CodePoint), s.WF → Spells t s.tokens →
        Expr.parse t = .ok s.build) ∧
      ∀ e : Expr, e.valid = true → Sentence (CodePoint.ofString e.render) :=
  ⟨exists_parse?_iff, fun _ _ h => kind_of_parse? h, fun _ _ hs ht => parse_of_spells hs ht,
    fun e he => ⟨ofExpr e, spells_render he⟩⟩

/-- `(x)*(2)`, the text of a product, is a sentence, read as its derivation builds; a lone `)` is
refused with a parse fault. -/
theorem parse_reads_printed_product :
    (Expr.prod (.var "x") (.const 2)).valid = true ∧
      Sentence (CodePoint.ofString (Expr.prod (.var "x") (.const 2)).render) ∧
      Expr.parse (CodePoint.ofString (Expr.prod (.var "x") (.const 2)).render) =
        .ok (ofExpr (Expr.prod (.var "x") (.const 2))).build ∧
      Expr.parse? (.plain (.str (CodePoint.ofString ")"))) =
        .error (.unbalanced 0 (CodePoint.ofString ")")) ∧
      (Fault.unbalanced 0 (CodePoint.ofString ")")).kind = .parsing := by
  have hv : (Expr.prod (.var "x") (.const 2)).valid = true := by decide
  have hs := spells_render hv
  have hclose : Expr.parse? (.plain (.str (CodePoint.ofString ")"))) =
      .error (.unbalanced 0 (CodePoint.ofString ")")) := rfl
  exact ⟨hv, parse_accepts_exactly_sentences.2.2.2 _ hv,
    parse_accepts_exactly_sentences.2.2.1 _ _ hs.1 hs.2, hclose,
    parse_accepts_exactly_sentences.2.1 _ _ hclose⟩

end Grammar

end Polyform
