import Polyform.Proofs.Expr.Meaning
import Polyform.Proofs.Text.Enclosing

/-!
# The grammar of expression texts

The texts of expressions are the sentences of the grammar

    sum      ::= product ('+' product)*
    product  ::= primary ('*' primary)*
    primary  ::= number | variable | '(' sum ')'
    number   ::= [0-9]+ ('.' [0-9]*)? | '.' [0-9]+
    variable ::= [a-zA-Z]+

with blank code points (`Text.isBlank`) anywhere between tokens, and every number below the
point from which a decimal rounds to an infinite double (`Grammar.overflow`).

A derivation is a tree of sums, products and primaries (`Grammar.Terms`, `Grammar.Factors`,
`Grammar.Primary`). Its tokens (`Terms.tokens`), written out with blanks between them, spell a
text (`Grammar.Spells`), and a text is a sentence when a well-formed derivation spells it
(`Grammar.Sentence`). Under an assignment of real numbers to names a derivation has a value
(`Terms.value`), each number standing for the decimal that its double is shown as; and it reads as
an expression (`Terms.build`), built through the combinators as the parser builds it.

## Main statements

* `Grammar.Spells.append`, `Grammar.Spells.split`: spelling token lists piece by piece.
* `Grammar.Terms.balanced`: a spelled derivation is balanced, and the separators of a sum and a
  product stand inside parentheses in its parts.
-/

namespace Polyform

namespace Grammar

open Text

/-! ## Tokens and their spelling -/

/-- The tokens of the grammar. -/
inductive Token where
  /-- A number, by its code points. -/
  | num (cs : List CodePoint)
  /-- A variable, by its code points. -/
  | name (cs : List CodePoint)
  /-- The sign `+`. -/
  | plus
  /-- The sign `*`. -/
  | times
  /-- An opening parenthesis. -/
  | lparen
  /-- A closing parenthesis. -/
  | rparen
deriving DecidableEq

/-- The code points a token is written with. -/
def Token.text : Token → List CodePoint
  | .num cs => cs
  | .name cs => cs
  | .plus => [.ofChar '+']
  | .times => [.ofChar '*']
  | .lparen => [.ofChar '(']
  | .rparen => [.ofChar ')']

/-- A run of blank code points. -/
def Blanks (bs : List CodePoint) : Prop :=
  ∀ c ∈ bs, isBlank c = true

/-- The text `t` is the tokens written out, with blanks before, between and after them. -/
inductive Spells : List CodePoint → List Token → Prop
  | nil {bs : List CodePoint} : Blanks bs → Spells bs []
  | cons {bs t : List CodePoint} {tok : Token} {toks : List Token} :
      Blanks bs → Spells t toks → Spells (bs ++ tok.text ++ t) (tok :: toks)

/-! ## Numbers and names -/

/-- A run of ASCII digits. -/
def IsDigits (cs : List CodePoint) : Prop :=
  ∀ c ∈ cs, c.isDigit = true

/-- `[0-9]+ ('.' [0-9]*)? | '.' [0-9]+`. -/
def IsNumeral (cs : List CodePoint) : Prop :=
  (cs ≠ [] ∧ IsDigits cs) ∨
  (∃ ds fs, ds ≠ [] ∧ IsDigits ds ∧ IsDigits fs ∧ cs = ds ++ .ofChar '.' :: fs) ∨
  (∃ fs, fs ≠ [] ∧ IsDigits fs ∧ cs = .ofChar '.' :: fs)

/-- `[a-zA-Z]+`. -/
def IsName (cs : List CodePoint) : Prop :=
  cs ≠ [] ∧ ∀ c ∈ cs, c.isAsciiLetter = true

/-- The decimal a numeral denotes. -/
def numeral (cs : List CodePoint) : Decimal :=
  (Decimal.ofNumeral? cs).getD ⟨0, 0⟩

/-- From here on a decimal rounds to an infinite double: halfway between the largest double and
`2 ^ 1024`. -/
def overflow : ℚ :=
  2 ^ 1024 - 2 ^ 970

/-- A number that reads as a finite double. -/
def IsLiteral (cs : List CodePoint) : Prop :=
  IsNumeral cs ∧ (numeral cs).val < overflow

/-! ## Derivations -/

mutual

/-- A primary: a number, a variable, or a sum in parentheses. -/
inductive Primary where
  /-- A number. -/
  | num (cs : List CodePoint)
  /-- A variable. -/
  | name (cs : List CodePoint)
  /-- A sum in parentheses. -/
  | group (s : Terms)

/-- A product: primaries joined by `*`. -/
inductive Factors where
  /-- The last factor. -/
  | last (p : Primary)
  /-- A factor, then the rest of the product. -/
  | cons (p : Primary) (rest : Factors)

/-- A sum: products joined by `+`. -/
inductive Terms where
  /-- The last term. -/
  | last (p : Factors)
  /-- A term, then the rest of the sum. -/
  | cons (p : Factors) (rest : Terms)

end

mutual

/-- The tokens of a primary. -/
def Primary.tokens : Primary → List Token
  | .num cs => [.num cs]
  | .name cs => [.name cs]
  | .group s => .lparen :: s.tokens ++ [.rparen]

/-- The tokens of a product. -/
def Factors.tokens : Factors → List Token
  | .last p => p.tokens
  | .cons p rest => p.tokens ++ .times :: rest.tokens

/-- The tokens of a sum. -/
def Terms.tokens : Terms → List Token
  | .last p => p.tokens
  | .cons p rest => p.tokens ++ .plus :: rest.tokens

end

mutual

/-- Every number is a literal and every variable a name. -/
def Primary.WF : Primary → Prop
  | .num cs => IsLiteral cs
  | .name cs => IsName cs
  | .group s => s.WF

/-- Every factor is well formed. -/
def Factors.WF : Factors → Prop
  | .last p => p.WF
  | .cons p rest => p.WF ∧ rest.WF

/-- Every term is well formed. -/
def Terms.WF : Terms → Prop
  | .last p => p.WF
  | .cons p rest => p.WF ∧ rest.WF

end

/-- The text is a sentence: a well-formed derivation spells it. -/
def Sentence (t : List CodePoint) : Prop :=
  ∃ s : Terms, s.WF ∧ Spells t s.tokens

/-! ## Values and expressions -/

mutual

/-- The number of numbers in a primary. -/
def Primary.literals : Primary → ℕ
  | .num _ => 1
  | .name _ => 0
  | .group s => s.literals

/-- The number of numbers in a product. -/
def Factors.literals : Factors → ℕ
  | .last p => p.literals
  | .cons p rest => p.literals + rest.literals

/-- The number of numbers in a sum. -/
def Terms.literals : Terms → ℕ
  | .last p => p.literals
  | .cons p rest => p.literals + rest.literals

end

mutual

/-- The value of a primary: a number is the decimal its double is shown as. -/
noncomputable def Primary.value (ρ : String → ℝ) : Primary → ℝ
  | .num cs => Expr.shown (numeral cs).toFloat
  | .name cs => ρ (CodePoint.asString cs)
  | .group s => s.value ρ

/-- The value of a product. -/
noncomputable def Factors.value (ρ : String → ℝ) : Factors → ℝ
  | .last p => p.value ρ
  | .cons p rest => p.value ρ * rest.value ρ

/-- The value of a sum. -/
noncomputable def Terms.value (ρ : String → ℝ) : Terms → ℝ
  | .last p => p.value ρ
  | .cons p rest => p.value ρ + rest.value ρ

end

mutual

/-- The expression a primary reads as: a constant, a variable, or the sum it encloses. -/
def Primary.build : Primary → Expr
  | .num cs => .const ((numeral cs).toFloat + 0.0)
  | .name cs => .var (CodePoint.asString cs)
  | .group s => Expr.regroup s.builds

/-- The expressions of the factors of a product. -/
def Factors.builds : Factors → List Expr
  | .last p => [p.build]
  | .cons p rest => p.build :: rest.builds

/-- The expressions of the terms of a sum, each factors multiplied from the left. -/
def Terms.builds : Terms → List Expr
  | .last p => [Expr.product p.builds]
  | .cons p rest => Expr.product p.builds :: rest.builds

end

/-- The expression a sum reads as: its terms, regrouped. -/
def Terms.build (s : Terms) : Expr :=
  Expr.regroup s.builds

/-! ## Spelling token by token -/

/-- A token written with code points that are not blank, and at least one of them. -/
def Token.Word (tok : Token) : Prop :=
  tok.text ≠ [] ∧ ∀ c ∈ tok.text, isBlank c = false

variable {t t₁ t₂ bs bs' : List CodePoint} {tok : Token} {toks a b : List Token}

theorem Blanks.append (h₁ : Blanks t₁) (h₂ : Blanks t₂) : Blanks (t₁ ++ t₂) := fun c hc =>
  (List.mem_append.mp hc).elim (h₁ c) (h₂ c)

theorem blanks_nil : Blanks [] := fun _ h => absurd h (List.not_mem_nil)

namespace Spells

theorem blanks_append (hbs : Blanks bs) (h : Spells t toks) : Spells (bs ++ t) toks := by
  cases h with
  | nil hb => exact .nil (hbs.append hb)
  | cons hb hrest => simpa [List.append_assoc] using Spells.cons (hbs.append hb) hrest

theorem append_blanks (hbs : Blanks bs) (h : Spells t toks) : Spells (t ++ bs) toks := by
  induction h with
  | nil hb => exact .nil (hb.append hbs)
  | cons hb _ ih => simpa [List.append_assoc] using Spells.cons hb ih

theorem append (h₁ : Spells t₁ a) (h₂ : Spells t₂ b) : Spells (t₁ ++ t₂) (a ++ b) := by
  induction h₁ with
  | nil hb => exact h₂.blanks_append hb
  | cons hb _ ih => simpa [List.append_assoc] using Spells.cons hb ih

/-- A text that spells two runs of tokens falls into a text for each. -/
theorem split : ∀ {a : List Token} {t : List CodePoint}, Spells t (a ++ b) →
    ∃ t₁ t₂, t = t₁ ++ t₂ ∧ Spells t₁ a ∧ Spells t₂ b
  | [], t, h => ⟨[], t, rfl, .nil blanks_nil, h⟩
  | tok :: a, _, h => by
    cases h with
    | cons hb hrest =>
      obtain ⟨u₁, u₂, rfl, h₁, h₂⟩ := split hrest
      exact ⟨_ ++ tok.text ++ u₁, u₂, by simp [List.append_assoc], .cons hb h₁, h₂⟩

theorem single_iff : Spells t [tok] ↔ ∃ bs bs', t = bs ++ tok.text ++ bs' ∧ Blanks bs ∧ Blanks bs' := by
  constructor
  · intro h
    cases h with
    | cons hb hrest =>
      cases hrest with
      | nil hb' => exact ⟨_, _, rfl, hb, hb'⟩
  · rintro ⟨bs, bs', rfl, hb, hb'⟩
    exact .cons hb (.nil hb')

/-- A spelled text is blanks around a text that neither begins nor ends with a blank and spells
the same tokens, when every token is a word. -/
theorem core (h : Spells t toks) (hw : ∀ tok ∈ toks, tok.Word) :
    ∃ bs m bs', t = bs ++ m ++ bs' ∧ Blanks bs ∧ Blanks bs' ∧ Spells m toks ∧
      (m = [] ↔ toks = []) ∧ (∀ c ∈ m.head?, isBlank c = false) ∧
      ∀ c ∈ m.getLast?, isBlank c = false := by
  induction h with
  | nil hb => exact ⟨_, [], [], by simp, hb, blanks_nil, .nil blanks_nil, by simp, by simp, by simp⟩
  | @cons bs₀ t₀ tok toks' hb hrest ih =>
    obtain ⟨hne, hnb⟩ := hw tok (by simp)
    obtain ⟨b₁, m, b₂, rfl, hb₁, hb₂, hm, hmnil, -, hlast⟩ :=
      ih fun tok' h' => hw tok' (List.mem_cons_of_mem _ h')
    have hhead : ∀ c ∈ tok.text.head?, isBlank c = false := fun c hc =>
      hnb c (List.mem_of_mem_head? hc)
    by_cases hm0 : m = []
    · -- the last token: the text ends with it
      subst hm0
      have htoks : toks' = [] := hmnil.mp rfl
      subst htoks
      have hsp : Spells ([] ++ tok.text ++ []) [tok] := .cons blanks_nil (.nil blanks_nil)
      refine ⟨bs₀, tok.text, b₁ ++ b₂, by simp, hb, hb₁.append hb₂, by simpa using hsp,
        by simp [hne], hhead, fun c hc => ?_⟩
      exact hnb c (List.mem_of_getLast? hc)
    · refine ⟨bs₀, tok.text ++ b₁ ++ m, b₂, by simp [List.append_assoc], hb, hb₂, ?_, by simp [hne],
        ?_, ?_⟩
      · have hsp : Spells ([] ++ tok.text ++ (b₁ ++ m)) (tok :: toks') :=
          .cons blanks_nil (hm.blanks_append hb₁)
        simpa [List.append_assoc] using hsp
      · rwa [List.append_assoc, List.head?_append_of_ne_nil _ hne]
      · rwa [List.getLast?_append_of_ne_nil _ hm0]

end Spells

/-! ## Code points of numbers, names and blanks -/

/-- The code point `*`. -/
def timesCode : CodePoint :=
  .ofChar '*'

/-- A code point that changes no depth and is neither sign. -/
def Quiet (c : CodePoint) : Prop :=
  depthStep c = 0 ∧ c ≠ plusCode ∧ c ≠ timesCode

/-- A digit, the point or an ASCII letter is quiet and not blank. -/
theorem quiet_of_word {c : CodePoint}
    (h : c.isDigit = true ∨ c = .ofChar '.' ∨ c.isAsciiLetter = true) :
    Quiet c ∧ isBlank c = false := by
  obtain ⟨v⟩ := c
  have hdot : CodePoint.ofChar '.' = ⟨46⟩ := rfl
  have hopen : CodePoint.ofChar '(' = ⟨40⟩ := rfl
  have hclose : CodePoint.ofChar ')' = ⟨41⟩ := rfl
  have hplus : plusCode = ⟨43⟩ := rfl
  have htimes : timesCode = ⟨42⟩ := rfl
  simp only [CodePoint.isDigit, CodePoint.isAsciiLetter, hdot, Bool.and_eq_true, Bool.or_eq_true,
    decide_eq_true_eq, CodePoint.mk.injEq] at h
  simp only [Quiet, depthStep, isBlank, blankRanges, hopen, hclose, hplus, htimes, ne_eq,
    CodePoint.mk.injEq, List.any_cons, List.any_nil, Bool.or_false, Bool.or_eq_false_iff,
    Bool.and_eq_false_iff, decide_eq_false_iff_not, not_le]
  refine ⟨⟨?_, by omega, by omega⟩, by omega⟩
  split_ifs <;> omega

/-- A blank code point is quiet. -/
theorem quiet_of_blank {c : CodePoint} (h : isBlank c = true) : Quiet c := by
  refine ⟨depthStep_of_isBlank h, ?_, ?_⟩
  · rintro rfl
    exact absurd h (by decide)
  · rintro rfl
    exact absurd h (by decide)

/-- A text of quiet code points is balanced and holds neither sign. -/
theorem balanced_of_quiet (h : ∀ c ∈ t, Quiet c) :
    Balanced t ∧ Inside plusCode t ∧ Inside timesCode t :=
  ⟨balanced_of_forall fun c hc => (h c hc).1,
    inside_of_not_mem fun hc => (h _ hc).2.1 rfl, inside_of_not_mem fun hc => (h _ hc).2.2 rfl⟩

theorem IsNumeral.word {cs : List CodePoint} (h : IsNumeral cs) :
    ∀ c ∈ cs, c.isDigit = true ∨ c = .ofChar '.' ∨ c.isAsciiLetter = true := by
  rcases h with ⟨-, hd⟩ | ⟨ds, fs, -, hds, hfs, rfl⟩ | ⟨fs, -, hfs, rfl⟩
  · exact fun c hc => .inl (hd c hc)
  · intro c hc
    simp only [List.mem_append, List.mem_cons] at hc
    rcases hc with hc | rfl | hc
    exacts [.inl (hds c hc), .inr (.inl rfl), .inl (hfs c hc)]
  · intro c hc
    rcases List.mem_cons.mp hc with rfl | hc
    exacts [.inr (.inl rfl), .inl (hfs c hc)]

theorem IsNumeral.ne_nil {cs : List CodePoint} (h : IsNumeral cs) : cs ≠ [] := by
  rcases h with ⟨hne, -⟩ | ⟨ds, fs, -, -, -, rfl⟩ | ⟨fs, -, -, rfl⟩ <;> simp [*]

/-! ## Spelled derivations are balanced -/

/-- Two balanced texts joined by a quiet code point between blanks. -/
theorem balanced_join {c : CodePoint} (h₁ : Balanced t₁) (hb : Blanks bs) (hc : depthStep c = 0)
    (h₂ : Balanced t₂) : Balanced (t₁ ++ (bs ++ [c] ++ t₂)) :=
  h₁.append ((balanced_of_forall fun e he => by
    rcases List.mem_append.mp he with he | he
    · exact (quiet_of_blank (hb e he)).1
    · rw [List.mem_singleton.mp he]; exact hc).append h₂)

/-- A code point that stands inside parentheses in two balanced texts does so in their join, if
it is neither the code point between them nor blank. -/
theorem inside_join {c d : CodePoint} (h₁ : Balanced t₁) (hb : Blanks bs) (hc : depthStep c = 0)
    (hi₁ : Inside d t₁) (hi₂ : Inside d t₂) (hdc : d ≠ c) (hdb : isBlank d = false) :
    Inside d (t₁ ++ (bs ++ [c] ++ t₂)) := by
  have hq : ∀ e ∈ bs ++ [c], depthStep e = 0 := fun e he => by
    rcases List.mem_append.mp he with he | he
    · exact (quiet_of_blank (hb e he)).1
    · rw [List.mem_singleton.mp he]; exact hc
  refine hi₁.append h₁ (Inside.append (balanced_of_forall hq) (inside_of_not_mem fun hd => ?_) hi₂)
  rcases List.mem_append.mp hd with hd | hd
  · simp [hb d hd] at hdb
  · exact hdc (List.mem_singleton.mp hd)

mutual

/-- A spelled primary is balanced and holds either sign only inside parentheses. -/
theorem Primary.balanced : ∀ {p : Primary} {t : List CodePoint}, p.WF → Spells t p.tokens →
    Balanced t ∧ Inside plusCode t ∧ Inside timesCode t
  | .num cs, _, hp, ht => by
    obtain ⟨bs, bs', rfl, hb, hb'⟩ := Spells.single_iff.mp ht
    refine balanced_of_quiet fun c hc => ?_
    simp only [Token.text, List.mem_append] at hc
    rcases hc with (hc | hc) | hc
    exacts [quiet_of_blank (hb c hc), (quiet_of_word (hp.1.word c hc)).1, quiet_of_blank (hb' c hc)]
  | .name cs, _, hp, ht => by
    obtain ⟨bs, bs', rfl, hb, hb'⟩ := Spells.single_iff.mp ht
    refine balanced_of_quiet fun c hc => ?_
    simp only [Token.text, List.mem_append] at hc
    rcases hc with (hc | hc) | hc
    exacts [quiet_of_blank (hb c hc), (quiet_of_word (.inr (.inr (hp.2 c hc)))).1,
      quiet_of_blank (hb' c hc)]
  | .group s, _, hp, ht => by
    obtain ⟨t₁, t₂, rfl, h₁, h₂⟩ := Spells.split ht
    cases h₁ with
    | @cons bs u _ _ hb hu =>
      obtain ⟨bs₂, bs₃, rfl, hb₂, hb₃⟩ := Spells.single_iff.mp h₂
      -- the text is blanks, then the inner text in parentheses, then blanks
      have hin : Balanced (u ++ bs₂) :=
        (Terms.balanced hp hu).append (balanced_of_forall fun c hc => (quiet_of_blank (hb₂ c hc)).1)
      have heq : bs ++ Token.text .lparen ++ u ++ (bs₂ ++ Token.text .rparen ++ bs₃) =
          bs ++ wrap (u ++ bs₂) ++ bs₃ := by
        simp [Token.text, wrap, List.append_assoc]
      rw [heq]
      have hbs := balanced_of_quiet fun c hc => quiet_of_blank (hb c hc)
      have hbs₃ := balanced_of_quiet fun c hc => quiet_of_blank (hb₃ c hc)
      refine ⟨(hbs.1.append hin.wrap).append hbs₃.1, ?_, ?_⟩
      · exact (hbs.2.1.append hbs.1 (Inside.wrap hin (by decide) (by decide))).append
          (hbs.1.append hin.wrap) hbs₃.2.1
      · exact (hbs.2.2.append hbs.1 (Inside.wrap hin (by decide) (by decide))).append
          (hbs.1.append hin.wrap) hbs₃.2.2

/-- A spelled product is balanced and holds `+` only inside parentheses. -/
theorem Factors.balanced : ∀ {p : Factors} {t : List CodePoint}, p.WF → Spells t p.tokens →
    Balanced t ∧ Inside plusCode t
  | .last p, _, hp, ht => (Primary.balanced hp ht).imp_right And.left
  | .cons p rest, _, hp, ht => by
    obtain ⟨t₁, t₂, rfl, h₁, h₂⟩ := Spells.split ht
    cases h₂ with
    | @cons bs t₃ _ _ hb h₃ =>
      obtain ⟨hb₁, hi₁, -⟩ := Primary.balanced hp.1 h₁
      obtain ⟨hb₃, hi₃⟩ := Factors.balanced hp.2 h₃
      exact ⟨balanced_join hb₁ hb (by decide) hb₃,
        inside_join hb₁ hb (by decide) hi₁ hi₃ (by decide) (by decide)⟩

/-- A spelled sum is balanced. -/
theorem Terms.balanced : ∀ {s : Terms} {t : List CodePoint}, s.WF → Spells t s.tokens → Balanced t
  | .last p, _, hp, ht => (Factors.balanced hp ht).1
  | .cons p rest, _, hp, ht => by
    obtain ⟨t₁, t₂, rfl, h₁, h₂⟩ := Spells.split ht
    cases h₂ with
    | @cons bs t₃ _ _ hb h₃ =>
      exact balanced_join (Factors.balanced hp.1 h₁).1 hb (by decide) (Terms.balanced hp.2 h₃)

end

end Grammar

end Polyform
