import Polyform.Proofs.Text.Balanced
import Polyform.Proofs.Grid.Truncate

/-!
# Reading an expression off its text

The text of an expression forgets how its sums are grouped, since `a + b + c` is written the same
for both groupings, and the doubles of its constants beyond their truncation. `Expr.flat` forgets
exactly this: a sum becomes the run of its terms with nested sums spliced in, and a constant its
truncated double. For valid expressions two texts agree exactly when the flattenings do
(`Expr.render_eq_iff_flat_eq`).

The text can be read back because each kind of expression has its own kind of text
(`Expr.Shows`): a constant is a numeral, a variable a run of letters, a product begins with `(`
and holds every `+` inside parentheses, and a sum holds a `+` at depth zero. The terms of a sum
are then the pieces between the `+` at depth zero, and the factors of a product the two groups
in parentheses.
-/

namespace Polyform

namespace CodePoint

theorem ofString_append (s t : String) : ofString (s ++ t) = ofString s ++ ofString t := by
  simp [ofString]

theorem ofString_inj {s t : String} : ofString s = ofString t ↔ s = t := by
  refine ⟨fun h => ?_, congrArg ofString⟩
  have hinj : Function.Injective ofChar := fun c d h => Char.toNat_inj.mp (congrArg val h)
  rw [← String.toList_inj]
  exact (List.map_injective_iff.mpr hinj) h

end CodePoint

namespace Expr

open Text

/-! ## Flattening -/

/-- An expression up to the grouping of its sums and the doubles of its constants beyond their
truncation. -/
inductive Flat where
  /-- A constant, by its truncated double. -/
  | const (s : Binary64.Shape)
  /-- A variable. -/
  | var (name : String)
  /-- A sum, by the run of its terms. -/
  | sum (terms : List Flat)
  /-- A product of two factors. -/
  | prod (l r : Flat)

/-- The run of terms of a flattened sum, or the one term of anything else. -/
def Flat.terms : Flat → List Flat
  | .sum ts => ts
  | f => [f]

/-- Sums become runs of terms; constants are kept by their truncated double. -/
def flat : Expr → Flat
  | const x => .const (Binary64.shape (Grid.truncate x))
  | var n => .var n
  | sum l r => .sum (l.flat.terms ++ r.flat.terms)
  | prod l r => .prod l.flat r.flat

/-- The terms of a sum, nested sums spliced in; anything else is its own one term. -/
def terms : Expr → List Expr
  | sum l r => l.terms ++ r.terms
  | e => [e]

theorem terms_ne_nil (e : Expr) : e.terms ≠ [] := by
  induction e <;> simp_all [terms]

theorem kind_of_mem_terms {e t : Expr} (h : t ∈ e.terms) : t.kind ≠ .sum := by
  induction e with
  | sum l r ihl ihr =>
    rcases List.mem_append.mp h with h | h
    · exact ihl h
    · exact ihr h
  | _ => simp_all [terms, kind]

theorem valid_of_mem_terms {e t : Expr} (he : e.valid = true) (h : t ∈ e.terms) :
    t.valid = true := by
  induction e with
  | sum l r ihl ihr =>
    simp only [valid_sum, Bool.and_eq_true] at he
    rcases List.mem_append.mp h with h | h
    · exact ihl he.1 h
    · exact ihr he.2 h
  | _ => simp_all [terms]

theorem flat_terms (e : Expr) : e.flat.terms = e.terms.map flat := by
  induction e with
  | sum l r ihl ihr =>
    show l.flat.terms ++ r.flat.terms = (l.terms ++ r.terms).map flat
    rw [ihl, ihr, List.map_append]
  | _ => rfl

theorem flat_sum (l r : Expr) : (sum l r).flat = .sum ((sum l r).terms.map flat) := by
  simp [flat, terms, flat_terms]

theorem kind_eq_of_flat_eq {a b : Expr} (h : a.flat = b.flat) : a.kind = b.kind := by
  cases a <;> cases b <;> simp_all [flat, kind]

/-! ## The text, code point by code point -/

theorem ofString_render_sum (l r : Expr) :
    CodePoint.ofString (sum l r).render =
      CodePoint.ofString l.render ++ (sumSep ++ CodePoint.ofString r.render) := by
  simp [render, CodePoint.ofString_append, sumSep]

theorem ofString_render_prod (l r : Expr) :
    CodePoint.ofString (prod l r).render =
      prodText (CodePoint.ofString l.render) (CodePoint.ofString r.render) := by
  simp [render, CodePoint.ofString_append, prodText, Text.wrap]
  rfl

/-- The text of a sum is the texts of its terms joined by ` + `. -/
theorem ofString_render_eq_intercalate (e : Expr) :
    CodePoint.ofString e.render = sumSep.intercalate (e.terms.map (CodePoint.ofString ∘ render)) := by
  induction e with
  | sum l r ihl ihr =>
    rw [ofString_render_sum, ihl, ihr, terms, List.map_append,
      intercalate_append (by simpa using l.terms_ne_nil) (by simpa using r.terms_ne_nil)]
  | _ => simp [terms]

/-! ## Each kind of expression has its own kind of text -/

/-- What the text of an expression of each kind looks like. -/
def Shows : Kind → List CodePoint → Prop
  | .const, cs => cs ≠ [] ∧ ∀ c ∈ cs, c.isDigit ∨ c = .ofChar '.'
  | .var, cs => cs ≠ [] ∧ ∀ c ∈ cs, c.isAsciiLetter
  | .sum, cs => ¬Inside plusCode cs
  | .prod, cs => cs.head? = some (.ofChar '(') ∧ Inside plusCode cs

theorem ofNumeral_constText (x : Float) :
    ∃ d, Decimal.ofNumeral? (CodePoint.ofString (constText x)) = some d :=
  (Decimal.ofNumeral_plain _).imp fun _ h => h.1

theorem mem_constText {x : Float} {c : CodePoint} (h : c ∈ CodePoint.ofString (constText x)) :
    c.isDigit ∨ c = .ofChar '.' :=
  (ofNumeral_constText x).elim fun _ hd => Decimal.mem_of_ofNumeral hd h

theorem mem_name {n : String} (hn : isVarName n = true) {c : CodePoint}
    (h : c ∈ CodePoint.ofString n) : c.isAsciiLetter := by
  simp only [isVarName, isName, Bool.and_eq_true, List.all_eq_true] at hn
  exact hn.2 c h

/-- No parenthesis and no `+` in a numeral or a name. -/
theorem not_paren_of_class {c : CodePoint} (h : (c.isDigit ∨ c = .ofChar '.') ∨ c.isAsciiLetter) :
    depthStep c = 0 ∧ c ≠ plusCode := by
  obtain ⟨v⟩ := c
  have hdot : CodePoint.ofChar '.' = ⟨46⟩ := rfl
  have hopen : CodePoint.ofChar '(' = ⟨40⟩ := rfl
  have hclose : CodePoint.ofChar ')' = ⟨41⟩ := rfl
  have hplus : plusCode = ⟨43⟩ := rfl
  simp only [CodePoint.isDigit, CodePoint.isAsciiLetter, hdot, Bool.and_eq_true, Bool.or_eq_true,
    decide_eq_true_eq, CodePoint.mk.injEq] at h
  simp only [depthStep, hopen, hclose, hplus, ne_eq, CodePoint.mk.injEq]
  refine ⟨?_, by omega⟩
  split_ifs <;> omega

theorem sumSep_balanced : Balanced sumSep :=
  balanced_of_forall (by decide)

theorem star_balanced : Balanced [.ofChar '*'] :=
  balanced_of_forall (by decide)

/-- The text of a valid expression is balanced. -/
theorem balanced_render : ∀ {e : Expr}, e.valid = true → Balanced (CodePoint.ofString e.render)
  | const _, _ => balanced_of_forall fun _ hc => (not_paren_of_class (.inl (mem_constText hc))).1
  | var _, h => balanced_of_forall fun _ hc => (not_paren_of_class (.inr (mem_name h hc))).1
  | sum l r, h => by
    simp only [valid_sum, Bool.and_eq_true] at h
    rw [ofString_render_sum]
    exact (balanced_render h.1).append (sumSep_balanced.append (balanced_render h.2))
  | prod l r, h => by
    simp only [valid_prod, Bool.and_eq_true] at h
    rw [ofString_render_prod]
    exact (balanced_render h.1).wrap.append
      (star_balanced.append (balanced_render h.2).wrap)

/-- In the text of a valid expression other than a sum, every `+` stands inside parentheses. -/
theorem inside_render {e : Expr} (he : e.valid = true) (hk : e.kind ≠ .sum) :
    Inside plusCode (CodePoint.ofString e.render) := by
  cases e with
  | const x => exact inside_of_not_mem fun hc => (not_paren_of_class (.inl (mem_constText hc))).2 rfl
  | var n => exact inside_of_not_mem fun hc => (not_paren_of_class (.inr (mem_name he hc))).2 rfl
  | sum l r => exact absurd rfl hk
  | prod l r =>
    simp only [valid_prod, Bool.and_eq_true] at he
    have hl := balanced_render he.1
    have hr := balanced_render he.2
    rw [ofString_render_prod]
    exact Inside.append hl.wrap (Inside.wrap hl (by decide) (by decide))
      (Inside.append star_balanced
        (inside_of_not_mem (by decide)) (Inside.wrap hr (by decide) (by decide)))

/-- The text of a valid expression shows its kind. -/
theorem shows_render {e : Expr} (he : e.valid = true) : Shows e.kind (CodePoint.ofString e.render) := by
  cases e with
  | const x =>
    obtain ⟨d, hd⟩ := ofNumeral_constText x
    exact ⟨Decimal.ne_nil_of_ofNumeral hd, fun _ hc => mem_constText hc⟩
  | var n =>
    refine ⟨?_, fun _ hc => mem_name he hc⟩
    simp only [valid, isVarName, isName, Bool.and_eq_true, Bool.not_eq_true',
      List.isEmpty_eq_false_iff] at he
    exact he.1
  | sum l r =>
    simp only [valid_sum, Bool.and_eq_true] at he
    show ¬Inside plusCode _
    rw [ofString_render_sum, sumSep_append]
    exact not_inside_append (balanced_render he.1) _
  | prod l r =>
    refine ⟨?_, inside_render he (by simp [kind])⟩
    simp [ofString_render_prod, prodText, Text.wrap]

/-- A numeral holds neither a letter nor `(`. -/
theorem not_letter_of_numeral {c : CodePoint} (h : c.isDigit ∨ c = .ofChar '.') :
    ¬c.isAsciiLetter ∧ c ≠ .ofChar '(' := by
  obtain ⟨v⟩ := c
  have hdot : CodePoint.ofChar '.' = ⟨46⟩ := rfl
  have hopen : CodePoint.ofChar '(' = ⟨40⟩ := rfl
  simp only [CodePoint.isDigit, CodePoint.isAsciiLetter, hdot, hopen, Bool.and_eq_true,
    Bool.or_eq_true, decide_eq_true_eq, CodePoint.mk.injEq, ne_eq] at h ⊢
  omega

theorem ne_open_of_letter {c : CodePoint} (h : c.isAsciiLetter) : c ≠ .ofChar '(' := by
  rintro rfl
  exact absurd h (by decide)

/-- The kind can be read off the text. -/
theorem kind_eq_of_shows {k k' : Kind} {cs : List CodePoint} (h : Shows k cs) (h' : Shows k' cs) :
    k = k' := by
  -- numerals and names hold no `+`, and their first code point is no `(`
  have hnum : Shows .const cs → Inside plusCode cs := fun h =>
    inside_of_not_mem fun hc => (not_paren_of_class (.inl (h.2 _ hc))).2 rfl
  have hname : Shows .var cs → Inside plusCode cs := fun h =>
    inside_of_not_mem fun hc => (not_paren_of_class (.inr (h.2 _ hc))).2 rfl
  have hhead : cs.head? = some (.ofChar '(') → .ofChar '(' ∈ cs := List.mem_of_mem_head?
  match k, k', h, h' with
  | .const, .const, _, _ | .var, .var, _, _ | .sum, .sum, _, _ | .prod, .prod, _, _ => rfl
  | .const, .var, h, h' | .var, .const, h', h =>
    obtain ⟨c, hc⟩ := List.exists_mem_of_ne_nil _ h.1
    exact absurd (h'.2 c hc) (not_letter_of_numeral (h.2 c hc)).1
  | .const, .sum, h, h' | .sum, .const, h', h => exact absurd (hnum h) h'
  | .var, .sum, h, h' | .sum, .var, h', h => exact absurd (hname h) h'
  | .prod, .sum, h, h' | .sum, .prod, h', h => exact absurd h.2 h'
  | .const, .prod, h, h' | .prod, .const, h', h =>
    exact ((not_letter_of_numeral (h.2 _ (hhead h'.1))).2 rfl).elim
  | .var, .prod, h, h' | .prod, .var, h', h =>
    exact (ne_open_of_letter (h.2 _ (hhead h'.1)) rfl).elim

theorem kind_eq_of_render_eq {a b : Expr} (ha : a.valid = true) (hb : b.valid = true)
    (h : a.render = b.render) : a.kind = b.kind :=
  kind_eq_of_shows (shows_render ha) (h ▸ shows_render hb)

/-! ## Reading the text back -/

/-- The text of `a` reads back up to flattening: a valid expression has the text of `a` exactly
when it has the flattening of `a`. -/
def ReadsBack (a : Expr) : Prop :=
  ∀ b : Expr, b.valid = true → (a.render = b.render ↔ a.flat = b.flat)

theorem render_eq_iff_of_kind_ne {a b : Expr} (ha : a.valid = true) (hb : b.valid = true)
    (hk : a.kind ≠ b.kind) : a.render = b.render ↔ a.flat = b.flat :=
  iff_of_false (fun h => hk (kind_eq_of_render_eq ha hb h)) (fun h => hk (kind_eq_of_flat_eq h))

/-- Two lists agree under `f` exactly when they agree under `g`, if each pair of members does. -/
theorem map_eq_map_iff_of_forall {α β γ : Type} {f : α → β} {g : α → γ} :
    ∀ {ts us : List α}, (∀ t ∈ ts, ∀ u ∈ us, (f t = f u ↔ g t = g u)) →
      (ts.map f = us.map f ↔ ts.map g = us.map g)
  | [], [], _ => by simp
  | [], _ :: _, _ => by simp
  | _ :: _, [], _ => by simp
  | t :: ts, u :: us, h => by
    simp only [List.map_cons, List.cons.injEq]
    rw [h t (by simp) u (by simp),
      map_eq_map_iff_of_forall fun t' ht u' hu => h t' (by simp [ht]) u' (by simp [hu])]

/-- The joined texts of two runs of terms agree exactly when their flattenings do, if each term
of the first run reads back. -/
theorem intercalate_eq_iff {ts us : List Expr}
    (hts : ∀ t ∈ ts, t.valid = true ∧ t.kind ≠ .sum ∧ t.ReadsBack)
    (hus : ∀ u ∈ us, u.valid = true ∧ u.kind ≠ .sum) (hne : ts ≠ []) (hne' : us ≠ []) :
    sumSep.intercalate (ts.map (CodePoint.ofString ∘ render)) =
        sumSep.intercalate (us.map (CodePoint.ofString ∘ render)) ↔
      ts.map flat = us.map flat := by
  have hmap : ts.map (CodePoint.ofString ∘ render) = us.map (CodePoint.ofString ∘ render) ↔
      ts.map flat = us.map flat :=
    map_eq_map_iff_of_forall fun t ht u hu => by
      rw [Function.comp_apply, Function.comp_apply, CodePoint.ofString_inj]
      exact (hts t ht).2.2 u (hus u hu).1
  rw [← hmap]
  refine ⟨intercalate_inj ?_ ?_ (by simpa using hne) (by simpa using hne'), congrArg _⟩
  · exact List.forall_mem_map.mpr fun t ht =>
      ⟨balanced_render (hts t ht).1, inside_render (hts t ht).1 (hts t ht).2.1⟩
  · exact List.forall_mem_map.mpr fun u hu =>
      ⟨balanced_render (hus u hu).1, inside_render (hus u hu).1 (hus u hu).2⟩

/-- The text of a valid expression, and of each of its terms, reads back up to flattening. The
induction carries the terms along: the text of a sum is read through the texts of its terms,
which are not its operands when the sum is nested. -/
theorem render_eq_iff_flat_eq_and_terms (a : Expr) (ha : a.valid = true) :
    a.ReadsBack ∧ ∀ t ∈ a.terms, t.ReadsBack := by
  induction a with
  | const x =>
    have h : (const x).ReadsBack := by
      intro b hb
      cases b with
      | const y =>
        simp only [render, flat, Flat.const.injEq]
        exact Grid.constText_eq_iff ha hb
      | _ => exact render_eq_iff_of_kind_ne ha hb (by simp [kind])
    exact ⟨h, by simpa [terms] using h⟩
  | var n =>
    have h : (var n).ReadsBack := by
      intro b hb
      cases b with
      | var m => simp [render, flat]
      | _ => exact render_eq_iff_of_kind_ne ha hb (by simp [kind])
    exact ⟨h, by simpa [terms] using h⟩
  | sum l r ihl ihr =>
    have hlr := ha
    simp only [valid_sum, Bool.and_eq_true] at hlr
    have hterms : ∀ t ∈ (sum l r).terms, t.ReadsBack := by
      intro t ht
      rcases List.mem_append.mp ht with ht | ht
      · exact (ihl hlr.1).2 t ht
      · exact (ihr hlr.2).2 t ht
    refine ⟨fun b hb => ?_, hterms⟩
    cases b with
    | sum l' r' =>
      rw [← CodePoint.ofString_inj, ofString_render_eq_intercalate, ofString_render_eq_intercalate,
        flat_sum, flat_sum, Flat.sum.injEq]
      exact intercalate_eq_iff
        (fun t ht => ⟨valid_of_mem_terms ha ht, kind_of_mem_terms ht, hterms t ht⟩)
        (fun u hu => ⟨valid_of_mem_terms hb hu, kind_of_mem_terms hu⟩) (terms_ne_nil _)
        (terms_ne_nil _)
    | _ => exact render_eq_iff_of_kind_ne ha hb (by simp [kind])
  | prod l r ihl ihr =>
    have hlr := ha
    simp only [valid_prod, Bool.and_eq_true] at hlr
    have h : (prod l r).ReadsBack := by
      intro b hb
      cases b with
      | prod l' r' =>
        have hlr' := hb
        simp only [valid_prod, Bool.and_eq_true] at hlr'
        rw [← CodePoint.ofString_inj, ofString_render_prod, ofString_render_prod,
          prodText_eq_iff (balanced_render hlr.1) (balanced_render hlr'.1),
          CodePoint.ofString_inj, CodePoint.ofString_inj, (ihl hlr.1).1 l' hlr'.1,
          (ihr hlr.2).1 r' hlr'.2]
        simp [flat]
      | _ => exact render_eq_iff_of_kind_ne ha hb (by simp [kind])
    exact ⟨h, by simpa [terms] using h⟩

/-- Two valid expressions have the same text exactly when they agree up to the grouping of their
sums and the truncation of their constants. -/
theorem render_eq_iff_flat_eq {a b : Expr} (ha : a.valid = true) (hb : b.valid = true) :
    a.render = b.render ↔ a.flat = b.flat :=
  (render_eq_iff_flat_eq_and_terms a ha).1 b hb

end Expr

end Polyform
