import Companion.Proofs.Segments
import Companion.Proofs.TypeText

/-!
# The mask of a written source

What the scanner sees of the texts that the syntax writes: code as it is, documentation comments and
string literals blanked, and of a block what it sees of the block alone. Each text is masked the same
whatever follows it (`mask_code_append`, `mask_javadoc_append`, `mask_field_append`,
`mask_block_append`).
-/

namespace Companion.Java.Syntax

open Text
open Unicode (isBlank isWordChar)

variable {s t rest : List Char} {c : Char}

/-- The character opens no comment and no literal. -/
def isPlain (c : Char) : Bool :=
  c != '/' && c != '"' && c != '\''

theorem maskFrom_code_cons (h : isPlain c) (s : List Char) :
    maskFrom .code (c :: s) = .keep c :: maskFrom .code s := by
  simp only [isPlain, Bool.and_eq_true, bne_iff_ne] at h
  exact maskFrom_code_of_ne h.1.2 h.2 fun he => absurd he h.1.1

theorem mask_code_append (h : ∀ c ∈ s, isPlain c) (rest : List Char) :
    mask (s ++ rest) = s.map .keep ++ mask rest := by
  induction s with
  | nil => rfl
  | cons c s ih =>
    rw [List.cons_append, mask, maskFrom_code_cons (h c List.mem_cons_self), ← mask,
      ih fun d hd => h d (List.mem_cons_of_mem _ hd)]
    rfl

theorem maskedText_keep (s : List Char) : maskedText (s.map .keep) = s := by
  induction s with
  | nil => rfl
  | cons c s ih =>
    rw [List.map_cons, maskedText_cons, ih]
    by_cases h : c = ' '
    · subst h
      rfl
    · rw [text_of_ne h]
      rfl

theorem maskedText_cons_feed (gs : List Glyph) :
    maskedText (.keep '\n' :: gs) = '\n' :: maskedText gs :=
  rfl

theorem eq_cons_of_append_brace {x : Char} {u t : List Char} (hx : x ≠ '\x7d')
    (h : s ++ '\x7d' :: u = x :: t) : ∃ r, s = x :: r ∧ r ++ '\x7d' :: u = t := by
  rcases s with _ | ⟨d, s⟩
  · simp only [List.nil_append, List.cons.injEq] at h
    exact absurd h.1.symm hx
  · simp only [List.cons_append, List.cons.injEq] at h
    exact ⟨s, by rw [h.1], h.2⟩

theorem maskFrom_code_brace {u : List Char} (h₁ : ∀ t, c = '/' → s = '/' :: t → False)
    (h₂ : ∀ t, c = '/' → s = '*' :: t → False)
    (h₃ : ∀ t, c = '"' → s = '"' :: '"' :: t → False) :
    maskFrom .code (c :: s ++ '\x7d' :: u) =
      .keep c :: maskFrom (if c = '"' ∨ c = '\'' then .literal c else .code) (s ++ '\x7d' :: u) := by
  rw [List.cons_append, maskFrom]
  · intro t hc ht
    obtain ⟨r, hr, -⟩ := eq_cons_of_append_brace (by decide) ht
    exact h₁ r hc hr
  · intro t hc ht
    obtain ⟨r, hr, -⟩ := eq_cons_of_append_brace (by decide) ht
    exact h₂ r hc hr
  · intro t hc ht
    obtain ⟨r, hr, ht⟩ := eq_cons_of_append_brace (by decide) ht
    obtain ⟨r', hr', -⟩ := eq_cons_of_append_brace (by decide) ht
    exact h₃ r' hc (by rw [hr, hr'])

theorem maskFrom_blockComment_brace {u : List Char}
    (h : ∀ t, c = '*' → s = '/' :: t → False) :
    maskFrom .blockComment (c :: s ++ '\x7d' :: u) =
      .blank c :: maskFrom .blockComment (s ++ '\x7d' :: u) := by
  rw [List.cons_append, maskFrom]
  intro t hc ht
  obtain ⟨r, hr, -⟩ := eq_cons_of_append_brace (by decide) ht
  exact h r hc hr

theorem maskFrom_textBlock_brace {u : List Char}
    (h : ∀ t, c = '"' → s = '"' :: '"' :: t → False) :
    maskFrom .textBlock (c :: s ++ '\x7d' :: u) =
      .blank c :: maskFrom .textBlock (s ++ '\x7d' :: u) := by
  rw [List.cons_append, maskFrom]
  intro t hc ht
  obtain ⟨r, hr, ht⟩ := eq_cons_of_append_brace (by decide) ht
  obtain ⟨r', hr', -⟩ := eq_cons_of_append_brace (by decide) ht
  exact h r' hc (by rw [hr, hr'])

theorem maskFrom_literal_brace {q : Char} {u : List Char}
    (h : ∀ d t, c = '\\' → s = d :: t → False) (hescape : ¬(c = '\\' ∧ s = [])) :
    maskFrom (.literal q) (c :: s ++ '\x7d' :: u) =
      if c = q ∨ c = '\n' then .keep c :: maskFrom .code (s ++ '\x7d' :: u)
      else .blank c :: maskFrom (.literal q) (s ++ '\x7d' :: u) := by
  rw [List.cons_append, maskFrom]
  intro d t hc _
  rcases s with _ | ⟨e, s⟩
  · exact hescape ⟨hc, rfl⟩
  · exact h e s hc rfl

/-- What follows a brace that is seen is code. -/
theorem maskFrom_brace {r : Region} (h : maskFrom r ['\x7d'] = [.keep '\x7d']) (rest : List Char) :
    maskFrom r ('\x7d' :: rest) = .keep '\x7d' :: maskFrom .code rest := by
  have hblank : Glyph.blank '\x7d' ≠ Glyph.keep '\x7d' := by decide
  rcases r with _ | _ | _ | _ | q
  · exact maskFrom_code_cons (by decide) rest
  · exact absurd (List.cons.inj h).1 hblank
  · exact absurd (List.cons.inj h).1 hblank
  · exact absurd (List.cons.inj h).1 hblank
  · rw [maskFrom] at h ⊢
    · split_ifs at h ⊢
      · rfl
      · exact absurd (List.cons.inj h).1 hblank
    · simp
    · simp

/-- What is masked up to a brace is masked so whatever follows the brace. -/
theorem maskFrom_append_brace {r : Region}
    (h : maskFrom r (s ++ ['\x7d']) = maskFrom r s ++ [.keep '\x7d']) (rest : List Char) :
    maskFrom r (s ++ '\x7d' :: rest) = maskFrom r s ++ .keep '\x7d' :: maskFrom .code rest := by
  have hblank : Glyph.blank '\x7d' ≠ Glyph.keep '\x7d' := by decide
  fun_induction maskFrom r s with
  | case1 r =>
    rw [List.nil_append, List.nil_append] at h ⊢
    exact maskFrom_brace h rest
  | case5 c s h₁ h₂ h₃ ih =>
    rw [maskFrom_code_brace h₁ h₂ h₃] at h ⊢
    rw [ih (List.cons.inj h).2]
    rfl
  | case9 c s h₁ ih =>
    rw [maskFrom_blockComment_brace h₁] at h ⊢
    rw [ih (List.cons.inj h).2]
    rfl
  | case11 c s h₁ ih =>
    rw [maskFrom_textBlock_brace h₁] at h ⊢
    rw [ih (List.cons.inj h).2]
    rfl
  | case13 q c s h₁ hend ih =>
    by_cases hescape : c = '\\' ∧ s = []
    · obtain ⟨rfl, rfl⟩ := hescape
      exact absurd (List.cons.inj (List.cons.inj h).2).1 hblank
    · rw [maskFrom_literal_brace h₁ hescape, if_pos hend] at h ⊢
      rw [ih (List.cons.inj h).2]
      rfl
  | case14 q c s h₁ hend ih =>
    by_cases hescape : c = '\\' ∧ s = []
    · obtain ⟨rfl, rfl⟩ := hescape
      exact absurd (List.cons.inj (List.cons.inj h).2).1 hblank
    · rw [maskFrom_literal_brace h₁ hescape, if_neg hend] at h ⊢
      rw [ih (List.cons.inj h).2]
      rfl
  | case6 s ih =>
    rw [List.cons_append, maskFrom, if_pos rfl] at h ⊢
    rw [ih (List.cons.inj h).2]
    rfl
  | case7 c s hc ih =>
    rw [List.cons_append, maskFrom, if_neg hc] at h ⊢
    rw [ih (List.cons.inj h).2]
    rfl
  | case2 s ih | case3 s ih | case8 s ih =>
    rw [List.cons_append, List.cons_append, maskFrom] at h ⊢
    rw [ih (List.cons.inj (List.cons.inj h).2).2]
    rfl
  | case12 q c s ih =>
    rw [List.cons_append, List.cons_append, maskFrom] at h ⊢
    rw [ih (List.cons.inj (List.cons.inj h).2).2]
    rfl
  | case4 s ih | case10 s ih =>
    rw [List.cons_append, List.cons_append, List.cons_append, maskFrom] at h ⊢
    rw [ih (List.cons.inj (List.cons.inj (List.cons.inj h).2).2).2]
    rfl

/-- A block is masked as it is alone. -/
theorem mask_block_append (b : Block) (rest : List Char) :
    mask (b.text ++ '\x7d' :: rest) = mask b.text ++ .keep '\x7d' :: mask rest :=
  maskFrom_append_brace b.complete rest

theorem isInside_of_isQuotable (h : isQuotable s) : isInside '"' s := by
  fun_induction isQuotable s with
  | case1 => rfl
  | case2 d cs ih => exact ih h
  | case3 c cs hc ih =>
    simp only [Bool.and_eq_true] at h
    rw [isInside]
    · simp [h.1, ih h.2]
    · exact hc

theorem mask_quotable_append (q : Quotable) (hc : c ≠ '"') (rest : List Char) :
    mask ('"' :: (q.text ++ '"' :: c :: rest)) =
      .keep '"' :: (q.text.map .blank ++ .keep '"' :: mask (c :: rest)) := by
  have hcomplete : (Segment.literal '"' q.text).Complete (c :: rest) :=
    ⟨.inl rfl, isInside_of_isQuotable q.quotable, fun _ => by simpa using hc⟩
  simpa [Segment.print, Segment.glyphs] using mask_append hcomplete

/-- A documentation comment does not close before its end. -/
theorem Javadoc.not_infix (d : Javadoc) : ¬"*/".toList <:+: '*' :: d.content := by
  rintro ⟨p, q, hpq⟩
  rcases p with _ | ⟨c, p⟩
  · rcases hcontent : d.content with _ | ⟨e, s⟩
    · simp [hcontent] at hpq
    · have he : e = '/' := by
        simp only [hcontent] at hpq
        exact ((List.cons.inj (List.cons.inj hpq).2).1).symm
      exact d.start (by rw [hcontent, he]; rfl)
  · refine d.unclosed ⟨p, q, ?_⟩
    simpa using (List.cons.inj hpq).2

theorem mask_javadoc_append (d : Javadoc) (rest : List Char) :
    mask (d.print ++ rest) = d.print.map .blank ++ mask rest := by
  have hcomplete : (Segment.blockComment ('*' :: d.content)).Complete rest := d.not_infix
  exact mask_append hcomplete

end Companion.Java.Syntax
