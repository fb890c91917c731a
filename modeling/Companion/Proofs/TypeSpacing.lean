import Companion.Proofs.TypeLayout

/-!
# The spaces of a normal layout

The normal layout of a text has the characters of the text that are not white space. Between two of
them it has a space or none (`spacing`), and only where no bracket or comma decides does that depend
on whether white space stood there (`normalizeType_cons`).
-/

namespace Companion.Java

open Text
open Syntax (dropWhile_space join_consFirst)
open Unicode (isBlank)

variable {s t gap : List Char} {c d : Char} {blank : Bool}

/-- Brackets and commas close up to what stands before them. -/
def closesUp (c : Char) : Bool :=
  [',', '<', '[', '>', ']'].contains c

/-- What stands behind commas and opening brackets closes up to them, but for the space that a comma
brings. -/
def opensUp (c : Char) : Bool :=
  [',', '<', '['].contains c

/-- The space between two characters in a normal layout, where white space stood between them or
not. -/
def spacing (c : Char) (blank : Bool) (d : Char) : List Char :=
  if closesUp d then []
  else if c = ',' then [' ']
  else if blank && !opensUp c then [' ']
  else []

/-- The normal layout of a text behind the character `c`, where white space stands behind `c` or
not. A comma at the end keeps its space. -/
def spacedFrom (c : Char) (blank : Bool) : List Char → List Char
  | [] => if c = ',' then [' '] else []
  | d :: s =>
    if isBlank d then spacedFrom c true s else spacing c blank d ++ d :: spacedFrom d false s

theorem words_cons_of_blank (hc : isBlank c) (s : List Char) : words (c :: s) = words s := by
  rcases s with _ | ⟨d, s⟩ <;> simp [words, hc]

theorem words_append_of_blank (hgap : ∀ c ∈ gap, isBlank c) (s : List Char) :
    words (gap ++ s) = words s := by
  induction gap with
  | nil => rfl
  | cons c gap ih =>
    obtain ⟨hc, hgap⟩ := List.forall_mem_cons.1 hgap
    rw [List.cons_append, words_cons_of_blank hc, ih hgap]

/-- The words of a text behind another character, with single spaces between them. -/
def wordsAfter (blank : Bool) : List Char → List Char
  | [] => []
  | d :: s =>
    if isBlank d then wordsAfter true s
    else (if blank then [' '] else []) ++ d :: wordsAfter false s

theorem words_cons_cons_of_blank (hc : isBlank c = false) (hd : isBlank d) (s : List Char) :
    words (c :: d :: s) = [c] :: words s := by
  rw [words, if_neg (by simp [hc]), if_pos hd, words_cons_of_blank hd]

theorem join_words_cons (hc : isBlank c = false) (blank : Bool) (s : List Char) :
    join [' '] (words (c :: ((if blank then [' '] else []) ++ s))) = c :: wordsAfter blank s := by
  have hspace : isBlank ' ' := by decide
  induction s generalizing c blank with
  | nil => cases blank <;> simp [words, hc, hspace, wordsAfter, join]
  | cons d s ih =>
    by_cases hd : isBlank d
    · have hafter : wordsAfter blank (d :: s) = wordsAfter true s := by rw [wordsAfter, if_pos hd]
      rw [hafter, ← ih hc true]
      cases blank
      · simp [words_cons_cons_of_blank hc, hspace, hd]
      · simp [words_cons_cons_of_blank hc, hspace, words_cons_of_blank hd]
    · have hafter : wordsAfter blank (d :: s) =
          (if blank then [' '] else []) ++ d :: wordsAfter false s := by rw [wordsAfter, if_neg hd]
      have hrest : join [' '] (words (d :: s)) = d :: wordsAfter false s :=
        ih (by simpa using hd) false
      rw [hafter]
      cases blank
      · have hwords : words (c :: d :: s) = consFirst c (words (d :: s)) := by
          rw [words, if_neg (by simp [hc]), if_neg hd]
        simp [hwords, join_consFirst, hrest]
      · have hwords : words (c :: ' ' :: d :: s) = [c] :: words (d :: s) :=
          words_cons_cons_of_blank hc hspace _
        generalize words (d :: s) = ws at hrest hwords
        rcases ws with _ | ⟨w, ws⟩
        · simp [join] at hrest
        · simp only [if_true, List.singleton_append, hwords, ← hrest]
          rfl

/-- What a character leaves written, the last character first: a comma brings a space. -/
def writtenWith (c : Char) (out : List Char) : List Char :=
  if c = ',' then ' ' :: c :: out else c :: out

theorem normalizeFrom_cons (hc : c ≠ ' ') (out : List Char) (skip : Bool) (s : List Char) :
    normalizeFrom out skip (c :: s) =
      normalizeFrom (writtenWith c (if closesUp c then out.dropWhile (· == ' ') else out))
        (opensUp c) s := by
  rw [normalizeFrom, writtenWith]
  split_ifs with h₁ h₂ h₃ h₄ <;> simp_all [closesUp, opensUp]

/-- One more character behind `c` and the white space after it: all that is written since `c` is the
space between the two. -/
theorem normalizeFrom_writtenWith (hc : c ≠ ' ') (hd : d ≠ ' ') (out : List Char) (blank : Bool)
    (s : List Char) :
    normalizeFrom (writtenWith c out) (opensUp c) ((if blank then [' '] else []) ++ d :: s) =
      normalizeFrom (writtenWith d (spacing c blank d ++ c :: out)) (opensUp d) s := by
  have hdrop : (c :: out).dropWhile (· == ' ') = c :: out := dropWhile_space (by simpa using hc)
  have hdrop' : (' ' :: c :: out).dropWhile (· == ' ') = c :: out := by
    rw [List.dropWhile_cons_of_pos rfl, hdrop]
  have hspace : normalizeFrom (writtenWith c out) (opensUp c) (' ' :: d :: s) =
      normalizeFrom (if opensUp c then writtenWith c out else ' ' :: writtenWith c out)
        (opensUp c) (d :: s) := by
    rw [normalizeFrom]
    by_cases h : opensUp c <;> simp [h]
  have hpassed : normalizeFrom (writtenWith c out) (opensUp c)
      ((if blank then [' '] else []) ++ d :: s) =
        normalizeFrom (if blank && !opensUp c then ' ' :: writtenWith c out else writtenWith c out)
          (opensUp c) (d :: s) := by
    cases blank
    · rfl
    · rw [if_pos rfl, List.singleton_append, hspace]
      by_cases h : opensUp c <;> simp [h]
  rw [hpassed, normalizeFrom_cons hd]
  congr 2
  by_cases hcomma : c = ','
  · subst hcomma
    by_cases hclose : closesUp d <;> simp [spacing, hclose, writtenWith, opensUp, hdrop']
  · by_cases hclose : closesUp d
    · simp only [spacing, writtenWith, if_pos hclose, if_neg hcomma]
      split_ifs
      · exact hdrop'
      · exact hdrop
    · simp only [spacing, writtenWith, if_neg hclose, if_neg hcomma]
      split_ifs <;> rfl

theorem normalizeFrom_wordsAfter (hc : isBlank c = false) (out : List Char) (blank : Bool)
    (s : List Char) :
    normalizeFrom (writtenWith c out) (opensUp c) (wordsAfter blank s) =
      out.reverse ++ c :: spacedFrom c blank s := by
  have hne {c : Char} (hc : isBlank c = false) : c ≠ ' ' := by
    rintro rfl
    exact absurd hc (by decide)
  induction s generalizing c out blank with
  | nil =>
    rw [wordsAfter, normalizeFrom, spacedFrom, writtenWith]
    split_ifs <;> simp
  | cons d s ih =>
    rw [wordsAfter, spacedFrom]
    by_cases hd : isBlank d
    · rw [if_pos hd, if_pos hd, ih hc]
    · have hreverse : (spacing c blank d).reverse = spacing c blank d := by
        unfold spacing
        split_ifs <;> rfl
      have hd' : isBlank d = false := by simpa using hd
      rw [if_neg hd, if_neg hd, normalizeFrom_writtenWith (hne hc) (hne hd'), ih hd']
      simp [hreverse]

/-- The normal layout of a text keeps its characters that are no white space, with the spaces
between them that `spacing` says. -/
theorem normalizeType_cons (hc : isBlank c = false) (s : List Char) :
    normalizeType (c :: s) = c :: spacedFrom c false s := by
  have hne : c ≠ ' ' := by
    rintro rfl
    exact absurd hc (by decide)
  have hwords := join_words_cons hc false s
  rw [if_neg (by decide), List.nil_append] at hwords
  have hwritten := normalizeFrom_wordsAfter hc [] false s
  rw [normalizeType, hwords, normalizeFrom_cons hne]
  simpa using hwritten

theorem filter_spacedFrom (c : Char) (blank : Bool) (s : List Char) :
    (spacedFrom c blank s).filter (!isBlank ·) = s.filter (!isBlank ·) := by
  have hspace : isBlank ' ' := by decide
  induction s generalizing c blank with
  | nil =>
    rw [spacedFrom]
    split_ifs <;> simp [hspace]
  | cons d s ih =>
    have hspacing : (spacing c blank d).filter (!isBlank ·) = [] := by
      unfold spacing
      split_ifs <;> simp [hspace]
    rw [spacedFrom]
    split_ifs with hd
    · rw [ih, List.filter_cons_of_neg (by simp [hd])]
    · rw [List.filter_append, hspacing, List.nil_append, List.filter_cons, ih, List.filter_cons]

/-- The normal layout of a text changes blanks only. -/
theorem filter_normalizeType (s : List Char) :
    (normalizeType s).filter (!isBlank ·) = s.filter (!isBlank ·) := by
  induction s with
  | nil => rfl
  | cons c s ih =>
    by_cases hc : isBlank c
    · rw [normalizeType, words_cons_of_blank hc, ← normalizeType, ih,
        List.filter_cons_of_neg (by simp [hc])]
    · rw [normalizeType_cons (by simpa using hc), List.filter_cons, filter_spacedFrom,
        List.filter_cons]

theorem spacedFrom_append_of_blank (hgap : ∀ c ∈ gap, isBlank c) (c : Char) (blank : Bool)
    (s : List Char) : spacedFrom c blank (gap ++ s) = spacedFrom c (blank || !gap.isEmpty) s := by
  induction gap generalizing blank with
  | nil => simp
  | cons d gap ih =>
    obtain ⟨hd, hgap⟩ := List.forall_mem_cons.1 hgap
    rw [List.cons_append, spacedFrom, if_pos hd, ih hgap]
    simp

/-- A text without white space, in which nothing closes up, is left as it is. -/
theorem spacedFrom_append (hc : c = ',' → s = [])
    (hs : ∀ d ∈ s, isBlank d = false ∧ closesUp d = false) (rest : List Char) :
    spacedFrom c false (s ++ rest) =
      s ++ spacedFrom ((c :: s).getLast (List.cons_ne_nil c s)) false rest := by
  induction s generalizing c with
  | nil => rfl
  | cons d s ih =>
    obtain ⟨⟨hblank, hclose⟩, hs⟩ := List.forall_mem_cons.1 hs
    have hcomma : c ≠ ',' := fun h => List.cons_ne_nil d s (hc h)
    have hd : d ≠ ',' := by
      rintro rfl
      exact absurd hclose (by decide)
    rw [List.cons_append, spacedFrom, if_neg (by simp [hblank]), spacing,
      if_neg (by simp [hclose]), if_neg hcomma, if_neg (by simp), ih (fun h => absurd h hd) hs]
    simp

end Companion.Java
