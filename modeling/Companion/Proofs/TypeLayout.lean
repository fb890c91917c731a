import Companion.Proofs.SourceSyntax
import Mathlib.Data.List.Chain
import Mathlib.Tactic.ByContra

/-!
# Types as they are written

A text that is laid out with single spaces, none of them inside of brackets, and with one after each
comma is its own normal layout (`normalizeType_eq`). Such texts stay so when they are put together
(`Laid.append`).
-/

namespace Companion.Java.Syntax

open Text
open Unicode (isBlank isWordChar)

variable {s t rest : List Char} {c : Char}

theorem toNat_lt_of_isLetterOrDigit (h : isLetterOrDigit c) : c.toNat < 0x80 := by
  simp only [isLetterOrDigit, Bool.or_eq_true, beq_iff_eq] at h
  rcases h with h | rfl
  · exact Unicode.toNat_lt_of_isAlphanum h
  · decide

/-- What holds of the letters and digits among the first characters holds of all. -/
theorem forall_isLetterOrDigit {p : Char → Prop}
    (h : ∀ n < 0x80, isLetterOrDigit (Char.ofNat n) → p (Char.ofNat n)) (hc : isLetterOrDigit c) :
    p c := by
  have hp := h c.toNat (toNat_lt_of_isLetterOrDigit hc)
  rw [Char.ofNat_toNat] at hp
  exact hp hc

theorem isWordChar_of_isLetterOrDigit (h : isLetterOrDigit c) : isWordChar c :=
  forall_isLetterOrDigit (p := fun c => isWordChar c) (by decide) h

theorem isIdentChar_of_isLetterOrDigit (h : isLetterOrDigit c) : isIdentChar c :=
  forall_isLetterOrDigit (p := fun c => isIdentChar c) (by decide) h

theorem isBlank_of_isLetterOrDigit (h : isLetterOrDigit c) : isBlank c = false :=
  forall_isLetterOrDigit (p := fun c => isBlank c = false) (by decide) h

theorem isLetterOrDigit_of_isLetter (h : isLetter c) : isLetterOrDigit c := by
  simp only [isLetter, Bool.or_eq_true] at h
  simp only [isLetterOrDigit, Char.isAlphanum, Bool.or_eq_true]
  exact h.imp_left .inl

/-- The two characters may follow each other in a normal layout. -/
def Fits (c d : Char) : Prop :=
  (c = ',' → d = ' ') ∧ (d = ' ' → c ∉ ['<', '[', ' ']) ∧ (c = ' ' → d ∉ [',', '<', '[', '>', ']'])

instance (c d : Char) : Decidable (Fits c d) :=
  inferInstanceAs (Decidable (_ ∧ _ ∧ _))

/-- A layout starts so. -/
def opensLayout (c : Char) : Bool :=
  isLetter c || c == '?'

/-- A layout ends so. -/
def closesLayout (c : Char) : Bool :=
  isLetterOrDigit c || ['>', ']', '?', '.'].contains c

/-- The text is in normal layout. -/
structure Laid (s : List Char) : Prop where
  chain : s.IsChain Fits
  blank : ∀ c ∈ s, isBlank c → c = ' '
  ne : s ≠ []
  first : ∀ c ∈ s.head?, opensLayout c
  last : ∀ c ∈ s.getLast?, closesLayout c

theorem isLetterOrDigit_cases (h : isLetterOrDigit c) :
    c ∉ [',', '<', '[', '>', ']', ' ', '?', '.'] :=
  forall_isLetterOrDigit (p := fun c => c ∉ [',', '<', '[', '>', ']', ' ', '?', '.']) (by decide) h

theorem not_mem_of_opensLayout (h : opensLayout c) : c ∉ [',', '<', '[', '>', ']', ' '] := by
  simp only [opensLayout, Bool.or_eq_true, beq_iff_eq] at h
  rcases h with h | rfl
  · have := isLetterOrDigit_cases (isLetterOrDigit_of_isLetter h)
    simp only [List.mem_cons, not_or] at this ⊢
    simp [this]
  · decide

theorem not_mem_of_closesLayout (h : closesLayout c) : c ∉ [',', '<', '[', ' '] := by
  simp only [closesLayout, Bool.or_eq_true] at h
  rcases h with h | h
  · have := isLetterOrDigit_cases h
    simp only [List.mem_cons, not_or] at this ⊢
    simp [this]
  · rw [List.contains_iff_mem] at h
    simp only [List.mem_cons, List.not_mem_nil, or_false] at h
    rcases h with rfl | rfl | rfl | rfl <;> decide

/-- A letter, digit or closing bracket fits before all that may stand in a layout. -/
theorem fits_of_closesLayout (h : closesLayout c) (d : Char) : Fits c d := by
  have := not_mem_of_closesLayout h
  simp only [List.mem_cons, List.not_mem_nil, or_false, not_or] at this
  exact ⟨fun hc => absurd hc this.1, fun _ => by simp [this], fun hc => absurd hc this.2.2.2⟩

theorem fits_of_opensLayout {d : Char} (hc : c ≠ ',') (h : opensLayout d) : Fits c d := by
  have := not_mem_of_opensLayout h
  simp only [List.mem_cons, List.not_mem_nil, or_false, not_or] at this
  exact ⟨fun he => absurd he hc, fun he => absurd he this.2.2.2.2.2, fun _ => by simp [this]⟩

/-- What may stand between two texts in normal layout. -/
structure Joins (sep : List Char) : Prop where
  chain : sep.IsChain Fits
  blank : ∀ c ∈ sep, isBlank c → c = ' '
  last : ∀ c ∈ sep.getLast?, c ≠ ','

theorem Laid.append {sep : List Char} (hs : Laid s) (hsep : Joins sep) (ht : Laid t) :
    Laid (s ++ (sep ++ t)) where
  chain := by
    refine hs.chain.append (hsep.chain.append ht.chain fun c hc d hd => ?_) fun c hc d _ => ?_
    · exact fits_of_opensLayout (hsep.last c hc) (ht.first d hd)
    · exact fits_of_closesLayout (hs.last c hc) d
  blank c hc := by
    rcases List.mem_append.1 hc with hc | hc
    · exact hs.blank c hc
    · rcases List.mem_append.1 hc with hc | hc
      · exact hsep.blank c hc
      · exact ht.blank c hc
  ne := by simp [hs.ne]
  first c hc := by
    rw [List.head?_append_of_ne_nil _ hs.ne] at hc
    exact hs.first c hc
  last c hc := by
    rw [List.getLast?_append_of_ne_nil _ (by simp [ht.ne]), List.getLast?_append_of_ne_nil _ ht.ne]
      at hc
    exact ht.last c hc

/-- What may stand behind a text in normal layout. -/
theorem Laid.append_end {e : List Char} (hs : Laid s) (hchain : e.IsChain Fits)
    (hblank : ∀ c ∈ e, isBlank c → c = ' ') (hlast : ∀ c ∈ e.getLast?, closesLayout c) :
    Laid (s ++ e) where
  chain := hs.chain.append hchain fun c hc d _ => fits_of_closesLayout (hs.last c hc) d
  blank c hc := by
    rcases List.mem_append.1 hc with hc | hc
    · exact hs.blank c hc
    · exact hblank c hc
  ne := by simp [hs.ne]
  first c hc := by
    rw [List.head?_append_of_ne_nil _ hs.ne] at hc
    exact hs.first c hc
  last c hc := by
    rcases e with _ | ⟨d, e⟩
    · rw [List.append_nil] at hc
      exact hs.last c hc
    · rw [List.getLast?_append_of_ne_nil _ (List.cons_ne_nil d e)] at hc
      exact hlast c hc

theorem isChain_of_letters (hs : ∀ c ∈ s, isLetterOrDigit c) : s.IsChain Fits := by
  induction s with
  | nil => exact List.isChain_nil
  | cons c s ih =>
    refine List.isChain_cons.2 ⟨fun d _ => ?_, ih fun d hd => hs d (List.mem_cons_of_mem _ hd)⟩
    exact fits_of_closesLayout (by simp [closesLayout, hs c List.mem_cons_self]) d

theorem laid_word (hne : s ≠ []) (hfirst : ∀ c ∈ s.head?, isLetter c)
    (hs : ∀ c ∈ s, isLetterOrDigit c) : Laid s where
  chain := isChain_of_letters hs
  blank c hc h := by
    rw [isBlank_of_isLetterOrDigit (hs c hc)] at h
    exact absurd h (by decide)
  ne := hne
  first c hc := by simp [opensLayout, hfirst c hc]
  last c hc := by simp [closesLayout, hs c (List.mem_of_getLast? hc)]

theorem isBlank_of_opensLayout (h : opensLayout c) : isBlank c = false := by
  simp only [opensLayout, Bool.or_eq_true, beq_iff_eq] at h
  rcases h with h | rfl
  · exact isBlank_of_isLetterOrDigit (isLetterOrDigit_of_isLetter h)
  · decide

theorem isBlank_of_closesLayout (h : closesLayout c) : isBlank c = false := by
  simp only [closesLayout, Bool.or_eq_true] at h
  rcases h with h | h
  · exact isBlank_of_isLetterOrDigit h
  · rw [List.contains_iff_mem] at h
    simp only [List.mem_cons, List.not_mem_nil, or_false] at h
    rcases h with rfl | rfl | rfl | rfl <;> decide

theorem join_consFirst (c : Char) (ps : List (List Char)) :
    join [' '] (consFirst c ps) = c :: join [' '] ps := by
  rcases ps with _ | ⟨p, _ | ⟨q, ps⟩⟩ <;> rfl

/-- In normal layout there is one space between two words, so the words make up the text again. -/
theorem join_words (hchain : s.IsChain Fits) (hblank : ∀ c ∈ s, isBlank c → c = ' ')
    (hlast : ∀ c ∈ s.getLast?, isBlank c = false) : join [' '] (words s) = trimStart s := by
  have hspace : isBlank ' ' := by decide
  fun_induction words s with
  | case1 => rfl
  | case2 c hc => simp [trimStart, hc, join]
  | case3 c hc => simp [trimStart, hc, join]
  | case4 c d cs hc ih =>
    rw [ih (List.isChain_cons_cons.1 hchain).2 (fun x hx => hblank x (List.mem_cons_of_mem _ hx))
      (by simpa using hlast), trimStart, trimStart, List.dropWhile_cons_of_pos hc]
  | case5 c d cs hc hd ih =>
    obtain rfl := hblank d (by simp) hd
    obtain ⟨e, es, rfl⟩ : ∃ e es, cs = e :: es := by
      rcases cs with _ | ⟨e, es⟩
      · simp [hspace] at hlast
      · exact ⟨e, es, rfl⟩
    have he : isBlank e = false := by
      by_contra h
      have hfits := (List.isChain_cons_cons.1 (List.isChain_cons_cons.1 hchain).2).1
      exact hfits.2.1 (hblank e (by simp) (by simpa using h)) (by simp)
    have htrim : trimStart (' ' :: e :: es) = e :: es := by
      rw [trimStart, List.dropWhile_cons_of_pos hspace, List.dropWhile_cons_of_neg (by simp [he])]
    have hwords := ih (List.isChain_cons_cons.1 hchain).2
      (fun x hx => hblank x (List.mem_cons_of_mem _ hx)) (by simpa using hlast)
    rw [htrim] at hwords
    rw [trimStart, List.dropWhile_cons_of_neg hc]
    generalize words (' ' :: e :: es) = ws at hwords ⊢
    rcases ws with _ | ⟨w, ws⟩
    · simp [join] at hwords
    · rw [← hwords]
      rfl
  | case6 c d cs hc hd ih =>
    have hwords := ih (List.isChain_cons_cons.1 hchain).2
      (fun x hx => hblank x (List.mem_cons_of_mem _ hx)) (by simpa using hlast)
    rw [trimStart, List.dropWhile_cons_of_neg hd] at hwords
    rw [join_consFirst, hwords, trimStart, List.dropWhile_cons_of_neg hc]

/-- No space, comma or bracket follows a space in normal layout. -/
theorem Fits.ne_of_space (h : Fits ' ' c) : c ∉ [',', '<', '[', '>', ']', ' '] := by
  have h₁ := h.2.2 rfl
  have h₂ : c ≠ ' ' := fun hc => h.2.1 hc (by simp)
  simp only [List.mem_cons, List.not_mem_nil, or_false, not_or] at h₁ ⊢
  simp [h₁, h₂]

theorem dropWhile_space {out : List Char} (h : out.head? ≠ some ' ') :
    out.dropWhile (· == ' ') = out := by
  rcases out with _ | ⟨d, out⟩
  · rfl
  · rw [List.dropWhile_cons_of_neg]
    simpa using h

/-- Nothing is changed in a text whose characters fit, but for the space that was written with the
comma before it. -/
theorem normalizeFrom_eq {out : List Char} {skip : Bool} (hchain : s.IsChain Fits)
    (hcomma : s.getLast? ≠ some ',')
    (hout : out.head? = some ' ' → ∀ c ∈ s.head?, c ∉ [',', '<', '[', '>', ']'] ∧ (c = ' ' → skip)) :
    normalizeFrom out skip s = out.reverse ++ if skip then s.dropWhile (· == ' ') else s := by
  induction s generalizing out skip with
  | nil => simp [normalizeFrom]
  | cons c s ih =>
    obtain ⟨hfits, htail⟩ := List.isChain_cons.1 hchain
    have hlast : s.getLast? ≠ some ',' := by
      rcases s with _ | ⟨d, s⟩
      · simp
      · simpa using hcomma
    have hdrop (h : c ∈ [',', '<', '[', '>', ']']) : out.dropWhile (· == ' ') = out :=
      dropWhile_space fun hspace => (hout hspace c rfl).1 h
    have hpush (h : c ∈ ['<', '[', '>', ']']) : (c :: out).head? ≠ some ' ' := by
      rintro ⟨⟩
      simp at h
    obtain ⟨kept, hkept⟩ : ∃ kept, (if skip then (c :: s).dropWhile (· == ' ') else c :: s) = kept :=
      ⟨_, rfl⟩
    have hkeep (h : c ≠ ' ') : kept = c :: s := by
      rw [← hkept, List.dropWhile_cons_of_neg (by simpa using h), ite_self]
    rw [hkept]
    unfold normalizeFrom
    split_ifs with h₁ h₂ h₃ h₄
    · subst h₁
      rw [hdrop (by simp), ih htail hlast fun _ x hx => by simp [(hfits x hx).1 rfl],
        if_pos rfl, hkeep (by simp)]
      rcases s with _ | ⟨d, s⟩
      · simp at hcomma
      · obtain rfl := (hfits d rfl).1 rfl
        have hd : s.dropWhile (· == ' ') = s :=
          dropWhile_space fun h => ((List.isChain_cons.1 htail).1 ' ' h).ne_of_space (by simp)
        rw [List.dropWhile_cons_of_pos rfl, hd]
        simp
    · have hmem : c ∈ ['<', '[', '>', ']'] := by rcases h₂ with rfl | rfl <;> simp
      have hs : s.dropWhile (· == ' ') = s := dropWhile_space fun h => by
        have := (hfits ' ' h).2.1 rfl
        rcases h₂ with rfl | rfl <;> simp at this
      rw [hdrop (List.mem_cons_of_mem _ hmem), ih htail hlast fun h => absurd h (hpush hmem),
        if_pos rfl, hkeep (by rcases h₂ with rfl | rfl <;> simp), hs]
      simp
    · have hmem : c ∈ ['<', '[', '>', ']'] := by rcases h₃ with rfl | rfl <;> simp
      rw [hdrop (List.mem_cons_of_mem _ hmem), ih htail hlast fun h => absurd h (hpush hmem),
        hkeep (by rcases h₃ with rfl | rfl <;> simp)]
      simp
    · obtain ⟨rfl, rfl⟩ := h₄
      rw [ih htail hlast fun _ x hx => ?_, ← hkept, if_pos rfl, if_pos rfl,
        List.dropWhile_cons_of_pos rfl]
      have hx := (hfits x hx).ne_of_space
      simp only [List.mem_cons, List.not_mem_nil, or_false, not_or] at hx ⊢
      simp [hx]
    · have hkeep' : kept = c :: s := by
        by_cases hc : c = ' '
        · rw [← hkept, if_neg fun hskip => h₄ ⟨hc, hskip⟩]
        · exact hkeep hc
      rw [ih htail hlast fun hc x hx => ?_, hkeep']
      · simp
      · obtain rfl : c = ' ' := by simpa using hc
        have hx := (hfits x hx).ne_of_space
        simp only [List.mem_cons, List.not_mem_nil, or_false, not_or] at hx ⊢
        simp [hx]

theorem normalizeType_eq (h : Laid s) : normalizeType s = s := by
  have hwords : join [' '] (words s) = s := by
    rw [join_words h.chain h.blank fun c hc => isBlank_of_closesLayout (h.last c hc)]
    rcases s with _ | ⟨c, s⟩
    · rfl
    · rw [trimStart, List.dropWhile_cons_of_neg]
      simp [isBlank_of_opensLayout (h.first c rfl)]
  rw [normalizeType, hwords, normalizeFrom_eq h.chain ?_ (by simp)]
  · rfl
  · intro hc
    exact not_mem_of_closesLayout (h.last ',' hc) (by simp)

end Companion.Java.Syntax
