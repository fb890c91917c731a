import Companion.Proofs.ParameterLayout

/-!
# Annotations of parameters

The arguments of an annotation are dropped up to their first closing bracket. So annotations leave
no trace if no bracket stands inside of their arguments, and only then
(`parameters_of_annotations`): with every match at least as many brackets are opened as are closed,
and more where brackets are nested, so that a closing bracket stays behind.
-/

namespace Companion.Java

open Syntax (Bracketed IsOuter OnePiece bracketed_of_forall commaPieces_append
  commaPieces_balanced consText onePiece_nil onePiece_of_blank onePiece_of_forall
  splitTopLevel_join unangled_isOuter)
open Text
open Unicode (isBlank)

/-- An annotation and the white space behind it. The name is simple or qualified; the brackets match
in the arguments, if there are any. -/
structure AnnotationUse where
  name : List Char
  ne : name ≠ []
  chars : ∀ c ∈ name, isAnnotationChar c
  /-- White space, and what stands between the brackets behind it. -/
  arguments : Option (Blanks × List Char)
  balanced : ∀ a ∈ arguments, Balanced '(' ')' 0 a.2
  gap : Blanks

theorem Blanks.not_name (g : Blanks) : ∀ c ∈ g.text, isAnnotationChar c = false := by
  intro c hc
  have hword := Unicode.isWordChar_of_isBlank (g.blank c hc)
  have hdot : c ≠ '.' ∧ c ≠ '$' := by
    constructor <;>
    · rintro rfl
      exact absurd (g.blank _ hc) (by decide)
  simp [isAnnotationChar, hword, hdot]

namespace AnnotationUse

def argumentsText : Option (Blanks × List Char) → List Char
  | none => []
  | some (g, s) => g.text ++ '(' :: (s ++ [')'])

def text (a : AnnotationUse) : List Char :=
  '@' :: (a.name ++ (argumentsText a.arguments ++ a.gap.text))

def Flat (a : AnnotationUse) : Prop :=
  ∀ s ∈ a.arguments, '(' ∉ s.2

def Angled (a : AnnotationUse) : Prop :=
  ∀ s ∈ a.arguments, Balanced '<' '>' 0 s.2

/-- A word may follow. -/
def Closed (a : AnnotationUse) : Prop :=
  a.arguments ≠ none ∨ a.gap.text ≠ []

end AnnotationUse

/-- The modifier `final`, with the white space behind it, and annotations that may stand between it
and the type. -/
structure Modifier where
  gap : Blanks
  annotations : List AnnotationUse
  parted : annotations = [] → gap.text ≠ []
  closed : ∀ a ∈ annotations.getLast?, a.Closed
  /-- The white space behind the modifier without annotations. -/
  space : Blanks
  ne : space.text ≠ []

structure Annotated where
  lead : Blanks
  annotations : List AnnotationUse
  closed : ∀ a ∈ annotations.getLast?, a.Closed
  modifier : Option Modifier
  rest : List Char
  trail : Blanks
  ne : rest ≠ []
  outer : Bracketed IsOuter rest
  plain : ∀ c ∈ rest, c ∉ ['(', ')', '@']
  first : ∀ c ∈ rest.head?, isBlank c = false
  last : ∀ c ∈ rest.getLast?, isBlank c = false

def annotationsText (as : List AnnotationUse) : List Char :=
  as.flatMap AnnotationUse.text

def Modifier.text (m : Modifier) : List Char :=
  "final".toList ++ (m.gap.text ++ annotationsText m.annotations)

def Modifier.bare (m : Modifier) : Modifier where
  gap := m.space
  annotations := []
  parted _ := m.ne
  closed := by simp
  space := m.space
  ne := m.ne

namespace Annotated

def all (p : Annotated) : List AnnotationUse :=
  p.annotations ++ p.modifier.elim [] Modifier.annotations

def bare (p : Annotated) : Annotated :=
  { p with
    annotations := []
    closed := by simp
    modifier := p.modifier.map Modifier.bare }

def core (p : Annotated) : List Char :=
  annotationsText p.annotations ++ (p.modifier.elim [] Modifier.text ++ p.rest)

def text (p : Annotated) : List Char :=
  p.lead.text ++ (p.core ++ p.trail.text)

end Annotated

variable {s t : List Char} {a : AnnotationUse} {as : List AnnotationUse} {c : Char}

/-- How many more brackets the text closes than it opens. -/
def surplus (s : List Char) : Int :=
  s.count ')' - s.count '('

theorem surplus_append (s t : List Char) : surplus (s ++ t) = surplus s + surplus t := by
  simp only [surplus, List.count_append]
  omega

theorem surplus_cons (c : Char) (s : List Char) : surplus (c :: s) = surplus [c] + surplus s :=
  surplus_append [c] s

theorem surplus_open (s : List Char) : surplus ('(' :: s) = surplus s - 1 := by
  rw [surplus_cons, show surplus ['('] = -1 by decide]
  omega

theorem surplus_close (s : List Char) : surplus (')' :: s) = surplus s + 1 := by
  rw [surplus_cons, show surplus [')'] = 1 by decide]
  omega

theorem surplus_of_not_mem_close (h : ')' ∉ s) : surplus s = -s.count '(' := by
  rw [surplus, List.count_eq_zero_of_not_mem h]
  omega

theorem surplus_of_not_mem (ho : '(' ∉ s) (hc : ')' ∉ s) : surplus s = 0 := by
  rw [surplus_of_not_mem_close hc, List.count_eq_zero_of_not_mem ho]
  rfl

theorem surplus_of_blank (h : ∀ c ∈ s, isBlank c) : surplus s = 0 :=
  surplus_of_not_mem (fun hc => absurd (h _ hc) (by decide)) fun hc => absurd (h _ hc) (by decide)

theorem surplus_of_isAnnotationChar (h : ∀ c ∈ s, isAnnotationChar c) : surplus s = 0 :=
  surplus_of_not_mem (fun hc => absurd (h _ hc) (by decide)) fun hc => absurd (h _ hc) (by decide)

theorem Balanced.surplus_eq (h : Balanced '(' ')' 0 s) : surplus s = 0 := by
  have := h.settled
  rw [surplus]
  omega

theorem mem_of_surplus_pos (h : 0 < surplus s) : ')' ∈ s := by
  rw [← List.count_pos_iff]
  rw [surplus] at h
  omega

theorem not_mem_takeWhile_ne (x : Char) (s : List Char) : x ∉ s.takeWhile (· != x) := fun h => by
  simpa using List.mem_takeWhile_imp h

/-- With the arguments of an annotation at least as many brackets are opened as are closed. -/
theorem surplus_afterAnnotationArguments (s : List Char) :
    surplus s ≤ surplus (afterAnnotationArguments s) := by
  unfold afterAnnotationArguments
  split
  · rename_i rest hstart
    split
    · rename_i c after hafter
      have hs : s = s.takeWhile isBlank ++ '(' :: rest := by
        rw [← hstart]
        exact List.takeWhile_append_dropWhile.symm
      have hgap : surplus (s.takeWhile isBlank) = 0 :=
        surplus_of_blank fun c hc => List.mem_takeWhile_imp hc
      have hinside := surplus_of_not_mem_close (not_mem_takeWhile_ne ')' rest)
      have hrest : surplus rest =
          surplus (rest.takeWhile (· != ')')) + (surplus after + 1) := by
        conv_lhs => rw [eq_append_of_dropWhile_ne hafter]
        rw [surplus_append, surplus_close]
      rw [hs, surplus_append, hgap, surplus_open, hrest, hinside]
      omega
    · exact le_rfl
  · exact le_rfl

theorem surplus_dropAnnotations (s : List Char) : surplus s ≤ surplus (dropAnnotations s) := by
  induction s using dropAnnotations.induct with
  | case1 => rw [dropAnnotations]
  | case2 c s h ih =>
    have hname : surplus s = surplus (s.dropWhile isAnnotationChar) := by
      conv_lhs => rw [← List.takeWhile_append_dropWhile (p := isAnnotationChar) (l := s)]
      rw [surplus_append, surplus_of_isAnnotationChar fun c hc => List.mem_takeWhile_imp hc,
        zero_add]
    have hrest := surplus_afterAnnotationArguments (s.dropWhile isAnnotationChar)
    have hsigns : surplus ['@'] = 0 ∧ surplus [' '] = 0 := by decide
    rw [dropAnnotations, if_pos h, h.1, surplus_cons, surplus_cons ' ', hsigns.1, hsigns.2]
    omega
  | case3 c s h ih =>
    rw [dropAnnotations, if_neg h, surplus_cons, surplus_cons c (dropAnnotations s)]
    omega

/-! ## Dropping annotations -/

theorem dropAnnotations_append (hs : '@' ∉ s) (t : List Char) :
    dropAnnotations (s ++ t) = s ++ dropAnnotations t := by
  induction s with
  | nil => rfl
  | cons c s ih =>
    simp only [List.mem_cons, not_or] at hs
    rw [List.cons_append, dropAnnotations, if_neg fun hc => hs.1 hc.1.symm, ih hs.2]
    rfl

theorem dropAnnotations_blank (hg : ∀ c ∈ s, isBlank c) (t : List Char) :
    dropAnnotations (s ++ t) = s ++ dropAnnotations t :=
  dropAnnotations_append (fun h => absurd (hg _ h) (by decide)) t

namespace AnnotationUse

/-- What stays of the arguments: all behind their first closing bracket. -/
def left (a : AnnotationUse) : List Char :=
  match a.arguments with
  | none => []
  | some (_, s) => (s.dropWhile (· != ')') ++ [')']).tail

/-- The text may follow the annotation and the white space behind it. -/
structure Before (a : AnnotationUse) (t : List Char) : Prop where
  first : ∀ c ∈ t.head?, isBlank c = false ∧ c ≠ '('
  closed : a.Closed ∨ ∀ c ∈ t.head?, isAnnotationChar c = false

theorem afterAnnotationArguments_append (h : a.Before t) :
    afterAnnotationArguments (argumentsText a.arguments ++ (a.gap.text ++ t)) =
      a.left ++ (a.gap.text ++ t) := by
  unfold left
  rcases a.arguments with _ | ⟨g, s⟩
  · have hstart : trimStart (a.gap.text ++ t) = t :=
      trimStart_append_of_blank a.gap.blank fun c hc => (h.first c hc).1
    rw [argumentsText, List.nil_append, afterAnnotationArguments, hstart]
    split
    · exact absurd rfl (h.first '(' rfl).2
    · rfl
  · have hstart : trimStart (g.text ++ '(' :: (s ++ ')' :: (a.gap.text ++ t))) =
        '(' :: (s ++ ')' :: (a.gap.text ++ t)) :=
      trimStart_append_of_blank g.blank fun c hc => by
        obtain rfl : '(' = c := by simpa using hc
        decide
    have hargs : argumentsText (some (g, s)) ++ (a.gap.text ++ t) =
        g.text ++ '(' :: (s ++ ')' :: (a.gap.text ++ t)) := by simp [argumentsText]
    rw [hargs, afterAnnotationArguments, hstart]
    simp only [dropWhile_append_cons (· != ')') (x := ')') (by decide)]
    rcases s.dropWhile (· != ')') with _ | ⟨c, u⟩ <;> simp

/-- The name of an annotation ends where its arguments, white space or the text behind it start. -/
theorem head?_behind_name (h : a.Before t) :
    ∀ c ∈ (argumentsText a.arguments ++ (a.gap.text ++ t)).head?, isAnnotationChar c = false := by
  have hclosed : a.arguments = none → a.gap.text = [] → ∀ c ∈ t.head?, isAnnotationChar c = false :=
    fun hnone hnil => h.closed.resolve_left fun hclosed => hclosed.elim (· hnone) (· hnil)
  rcases harguments : a.arguments with _ | ⟨g, s⟩
  · have hgap := a.gap.not_name
    rcases hnil : a.gap.text with _ | ⟨d, s⟩
    · exact hclosed harguments hnil
    · rintro c ⟨⟩
      exact hgap d (by simp [hnil])
  · have hgap := g.not_name
    rcases hnil : g.text with _ | ⟨d, u⟩
    · rw [argumentsText, hnil]
      rintro c ⟨⟩
      decide
    · rw [argumentsText, hnil]
      rintro c ⟨⟩
      exact hgap d (by simp [hnil])

theorem dropAnnotations_text (h : a.Before t) :
    dropAnnotations (a.text ++ t) = ' ' :: dropAnnotations (a.left ++ (a.gap.text ++ t)) := by
  have htext : a.text ++ t =
      '@' :: (a.name ++ (argumentsText a.arguments ++ (a.gap.text ++ t))) := by simp [text]
  have hdrop : (a.name ++ (argumentsText a.arguments ++ (a.gap.text ++ t))).dropWhile
      isAnnotationChar = argumentsText a.arguments ++ (a.gap.text ++ t) := by
    rw [List.dropWhile_append_of_pos a.chars]
    have hstop := head?_behind_name h
    generalize argumentsText a.arguments ++ (a.gap.text ++ t) = r at hstop
    rcases r with _ | ⟨c, r⟩
    · rfl
    · exact List.dropWhile_cons_of_neg (by simp [hstop c rfl])
  have hname : (a.name ++ (argumentsText a.arguments ++ (a.gap.text ++ t))).head?.any
      isAnnotationChar := by
    obtain ⟨c, u, hu⟩ := List.exists_cons_of_ne_nil a.ne
    have := a.chars c (by simp [hu])
    simpa [hu] using this
  rw [htext, dropAnnotations, if_pos ⟨rfl, hname⟩, hdrop, afterAnnotationArguments_append h]

theorem left_eq_nil (h : a.Flat) : a.left = [] := by
  unfold left
  rcases harguments : a.arguments with _ | ⟨g, s⟩
  · rfl
  · have hopen : '(' ∉ s := h (g, s) harguments
    have hclose : ')' ∉ s := by
      have := (a.balanced (g, s) harguments).settled
      rw [List.count_eq_zero_of_not_mem hopen] at this
      exact List.count_eq_zero.1 this
    have hdrop : s.dropWhile (· != ')') = [] := List.dropWhile_eq_nil_iff.2 fun c hc => by
      rw [bne_iff_ne]
      rintro rfl
      exact hclose hc
    simp [hdrop]

/-- Of nested brackets more are left that close. -/
theorem surplus_left_pos (h : ¬a.Flat) : 0 < surplus a.left := by
  simp only [Flat, not_forall, not_not] at h
  obtain ⟨⟨g, s⟩, hs, hopen⟩ := h
  have harguments : a.arguments = some (g, s) := hs
  have hbalanced : Balanced '(' ')' 0 s := a.balanced _ hs
  have hclose : ')' ∈ s := by
    rw [← List.count_pos_iff, hbalanced.settled]
    exact List.count_pos_iff.2 hopen
  rcases hdrop : s.dropWhile (· != ')') with _ | ⟨c, v⟩
  · exact absurd (List.dropWhile_eq_nil_iff.1 hdrop ')' hclose) (by decide)
  · -- Up to the first closing bracket one is closed, so at least one was opened.
    have hsplit := eq_append_of_dropWhile_ne hdrop
    have hinside := not_mem_takeWhile_ne ')' s
    generalize s.takeWhile (· != ')') = u at hsplit hinside
    have hsane := hbalanced.sane (u ++ [')']) ⟨v, by simp [hsplit]⟩
    have hsurplus := hbalanced.surplus_eq
    have hleft : a.left = v ++ [')'] := by simp [left, harguments, hdrop]
    rw [hsplit, surplus_append, surplus_close, surplus_of_not_mem_close hinside] at hsurplus
    have hone : [')'].count ')' = 1 ∧ [')'].count '(' = 0 := by decide
    rw [List.count_append, List.count_append, hone.1, hone.2] at hsane
    rw [hleft, surplus_append, surplus_close, show surplus [] = 0 from rfl]
    omega

end AnnotationUse

theorem closed_of_cons (h : ∀ b ∈ (a :: as).getLast?, b.Closed) : ∀ b ∈ as.getLast?, b.Closed :=
  fun b hb => h b (by
    rw [List.getLast?_cons, hb]
    rfl)

/-- What follows the first annotation. -/
theorem before_annotations (hclosed : ∀ b ∈ (a :: as).getLast?, b.Closed)
    (ht : ∀ c ∈ t.head?, isBlank c = false ∧ c ≠ '(') : a.Before (annotationsText as ++ t) := by
  rcases as with _ | ⟨b, as⟩
  · exact ⟨ht, .inl (hclosed a rfl)⟩
  · refine ⟨?_, .inr ?_⟩ <;>
    · rintro c ⟨⟩
      decide

theorem annotationsText_cons (a : AnnotationUse) (as : List AnnotationUse) :
    annotationsText (a :: as) = a.text ++ annotationsText as :=
  List.flatMap_cons

theorem dropAnnotations_flat (h : a.Flat) (hbefore : a.Before t) :
    dropAnnotations (a.text ++ t) = ' ' :: (a.gap.text ++ dropAnnotations t) := by
  rw [AnnotationUse.dropAnnotations_text hbefore, AnnotationUse.left_eq_nil h, List.nil_append,
    dropAnnotations_blank a.gap.blank]

/-- Annotations without nested brackets leave white space. -/
theorem dropAnnotations_annotations (hclosed : ∀ b ∈ as.getLast?, b.Closed)
    (ht : ∀ c ∈ t.head?, isBlank c = false ∧ c ≠ '(') (h : ∀ b ∈ as, b.Flat) :
    ∃ g, (∀ c ∈ g, isBlank c) ∧ (as ≠ [] → g ≠ []) ∧
      dropAnnotations (annotationsText as ++ t) = g ++ dropAnnotations t := by
  induction as with
  | nil => exact ⟨[], by simp, by simp, rfl⟩
  | cons a as ih =>
    obtain ⟨ha, has⟩ := List.forall_mem_cons.1 h
    obtain ⟨g, hg, -, hrest⟩ := ih (closed_of_cons hclosed) has
    refine ⟨' ' :: (a.gap.text ++ g), ?_, by simp, ?_⟩
    · simp only [List.mem_cons, List.mem_append]
      rintro c (rfl | hc | hc)
      · decide
      · exact a.gap.blank c hc
      · exact hg c hc
    · rw [annotationsText_cons, List.append_assoc,
        dropAnnotations_flat ha (before_annotations hclosed ht), hrest]
      simp

theorem surplus_annotationsText (as : List AnnotationUse) : surplus (annotationsText as) = 0 := by
  induction as with
  | nil => rfl
  | cons a as ih =>
    have hat : surplus ['@'] = 0 := by decide
    have harguments : surplus (AnnotationUse.argumentsText a.arguments) = 0 := by
      rcases harguments : a.arguments with _ | ⟨g, s⟩
      · rfl
      · have hs : Balanced '(' ')' 0 s := a.balanced (g, s) harguments
        rw [AnnotationUse.argumentsText, surplus_append, surplus_of_blank g.blank, surplus_open,
          surplus_append, hs.surplus_eq]
        rfl
    rw [annotationsText_cons, surplus_append, ih, AnnotationUse.text, surplus_cons, hat,
      surplus_append, surplus_append, surplus_of_isAnnotationChar a.chars, harguments,
      surplus_of_blank a.gap.blank]
    rfl

/-- Of annotations with nested brackets a closing bracket is left. -/
theorem surplus_dropAnnotations_pos (hclosed : ∀ b ∈ as.getLast?, b.Closed)
    (ht : ∀ c ∈ t.head?, isBlank c = false ∧ c ≠ '(') (hsurplus : surplus t = 0)
    (h : ∃ b ∈ as, ¬b.Flat) : 0 < surplus (dropAnnotations (annotationsText as ++ t)) := by
  have hspace : surplus [' '] = 0 := by decide
  induction as with
  | nil => simp at h
  | cons a as ih =>
    have hbefore := before_annotations hclosed ht
    rw [annotationsText_cons, List.append_assoc]
    by_cases ha : a.Flat
    · have hrest := ih (closed_of_cons hclosed) (by simpa [ha] using h)
      rw [dropAnnotations_flat ha hbefore, surplus_cons, hspace, surplus_append,
        surplus_of_blank a.gap.blank]
      omega
    · have hleft := AnnotationUse.surplus_left_pos ha
      have hdrop := surplus_dropAnnotations (a.left ++ (a.gap.text ++ (annotationsText as ++ t)))
      rw [surplus_append, surplus_append, surplus_append, surplus_of_blank a.gap.blank,
        surplus_annotationsText, hsurplus] at hdrop
      rw [AnnotationUse.dropAnnotations_text hbefore, surplus_cons, hspace]
      omega

/-! ## Annotated parameters without their annotations -/

theorem words_final {g : List Char} (hg : ∀ c ∈ g, isBlank c) (hne : g ≠ []) (s : List Char) :
    words ("final".toList ++ (g ++ s)) = "final".toList :: words s := by
  obtain ⟨d, g, rfl⟩ := List.exists_cons_of_ne_nil hne
  obtain ⟨hd, hg⟩ := List.forall_mem_cons.1 hg
  have hlast : words ('l' :: d :: (g ++ s)) = ['l'] :: words s := by
    rw [words_cons_cons_of_blank (by decide) hd, words_append_of_blank hg]
  have hcons {c e : Char} (hc : isBlank c = false) (he : isBlank e = false) (r : List Char) :
      words (c :: e :: r) = consFirst c (words (e :: r)) := by
    rw [words, if_neg (by simp [hc]), if_neg (by simp [he])]
  have hfinal : "final".toList = ['f', 'i', 'n', 'a', 'l'] := by decide
  rw [hfinal]
  simp only [List.cons_append, List.nil_append]
  rw [hcons (by decide) (by decide), hcons (by decide) (by decide), hcons (by decide) (by decide),
    hcons (by decide) (by decide), hlast]
  rfl

theorem surplus_final : surplus "final".toList = 0 := by
  decide

theorem Modifier.dropAnnotations_text (m : Modifier) (t : List Char) :
    dropAnnotations (m.text ++ t) =
      "final".toList ++ (m.gap.text ++ dropAnnotations (annotationsText m.annotations ++ t)) := by
  have htext : m.text ++ t =
      "final".toList ++ (m.gap.text ++ (annotationsText m.annotations ++ t)) := by
    simp [Modifier.text]
  rw [htext, dropAnnotations_append (by decide), dropAnnotations_blank m.gap.blank]

namespace Annotated

variable (p : Annotated) {scope : List String}

theorem at_not_mem_rest : '@' ∉ p.rest := fun h => p.plain _ h (by decide)

theorem surplus_rest : surplus p.rest = 0 :=
  surplus_of_not_mem (fun h => p.plain _ h (by decide)) fun h => p.plain _ h (by decide)

theorem surplus_behind : surplus (p.modifier.elim [] Modifier.text ++ p.rest) = 0 := by
  rw [surplus_append, p.surplus_rest]
  cases p.modifier with
  | none => rfl
  | some m =>
    rw [Option.elim_some, Modifier.text, surplus_append, surplus_append, surplus_final,
      surplus_of_blank m.gap.blank, surplus_annotationsText]
    rfl

theorem first_rest : ∀ c ∈ p.rest.head?, isBlank c = false ∧ c ≠ '(' := by
  intro c hc
  refine ⟨p.first c hc, ?_⟩
  rintro rfl
  exact p.plain _ (List.mem_of_head? hc) (by decide)

theorem first_behind :
    ∀ c ∈ (p.modifier.elim [] Modifier.text ++ p.rest).head?, isBlank c = false ∧ c ≠ '(' := by
  cases p.modifier with
  | none => exact p.first_rest
  | some m =>
    rintro c ⟨⟩
    decide

/-- What is read of the parameter if no brackets are nested. -/
theorem words_core (h : ∀ a ∈ p.all, a.Flat) :
    words (dropAnnotations p.core) =
      p.modifier.elim [] (fun _ => ["final".toList]) ++ words p.rest := by
  obtain ⟨hann, hmod⟩ := List.forall_mem_append.1 h
  obtain ⟨g, hg, -, hcore⟩ := dropAnnotations_annotations p.closed p.first_behind hann
  have hrest : dropAnnotations p.rest = p.rest := Syntax.dropAnnotations_eq p.at_not_mem_rest
  rw [core, hcore, words_append_of_blank hg]
  cases hm : p.modifier with
  | none => simp [hrest]
  | some m =>
    rw [hm] at hmod
    obtain ⟨g', hg', hne, hdrop⟩ := dropAnnotations_annotations m.closed p.first_rest hmod
    have hgap : m.gap.text ++ g' ≠ [] := by
      rw [ne_eq, List.append_eq_nil_iff, not_and']
      intro hnil
      refine m.parted ?_
      by_contra h
      exact hne h hnil
    simp only [Option.elim_some]
    have hblank := List.forall_mem_append.2 ⟨m.gap.blank, hg'⟩
    rw [m.dropAnnotations_text, hdrop, hrest, ← List.append_assoc m.gap.text,
      words_final hblank hgap]
    rfl

/-- A closing bracket is left of nested ones. -/
theorem mem_core (h : ¬∀ a ∈ p.all, a.Flat) : ')' ∈ dropAnnotations p.core := by
  refine mem_of_surplus_pos ?_
  by_cases hann : ∀ a ∈ p.annotations, a.Flat
  · -- The annotations before the modifier leave white space, so the rest decides.
    have hmod : ¬∀ a ∈ p.modifier.elim [] Modifier.annotations, a.Flat := fun hmod =>
      h (List.forall_mem_append.2 ⟨hann, hmod⟩)
    obtain ⟨g, hg, -, hcore⟩ := dropAnnotations_annotations p.closed p.first_behind hann
    rw [core, hcore, surplus_append, surplus_of_blank hg, zero_add]
    cases hm : p.modifier with
    | none => simp [hm] at hmod
    | some m =>
      rw [hm] at hmod
      simp only [Option.elim_some, not_forall] at hmod
      obtain ⟨a, ha, hflat⟩ := hmod
      have hrest := surplus_dropAnnotations_pos m.closed p.first_rest p.surplus_rest
        ⟨a, ha, hflat⟩
      rw [Option.elim_some, m.dropAnnotations_text, surplus_append, surplus_append, surplus_final,
        surplus_of_blank m.gap.blank]
      omega
  · exact surplus_dropAnnotations_pos p.closed p.first_behind p.surplus_behind (by simpa using hann)

theorem flat_bare : ∀ a ∈ p.bare.all, a.Flat := by
  cases hm : p.modifier <;> simp [bare, all, hm, Modifier.bare]

theorem words_bare : words (dropAnnotations p.bare.core) =
    p.modifier.elim [] (fun _ => ["final".toList]) ++ words p.rest := by
  rw [p.bare.words_core p.flat_bare]
  cases hm : p.modifier <;> simp [bare, hm]

/-- Without annotations no bracket and no at sign stands in the parameter. -/
theorem not_mem_bare (hblank : isBlank c = false) (hc : c ∈ ['(', ')', '@']) :
    c ∉ p.bare.core := by
  have hfinal : ∀ d ∈ ['(', ')', '@'], d ∉ "final".toList := by decide
  have hgap (g : Blanks) : c ∉ g.text := fun h => by
    rw [g.blank c h] at hblank
    cases hblank
  have hrest : c ∉ p.rest := fun h => p.plain c h hc
  cases hm : p.modifier with
  | none => simpa [core, bare, annotationsText, hm] using hrest
  | some m =>
    rw [core, List.mem_append, List.mem_append, not_or, not_or]
    refine ⟨by simp [bare, annotationsText], ?_, hrest⟩
    rw [bare, hm, Option.map_some, Option.elim_some, Modifier.text, List.mem_append,
      List.mem_append, not_or, not_or]
    exact ⟨hfinal c hc, hgap _, by simp [Modifier.bare, annotationsText]⟩

/-- Annotations without nested brackets leave no trace. -/
theorem parameter?_core (h : ∀ a ∈ p.all, a.Flat) :
    parameter? scope p.core = parameter? scope p.bare.core := by
  rw [parameter?, parameter?, parameterLayout, parameterLayout, normalizeType, normalizeType,
    p.words_core h, p.words_bare]

end Annotated

/-- The layout of a parameter has its characters, but for white space and its modifier. -/
theorem mem_parameterLayout_iff (hblank : isBlank c = false) (hc : c ∉ "final ".toList) :
    c ∈ parameterLayout s ↔ c ∈ dropAnnotations s := by
  have hmem (s : List Char) : c ∈ s ↔ c ∈ s.filter (!isBlank ·) := by
    simp [List.mem_filter, hblank]
  have hlayout : c ∈ normalizeType (dropAnnotations s) ↔ c ∈ dropAnnotations s := by
    rw [hmem, filter_normalizeType, ← hmem]
  rw [← hlayout, parameterLayout]
  rcases hpiece : afterPiece? "final ".toList (normalizeType (dropAnnotations s)) with _ | r
  · rfl
  · rw [Option.getD_some, afterPiece?_eq_some_iff.1 hpiece, List.mem_append, or_iff_right hc]

/-- One parameter is read from two texts only if their layouts are the same. -/
theorem parameterLayout_eq {scope : List String} {q : Parameter}
    (hs : parameter? scope s = some q) (ht : parameter? scope t = some q) :
    parameterLayout s = parameterLayout t := by
  rw [parameter?, Option.map_eq_some_iff] at hs ht
  obtain ⟨⟨type, name⟩, hs, rfl⟩ := hs
  obtain ⟨⟨type', name'⟩, ht, h⟩ := ht
  obtain rfl : name' = name := String.ofList_injective (congrArg Parameter.name h)
  obtain rfl : type' = type := String.ofList_injective (congrArg (fun p => p.type.text) h)
  rw [eq_append_of_splitAtLastSpace? hs, eq_append_of_splitAtLastSpace? ht]

namespace Annotated

variable (p : Annotated) {scope : List String}

/-- Nested brackets leave a trace. -/
theorem flat_of_parameter? {q : Parameter} (h : parameter? scope p.core = some q)
    (hbare : parameter? scope p.bare.core = some q) : ∀ a ∈ p.all, a.Flat := by
  by_contra hflat
  have hmem := (mem_parameterLayout_iff (by decide) (by decide)).2 (p.mem_core hflat)
  rw [parameterLayout_eq h hbare, mem_parameterLayout_iff (by decide) (by decide),
    Syntax.dropAnnotations_eq (p.not_mem_bare (by decide) (by decide))] at hmem
  exact p.not_mem_bare (by decide) (by decide) hmem

end Annotated

/-! ## Lists of annotated parameters -/

/-- No comma counts in the arguments of an annotation. -/
theorem onePiece_round (hangle : Balanced '<' '>' 0 s) (hround : Balanced '(' ')' 0 s) :
    OnePiece ('(' :: (s ++ [')'])) := by
  intro rest
  have htext : '(' :: (s ++ [')']) ++ rest = '(' :: (s ++ ')' :: rest) := by simp
  have hinside : commaPieces (0 + 1) (s ++ ')' :: rest) =
      consText s (commaPieces (0 + 1) (')' :: rest)) := by
    simpa using commaPieces_balanced hangle hround (show (0 : Int) < 0 + 1 by omega) (')' :: rest)
  have hclose : commaPieces (0 + 1) (')' :: rest) = consFirst ')' (commaPieces 0 rest) := by
    rw [commaPieces, if_neg (by decide), if_neg (by decide), if_pos (by decide),
      Int.add_sub_cancel]
  rw [htext, commaPieces, if_neg (by decide), if_pos (by decide), hinside, hclose]
  simp [consText]

theorem AnnotationUse.onePiece (h : a.Angled) : OnePiece a.text := by
  have hname : OnePiece ('@' :: a.name) := onePiece_of_forall fun c hc hmem => by
    simp only [List.mem_cons, List.not_mem_nil, or_false] at hmem
    rcases List.mem_cons.1 hc with rfl | hc
    · revert hmem
      decide
    · have := a.chars c hc
      rcases hmem with rfl | rfl | rfl | rfl | rfl <;> exact absurd this (by decide)
  have harguments : OnePiece (argumentsText a.arguments) := by
    rcases hargs : a.arguments with _ | ⟨g, s⟩
    · exact onePiece_nil
    · exact (onePiece_of_blank g.blank).append
        (onePiece_round (h (g, s) hargs) (a.balanced (g, s) hargs))
  exact hname.append (harguments.append (onePiece_of_blank a.gap.blank))

theorem onePiece_annotationsText (h : ∀ a ∈ as, a.Angled) : OnePiece (annotationsText as) := by
  induction as with
  | nil => exact onePiece_nil
  | cons a as ih =>
    obtain ⟨ha, has⟩ := List.forall_mem_cons.1 h
    rw [annotationsText_cons]
    exact (AnnotationUse.onePiece ha).append (ih has)

namespace Annotated

variable (p : Annotated)

theorem onePiece (h : ∀ a ∈ p.all, a.Angled) : OnePiece p.text := by
  obtain ⟨hann, hmod⟩ := List.forall_mem_append.1 h
  have hmodifier : OnePiece (p.modifier.elim [] Modifier.text) := by
    cases hm : p.modifier with
    | none => exact onePiece_nil
    | some m =>
      rw [hm] at hmod
      exact (onePiece_of_forall (by decide)).append
        ((onePiece_of_blank m.gap.blank).append (onePiece_annotationsText hmod))
  have hrest : OnePiece p.rest := commaPieces_append p.outer unangled_isOuter (by simp [IsOuter])
    fun c hc => ⟨fun h => p.plain c hc (by simp [h]), fun h => p.plain c hc (by simp [h])⟩
  exact (onePiece_of_blank p.lead.blank).append (((onePiece_annotationsText hann).append
    (hmodifier.append hrest)).append (onePiece_of_blank p.trail.blank))

theorem core_ne_nil : p.core ≠ [] := by
  simp [core, p.ne]

theorem trim_text : trim p.text = p.core := by
  refine trim_between p.lead.blank p.trail.blank (fun c hc => ?_) fun c hc => ?_
  · rw [core] at hc
    rcases hann : p.annotations with _ | ⟨a, as⟩
    · rw [hann] at hc
      exact (p.first_behind c hc).1
    · rw [hann, annotationsText_cons, AnnotationUse.text] at hc
      obtain rfl : '@' = c := by simpa using hc
      decide
  · rw [core, List.getLast?_append_of_ne_nil _ (by simp [p.ne]),
      List.getLast?_append_of_ne_nil _ p.ne] at hc
    exact p.last c hc

theorem parameters_join {ps : List Annotated} (h : ∀ p ∈ ps, ∀ a ∈ p.all, a.Angled)
    (scope : List String) :
    parameters scope (join [','] (ps.map Annotated.text)) =
      ps.filterMap (parameter? scope ∘ Annotated.core) := by
  have hread : ∀ p ∈ ps, OnePiece p.text ∧ trim p.text = p.core ∧ p.core ≠ [] := fun p hp =>
    ⟨p.onePiece (h p hp), p.trim_text, p.core_ne_nil⟩
  have hjoin := Java.parameters_join hread scope .none .none
  exact (congrArg (parameters scope) (List.append_nil _).symm).trans hjoin

theorem parameters_bare (ps : List Annotated) (scope : List String) :
    parameters scope (join [','] (ps.map (·.bare.text))) =
      ps.filterMap fun p => parameter? scope p.bare.core := by
  have hbare : ∀ p ∈ ps.map bare, ∀ a ∈ p.all, a.Angled := by
    simp only [List.mem_map, forall_exists_index, and_imp, forall_apply_eq_imp_iff₂]
    intro p _
    cases hm : p.modifier <;> simp [bare, all, hm, Modifier.bare]
  have hjoin := parameters_join hbare scope
  rw [List.map_map, List.filterMap_map] at hjoin
  exact hjoin

end Annotated

/-- Lists that are read item by item are the same only if all items are read the same. -/
theorem forall_eq_of_filterMap_eq {α β : Type} {f g : α → Option β} {l : List α}
    (hg : ∀ x ∈ l, (g x).isSome) (h : l.filterMap f = l.filterMap g) : ∀ x ∈ l, f x = g x := by
  have hf : ∀ x ∈ l, (f x).isSome := by
    rwa [← List.filterMap_length_eq_length, h, List.filterMap_length_eq_length]
  induction l with
  | nil => simp
  | cons x l ih =>
    obtain ⟨hfx, hf⟩ := List.forall_mem_cons.1 hf
    obtain ⟨hgx, hg⟩ := List.forall_mem_cons.1 hg
    obtain ⟨y, hy⟩ := Option.isSome_iff_exists.1 hfx
    obtain ⟨z, hz⟩ := Option.isSome_iff_exists.1 hgx
    rw [List.filterMap_cons_some hy, List.filterMap_cons_some hz, List.cons.injEq] at h
    exact List.forall_mem_cons.2 ⟨by rw [hy, hz, h.1], ih hg h.2 hf⟩

/-- Annotations leave no trace if no brackets are nested in their arguments, and if all parameters
are read without them, only then. The angle brackets of the arguments must match too: these count
when a list is split at its commas. -/
theorem parameters_of_annotations (scope : List String) (ps : List Annotated)
    (h : ∀ p ∈ ps, ∀ a ∈ p.all, a.Angled) :
    ((∀ p ∈ ps, ∀ a ∈ p.all, a.Flat) →
      parameters scope (join [','] (ps.map Annotated.text)) =
        parameters scope (join [','] (ps.map (·.bare.text)))) ∧
      ((parameters scope (join [','] (ps.map (·.bare.text)))).length = ps.length →
        (parameters scope (join [','] (ps.map Annotated.text)) =
          parameters scope (join [','] (ps.map (·.bare.text))) ↔
            ∀ p ∈ ps, ∀ a ∈ p.all, a.Flat)) := by
  rw [Annotated.parameters_join h, Annotated.parameters_bare]
  have hflat (hall : ∀ p ∈ ps, ∀ a ∈ p.all, a.Flat) :
      ps.filterMap (parameter? scope ∘ Annotated.core) =
        ps.filterMap fun p => parameter? scope p.bare.core :=
    List.filterMap_congr fun p hp => p.parameter?_core (hall p hp)
  refine ⟨hflat, fun hlength => ⟨fun heq p hp => ?_, hflat⟩⟩
  have hbare := List.filterMap_length_eq_length.1 hlength
  obtain ⟨q, hq⟩ := Option.isSome_iff_exists.1 (hbare p hp)
  exact p.flat_of_parameter? ((forall_eq_of_filterMap_eq hbare heq p hp).trans hq) hq

def AnnotationUse.ofArguments (s : List Char) (h : Balanced '(' ')' 0 s) : AnnotationUse where
  name := ['A']
  ne := by decide
  chars := by decide
  arguments := some (.none, s)
  balanced a ha := by
    obtain rfl := Option.mem_some_iff.1 ha
    exact h
  gap := .space

def Annotated.ofArguments (s : List Char) (h : Balanced '(' ')' 0 s) : Annotated where
  lead := .none
  annotations := [.ofArguments s h]
  closed a ha := by
    obtain rfl : AnnotationUse.ofArguments s h = a := by simpa using ha
    exact .inl (by simp [AnnotationUse.ofArguments])
  modifier := none
  rest := "String s".toList
  trail := .none
  ne := by decide
  outer := bracketed_of_forall (by simp [IsOuter])
  plain := by decide
  first := by decide
  last := by decide

theorem parameters_of_annotations_number :
    parameters [] "@A(1) String s".toList = parameters [] "String s".toList := by
  let p : Annotated := .ofArguments ['1'] (balanced_of_not_mem (by decide) (by decide))
  have hangled : ∀ q ∈ [p], ∀ a ∈ q.all, a.Angled := by
    simp only [List.mem_singleton, forall_eq, p, Annotated.ofArguments, Annotated.all,
      Option.elim_none, List.append_nil, AnnotationUse.Angled, AnnotationUse.ofArguments]
    rintro _ ⟨⟩
    exact balanced_of_not_mem (by decide) (by decide)
  have hflat : ∀ q ∈ [p], ∀ a ∈ q.all, a.Flat := by
    simp only [List.mem_singleton, forall_eq, p, Annotated.ofArguments, Annotated.all,
      Option.elim_none, List.append_nil, AnnotationUse.Flat, AnnotationUse.ofArguments]
    rintro _ ⟨⟩
    decide
  exact (parameters_of_annotations [] [p] hangled).1 hflat

/-- Of a nested annotation a bracket is left, and a shift in the arguments runs two parameters
together. -/
theorem parameters_nested :
    parameters [] "@A(@B(1)) String s".toList = [⟨"s", ⟨") String", true⟩⟩] ∧
      parameters [] "String s".toList = [⟨"s", ⟨"String", true⟩⟩] ∧
      parameters [] "@A(1 << 10) String s, int n".toList = [⟨"n", ⟨"String s, int", true⟩⟩] ∧
      parameters [] "String s, int n".toList =
        [⟨"s", ⟨"String", true⟩⟩, ⟨"n", ⟨"int", true⟩⟩] := by
  refine ⟨?_, ?_, ?_, ?_⟩ <;> decide +kernel

end Companion.Java
