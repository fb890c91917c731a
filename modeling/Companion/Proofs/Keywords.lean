import Companion.Proofs.MaskedText
import Mathlib.Tactic.ByContra
import Mathlib.Data.List.TakeWhile

/-!
# Words and keywords

The scanner looks for `class`, `package` and `extends` at word boundaries. A text none of whose
words is the keyword is passed over, if its last word is complete (`readFirst?_append_of_lacks`,
`classNamesFrom_append_of_lacks`). What is found in a text does not depend on what stands before and
after it, if that is cut off from it by a character of the right kind (`classNamesFrom_append`,
`classNamesFrom_before`).
-/

namespace Companion.Java

open Text
open Unicode (isBlank isWordChar)

variable {k s a b t rest : List Char} {z : Char}

/-- No word of the text is `k`. -/
def Lacks (k s : List Char) : Prop :=
  k ∉ s.splitOnP fun c => !isWordChar c

/-- No word goes on behind the text. -/
def EndsWords (s : List Char) : Prop :=
  ∀ c, s.getLast? = some c → isWordChar c = false

theorem lacks_append_cons (hz : isWordChar z = false) :
    Lacks k (a ++ z :: b) ↔ Lacks k a ∧ Lacks k b := by
  rw [Lacks, List.splitOnP_append_cons _ _ (by simp [hz]), List.mem_append, not_or]
  rfl

theorem lacks_nil (hk : k ≠ []) : Lacks k [] := by
  rw [Lacks, List.splitOnP_nil, List.mem_singleton]
  exact hk

theorem lacks_cons (hk : k ≠ []) (hz : isWordChar z = false) :
    Lacks k (z :: b) ↔ Lacks k b := by
  rw [← List.nil_append (z :: b), lacks_append_cons hz]
  exact and_iff_right (lacks_nil hk)

theorem lacks_word (hs : ∀ c ∈ s, isWordChar c) : Lacks k s ↔ k ≠ s := by
  rw [Lacks, List.splitOnP_eq_singleton fun c hc => by simp [hs c hc], List.mem_singleton]

theorem lacks_of_no_word (hk : k ≠ []) (hs : ∀ c ∈ s, isWordChar c = false) : Lacks k s := by
  induction s with
  | nil => exact lacks_nil hk
  | cons c s ih =>
    rw [lacks_cons hk (hs c List.mem_cons_self)]
    exact ih fun x hx => hs x (List.mem_cons_of_mem _ hx)

/-- A text without the word `k` has it nowhere, not even where the text is cut off. -/
theorem Lacks.ne_append (h : Lacks k (a ++ t)) (hk : ∀ c ∈ k, isWordChar c) (ha : EndsWords a)
    (ht : t ≠ []) (hend : EndsWords t) {r : List Char} (hz : isWordChar z = false) :
    t ++ rest ≠ k ++ z :: r := by
  intro heq
  have hlast : t.getLast ht ∉ k := by
    intro hmem
    have := hend _ (List.getLast?_eq_some_getLast ht)
    rw [hk _ hmem] at this
    exact absurd this (by decide)
  rcases List.append_eq_append_iff.1 heq with ⟨m, hm, -⟩ | ⟨m, hm, hrest⟩
  · exact hlast (hm ▸ List.mem_append_left _ (List.getLast_mem ht))
  · rcases m with _ | ⟨y, m⟩
    · rw [List.append_nil] at hm
      exact hlast (hm ▸ List.getLast_mem ht)
    · have hy : y = z := by
        have := congrArg List.head? hrest
        simpa using this.symm
      subst hy hm
      have hkm : ¬Lacks k (k ++ y :: m) := by
        rw [lacks_append_cons hz, lacks_word hk]
        simp
      rcases List.eq_nil_or_concat a with rfl | ⟨a, x, rfl⟩
      · exact hkm h
      · have hx : isWordChar x = false := ha x (by simp)
        rw [List.concat_eq_append, List.append_assoc, List.singleton_append,
          lacks_append_cons hx] at h
        exact hkm h.2

theorem isWordChar_eq_false_of_isBoundary {before : Option Char} {c d : Char}
    (h : isBoundary before (some c)) (hc : isWordChar c) (hd : before = some d) :
    isWordChar d = false := by
  subst hd
  simpa [isBoundary, hc] using h

variable {read : List Char → Option (List Char)} {before : Option Char}

theorem getLast?_cons_or (c : Char) (s : List Char) :
    (c :: s).getLast?.or before = s.getLast?.or (some c) := by
  rw [List.getLast?_cons]
  rcases s.getLast? with _ | d <;> rfl

theorem readFirst?_append_of_none
    (h : ∀ p q, s = p ++ q → q ≠ [] → isBoundary (p.getLast?.or before) q.head? →
      read (q ++ rest) = none) :
    readFirst? read before (s ++ rest) = readFirst? read (s.getLast?.or before) rest := by
  induction s generalizing before with
  | nil => rfl
  | cons c s ih =>
    have hstep : readFirst? read before (c :: (s ++ rest)) =
        readFirst? read (some c) (s ++ rest) := by
      rw [readFirst?]
      split_ifs with hb
      · have hread := h [] (c :: s) rfl (List.cons_ne_nil _ _) hb
        rw [List.cons_append] at hread
        rw [hread, Option.none_or]
      · rfl
    rw [List.cons_append, hstep, getLast?_cons_or]
    exact ih fun p q hs hq hb => h (c :: p) q (by rw [hs]; rfl) hq (by rwa [getLast?_cons_or])

theorem readFirst?_eq_none_iff :
    readFirst? read before s = none ↔ ∀ p q, s = p ++ q → q ≠ [] →
      isBoundary (p.getLast?.or before) q.head? → read q = none := by
  constructor
  · intro h
    induction s generalizing before with
    | nil =>
      intro p q hs hq
      exact absurd (List.append_eq_nil_iff.1 hs.symm).2 hq
    | cons c s ih =>
      intro p q hs hq hb
      unfold readFirst? at h
      rcases p with _ | ⟨d, p⟩
      · rw [List.nil_append] at hs
        subst hs
        rw [if_pos (by simpa using hb)] at h
        exact (Option.or_eq_none_iff.1 h).1
      · simp only [List.cons_append, List.cons.injEq] at hs
        obtain ⟨rfl, hs⟩ := hs
        refine ih ?_ p q hs hq (by rwa [getLast?_cons_or] at hb)
        split_ifs at h
        · exact (Option.or_eq_none_iff.1 h).2
        · exact h
  · intro h
    have hskip : readFirst? read before (s ++ []) = readFirst? read (s.getLast?.or before) [] :=
      readFirst?_append_of_none fun p q hs hq hb => by
        rw [List.append_nil]
        exact h p q hs hq hb
    rwa [List.append_nil] at hskip

/-- What is found is what is read at the first word boundary where something is read. -/
theorem readFirst?_eq_some_iff :
    readFirst? read before s = some t ↔ ∃ p q, s = p ++ q ∧ q ≠ [] ∧
      isBoundary (p.getLast?.or before) q.head? ∧ read q = some t ∧
      ∀ p' q', s = p' ++ q' → p'.length < p.length →
        isBoundary (p'.getLast?.or before) q'.head? → read q' = none := by
  constructor
  · intro h
    induction s generalizing before with
    | nil => simp [readFirst?] at h
    | cons c s ih =>
      have hlater (hnone : isBoundary before (some c) → read (c :: s) = none)
          (h : readFirst? read (some c) s = some t) :
          ∃ p q, c :: s = p ++ q ∧ q ≠ [] ∧ isBoundary (p.getLast?.or before) q.head? ∧
            read q = some t ∧ ∀ p' q', c :: s = p' ++ q' → p'.length < p.length →
              isBoundary (p'.getLast?.or before) q'.head? → read q' = none := by
        obtain ⟨p, q, rfl, hq, hb, hread, hfirst⟩ := ih h
        refine ⟨c :: p, q, rfl, hq, by rwa [getLast?_cons_or], hread, ?_⟩
        rintro (_ | ⟨d, p'⟩) q' heq hlt hb'
        · rw [List.nil_append] at heq
          subst heq
          exact hnone hb'
        · simp only [List.cons_append, List.cons.injEq] at heq
          obtain ⟨rfl, heq⟩ := heq
          exact hfirst p' q' heq (by simpa using hlt) (by rwa [getLast?_cons_or] at hb')
      unfold readFirst? at h
      split_ifs at h with hb
      · rcases hread : read (c :: s) with _ | u
        · rw [hread, Option.none_or] at h
          exact hlater (fun _ => hread) h
        · rw [hread, Option.some_or, Option.some.injEq] at h
          subst h
          exact ⟨[], c :: s, rfl, List.cons_ne_nil _ _, hb, hread, by simp⟩
      · exact hlater (fun h => absurd h hb) h
  · rintro ⟨p, q, rfl, hq, hb, hread, hfirst⟩
    obtain ⟨c, q, rfl⟩ := List.exists_cons_of_ne_nil hq
    rw [readFirst?_append_of_none fun p' q' hp hq' hb' => ?_]
    · rw [readFirst?, if_pos (by simpa using hb), hread, Option.some_or]
    · have hlt : p'.length < p.length := by
        have := congrArg List.length hp
        have := List.length_pos_iff.2 hq'
        simp only [List.length_append] at *
        omega
      obtain ⟨d, q', rfl⟩ := List.exists_cons_of_ne_nil hq'
      exact hfirst p' (d :: q' ++ c :: q) (by rw [hp, List.append_assoc]) hlt hb'

/-- The reading starts with the word `k` and white space. -/
def ReadsAfter (k : List Char) (read : List Char → Option (List Char)) : Prop :=
  ∀ s, read s ≠ none → ∃ z r, s = k ++ z :: r ∧ isBlank z

theorem readsAfter_of_afterBlank?
    (hread : ∀ s, (afterPiece? k s).bind afterBlank? = none → read s = none) :
    ReadsAfter k read := by
  intro s h
  rcases ht : afterPiece? k s with _ | t
  · exact absurd (hread s (by rw [ht]; rfl)) h
  · rcases t with _ | ⟨z, r⟩
    · exact absurd (hread s (by rw [ht]; rfl)) h
    · refine ⟨z, r, afterPiece?_eq_some_iff.1 ht, ?_⟩
      by_contra hz
      refine h (hread s ?_)
      rw [ht, Option.bind_some, afterBlank?, List.head?_cons, Option.any_some, if_neg hz]

theorem readsAfter_extendsClause? : ReadsAfter "extends".toList extendsClause? :=
  readsAfter_of_afterBlank? fun _ h => h

theorem readsAfter_packageClause? : ReadsAfter "package".toList packageClause? :=
  readsAfter_of_afterBlank? fun s h => by rw [packageClause?, h]

/-- A text without the keyword is passed over. -/
theorem readFirst?_append_of_lacks (hread : ReadsAfter k read) (hk : ∀ c ∈ k, isWordChar c)
    (hne : k ≠ []) (hs : Lacks k s) (hend : EndsWords s) :
    readFirst? read before (s ++ rest) = readFirst? read (s.getLast?.or before) rest := by
  refine readFirst?_append_of_none fun p q hpq hq hb => ?_
  subst hpq
  by_contra hsome
  obtain ⟨z, r, heq, hz⟩ := hread _ hsome
  refine hs.ne_append hk ?_ hq ?_ (Unicode.isWordChar_of_isBlank hz) heq
  · intro d hd
    obtain ⟨c, cs, rfl⟩ := List.exists_cons_of_ne_nil hq
    obtain ⟨c', k, rfl⟩ := List.exists_cons_of_ne_nil hne
    simp only [List.cons_append, List.cons.injEq] at heq
    obtain ⟨rfl, -⟩ := heq
    exact isWordChar_eq_false_of_isBoundary hb (hk _ List.mem_cons_self) (by simp [hd])
  · intro c hc
    exact hend c (by simp [List.getLast?_append, hc])

/-! ## Class names -/

variable {before gs hs : List Glyph}

theorem classNamesFrom_append_of_none
    (h : ∀ p q, gs = p ++ q → q ≠ [] →
      isBoundary ((p.reverse ++ before).head?.map Glyph.code) (q.head?.map Glyph.code) →
        nameAfterClass? (q ++ hs) = none) :
    classNamesFrom before (gs ++ hs) = classNamesFrom (gs.reverse ++ before) hs := by
  induction gs generalizing before with
  | nil => rfl
  | cons g gs ih =>
    have hstep : classNamesFrom before (g :: (gs ++ hs)) = classNamesFrom (g :: before) (gs ++ hs) :=
      classNamesFrom_cons_of_not fun hb => h [] (g :: gs) rfl (List.cons_ne_nil _ _) hb
    rw [List.cons_append, hstep, ih, List.reverse_cons, List.append_assoc]
    · rfl
    · intro p q hg hq hb
      refine h (g :: p) q (by rw [hg]; rfl) hq ?_
      rwa [List.reverse_cons, List.append_assoc]

theorem eq_of_nameAfterClass? {name : List Char} (h : nameAfterClass? gs = some name) :
    ∃ z r, gs.map Glyph.code = "class".toList ++ z :: r ∧ isBlank z := by
  unfold nameAfterClass? at h
  split_ifs at h with hclass
  rcases hd : (gs.drop "class".length).map Glyph.code with _ | ⟨z, r⟩
  · simp [hd, afterBlank?] at h
  · refine ⟨z, r, ?_, ?_⟩
    · rw [← hclass, ← hd, ← List.map_append, List.take_append_drop]
    · by_contra hz
      simp [hd, afterBlank?, hz] at h

/-- A text without the word `class` declares no class. -/
theorem classNamesFrom_append_of_lacks (hs' : Lacks "class".toList (gs.map Glyph.code))
    (hend : EndsWords (gs.map Glyph.code)) :
    classNamesFrom before (gs ++ hs) = classNamesFrom (gs.reverse ++ before) hs := by
  refine classNamesFrom_append_of_none fun p q hpq hq hb => ?_
  subst hpq
  by_contra hsome
  obtain ⟨name, hname⟩ := Option.ne_none_iff_exists'.1 hsome
  obtain ⟨z, r, heq, hz⟩ := eq_of_nameAfterClass? hname
  rw [List.map_append] at hs' hend heq
  refine hs'.ne_append (by decide) ?_ (by simpa using hq) ?_
    (Unicode.isWordChar_of_isBlank hz) heq
  · intro d hd
    obtain ⟨g, q, rfl⟩ := List.exists_cons_of_ne_nil hq
    have hc : g.code = 'c' := by
      have := congrArg List.head? heq
      simpa using this
    have hbefore : (p.reverse ++ before).head?.map Glyph.code = some d := by
      rcases List.eq_nil_or_concat p with rfl | ⟨p, x, rfl⟩
      · simp at hd
      · simpa using hd
    exact isWordChar_eq_false_of_isBoundary hb (by rw [hc]; decide) hbefore
  · intro c hc
    exact hend c (by simp [List.getLast?_append, hc])

theorem dropWhile_append_cons {α : Type*} (p : α → Bool) {x : α} (hx : p x = false)
    (l t : List α) : (l ++ x :: t).dropWhile p = l.dropWhile p ++ x :: t := by
  induction l with
  | nil => rw [List.nil_append, List.dropWhile_cons_of_neg (by simp [hx])]; rfl
  | cons y l ih =>
    rw [List.cons_append, List.dropWhile_cons, List.dropWhile_cons, ih]
    split_ifs <;> rfl

/-- White space, maybe none. -/
structure Blanks where
  text : List Char
  blank : ∀ c ∈ text, isBlank c

def Blanks.none : Blanks :=
  ⟨[], List.forall_mem_nil _⟩

def Blanks.space : Blanks :=
  ⟨[' '], List.forall_mem_singleton.2 rfl⟩

theorem trimStart_append_of_blank (hs : ∀ c ∈ s, isBlank c)
    (hrest : ∀ c ∈ rest.head?, isBlank c = false) : trimStart (s ++ rest) = rest := by
  rw [trimStart, List.dropWhile_append_of_pos hs]
  rcases rest with _ | ⟨c, rest⟩
  · rfl
  · exact List.dropWhile_cons_of_neg (by simp [hrest c rfl])

theorem trimEnd_append_of_blank (ht : ∀ c ∈ t, isBlank c) (s : List Char) :
    trimEnd (s ++ t) = trimEnd s := by
  rw [trimEnd, List.reverse_append,
    List.dropWhile_append_of_pos fun c hc => ht c (List.mem_reverse.1 hc)]
  rfl

theorem trimEnd_eq_self (h : ∀ c ∈ s.getLast?, isBlank c = false) : trimEnd s = s := by
  rcases List.eq_nil_or_concat s with rfl | ⟨s, c, rfl⟩
  · rfl
  · have hc : isBlank c = false := h c (by simp)
    rw [trimEnd, List.concat_eq_append, List.reverse_append, List.reverse_singleton,
      List.singleton_append, List.dropWhile_cons_of_neg (by simp [hc]), List.reverse_cons,
      List.reverse_reverse]

theorem trimStart_append (s t : List Char) :
    trimStart (s ++ t) = if trimStart s = [] then trimStart t else trimStart s ++ t := by
  rw [trimStart, List.dropWhile_append]
  simp only [List.isEmpty_iff]
  rfl

/-- White space before or behind a text is trimmed off with that of the text. -/
theorem trim_append_of_blank (ht : ∀ c ∈ t, isBlank c) (s : List Char) :
    trim (s ++ t) = trim s ∧ trim (t ++ s) = trim s := by
  have htrim : trimStart t = [] := List.dropWhile_eq_nil_iff.2 ht
  constructor
  · rw [trim, trim, trimStart_append, htrim]
    split_ifs with hs
    · rw [hs]
    · exact trimEnd_append_of_blank ht _
  · rw [trim, trimStart_append, if_pos htrim, ← trim]

/-- White space around a text is trimmed off. -/
theorem trim_between (ha : ∀ c ∈ a, isBlank c) (hb : ∀ c ∈ b, isBlank c)
    (hfirst : ∀ c ∈ s.head?, isBlank c = false) (hlast : ∀ c ∈ s.getLast?, isBlank c = false) :
    trim (a ++ (s ++ b)) = s := by
  rcases s with _ | ⟨c, s⟩
  · have htrim : trimStart (a ++ (b ++ [])) = [] :=
      (List.append_assoc a b []).symm ▸ trimStart_append_of_blank
        (List.forall_mem_append.2 ⟨ha, hb⟩) (by simp)
    rw [List.append_nil] at htrim
    rw [trim, List.nil_append, htrim]
    rfl
  · have hstart : trimStart (a ++ (c :: s ++ b)) = c :: s ++ b :=
      trimStart_append_of_blank ha hfirst
    rw [trim, hstart, trimEnd_append_of_blank hb, trimEnd_eq_self hlast]

theorem takeWhile_append_cons {α : Type*} (p : α → Bool) {x : α} (hx : p x = false)
    (l t : List α) : (l ++ x :: t).takeWhile p = l.takeWhile p := by
  induction l with
  | nil => rw [List.nil_append, List.takeWhile_cons_of_neg (by simp [hx])]; rfl
  | cons y l ih => rw [List.cons_append, List.takeWhile_cons, List.takeWhile_cons, ih]

theorem afterPiece?_append_cons {x : Char} {r : List Char} (hx : x ∉ k) :
    afterPiece? k (s ++ x :: r) = (afterPiece? k s).map (· ++ x :: r) := by
  induction k generalizing s with
  | nil => rfl
  | cons c k ih =>
    simp only [List.mem_cons, not_or] at hx
    rcases s with _ | ⟨d, s⟩
    · simp only [List.nil_append, afterPiece?, if_neg (Ne.symm hx.1), Option.map_none]
    · rw [List.cons_append, afterPiece?, afterPiece?]
      split_ifs
      · exact ih hx.2
      · rfl

theorem afterBlank?_append_cons {x : Char} {r : List Char} (hx : isBlank x = false) :
    afterBlank? (s ++ x :: r) = (afterBlank? s).map (· ++ x :: r) := by
  have hhead : (s ++ x :: r).head?.any isBlank = s.head?.any isBlank := by
    cases s <;> simp [hx]
  have htrim : trimStart (s ++ x :: r) = trimStart s ++ x :: r :=
    dropWhile_append_cons isBlank hx _ _
  rw [afterBlank?, afterBlank?, hhead, htrim]
  split_ifs <;> rfl

variable {x : Glyph}

theorem take_append_class (hx : isNameChar x.code = false) :
    ((gs ++ x :: hs).take "class".length).map Glyph.code = "class".toList ↔
      (gs.take "class".length).map Glyph.code = "class".toList := by
  have hlength : "class".toList.length = "class".length := rfl
  by_cases hle : "class".length ≤ gs.length
  · rw [List.take_append_of_le_length hle]
  · constructor
    · intro h
      have hmem : x.code ∈ "class".toList := by
        rw [← h]
        refine List.mem_map_of_mem ?_
        rw [List.take_append, List.mem_append]
        right
        obtain ⟨n, hn⟩ : ∃ n, "class".length - gs.length = n + 1 :=
          ⟨"class".length - gs.length - 1, by omega⟩
        rw [hn, List.take_succ_cons]
        exact List.mem_cons_self
      have hall : ∀ c ∈ "class".toList, isNameChar c := by decide
      rw [hall _ hmem] at hx
      exact absurd hx (by decide)
    · intro h
      have := congrArg List.length h
      rw [List.length_map, List.length_take, hlength] at this
      omega

theorem nameAfterClass?_append (hx : isNameChar x.code = false) (hb : isBlank x.code = false) :
    nameAfterClass? (gs ++ x :: hs) = nameAfterClass? gs := by
  have hlength : "class".toList.length = "class".length := rfl
  unfold nameAfterClass?
  by_cases hclass : (gs.take "class".length).map Glyph.code = "class".toList
  · have hle : "class".length ≤ gs.length := by
      have := congrArg List.length hclass
      rw [List.length_map, List.length_take, hlength] at this
      omega
    rw [if_pos hclass, if_pos ((take_append_class hx).2 hclass), List.drop_append_of_le_length hle,
      List.map_append, List.map_cons, afterBlank?_append_cons hb]
    rcases afterBlank? ((gs.drop "class".length).map Glyph.code) with _ | _ | ⟨c, cs⟩
    · rfl
    · have hstart : ¬isNameStart x.code := fun h => by
        rw [isNameChar_of_isNameStart h] at hx
        exact absurd hx (by decide)
      simp [hstart]
    · simp only [Option.map_some, List.cons_append, takeWhile_append_cons isNameChar hx]
  · rw [if_neg hclass, if_neg (mt (take_append_class hx).1 hclass)]

theorem glyphsAfterName_append (hx : isNameChar x.code = false) (hb : isBlank x.code = false)
    {name : List Char} (h : nameAfterClass? gs = some name) :
    glyphsAfterName (gs ++ x :: hs) = glyphsAfterName gs ++ x :: hs := by
  have hlength : "class".toList.length = "class".length := rfl
  unfold nameAfterClass? at h
  split_ifs at h with hclass
  have hle : "class".length ≤ gs.length := by
    have := congrArg List.length hclass
    rw [List.length_map, List.length_take, hlength] at this
    omega
  unfold glyphsAfterName
  rw [List.drop_append_of_le_length hle, dropWhile_append_cons (fun g : Glyph => isBlank g.code) hb]
  rcases hd : (gs.drop "class".length).dropWhile (fun g => isBlank g.code) with _ | ⟨y, q⟩
  · have htrim : trimStart ((gs.drop "class".length).map Glyph.code) = [] := by
      rw [trimStart, List.dropWhile_map]
      exact congrArg (List.map Glyph.code) hd
    simp only [afterBlank?, htrim] at h
    split_ifs at h
  · rw [hd, List.cons_append, List.drop_succ_cons, List.drop_zero, List.drop_succ_cons,
      List.drop_zero, dropWhile_append_cons (fun g : Glyph => isNameChar g.code) hx]

/-- The class name with more of the source on both sides. -/
def ClassName.between (before after : List Glyph) (n : ClassName) : ClassName :=
  ⟨n.before ++ before, n.name, n.after ++ after⟩

theorem isBoundary_append {p : List Glyph} {c : Char}
    (hp : p = [] → ∀ g, before.head? = some g → isWordChar g.code = false) :
    isBoundary ((p ++ before).head?.map Glyph.code) (some c) =
      isBoundary (p.head?.map Glyph.code) (some c) := by
  rcases p with _ | ⟨y, p⟩
  · rcases before with _ | ⟨y, before⟩
    · rfl
    · simp [isBoundary, hp rfl y rfl]
  · rfl

/-- The class names in a text are the same before another text. -/
theorem classNamesFrom_ahead (hx : isNameChar x.code = false) (hb : isBlank x.code = false)
    {p : List Glyph} :
    classNamesFrom p (gs ++ x :: hs) =
      (classNamesFrom p gs).map (ClassName.between [] (x :: hs)) ++
        classNamesFrom (gs.reverse ++ p) (x :: hs) := by
  fun_induction classNamesFrom p gs with
  | case1 p => rfl
  | case2 p g gs hb' name hname after passed ih =>
    have hsplit : g :: gs = passed ++ after := eq_take_append_after (g :: gs)
    have hafter : glyphsAfterName (g :: gs ++ x :: hs) = after ++ x :: hs :=
      glyphsAfterName_append hx hb hname
    have hname' : nameAfterClass? (g :: gs ++ x :: hs) = some name := by
      rw [nameAfterClass?_append hx hb, hname]
    have hsplit' : g :: gs ++ x :: hs = passed ++ glyphsAfterName (g :: gs ++ x :: hs) := by
      rw [hafter, ← List.append_assoc, ← hsplit]
    have hreverse : (g :: gs).reverse = after.reverse ++ passed.reverse := by
      rw [hsplit, List.reverse_append]
    rw [List.cons_append] at hafter hname' hsplit' ⊢
    rw [classNamesFrom_cons_of_some hb' hname' hsplit', hafter, ih, List.map_cons,
      List.cons_append, hreverse]
    simp only [List.append_assoc, List.append_nil, ClassName.between]
  | case3 p g gs hb' hname ih =>
    have hstep : classNamesFrom p (g :: (gs ++ x :: hs)) =
        classNamesFrom (g :: p) (gs ++ x :: hs) :=
      classNamesFrom_cons_of_not fun _ => by
        rw [← List.cons_append, nameAfterClass?_append hx hb, hname]
    rw [List.cons_append, hstep, ih, List.reverse_cons]
    simp
  | case4 p g gs hb' ih =>
    have hstep : classNamesFrom p (g :: (gs ++ x :: hs)) =
        classNamesFrom (g :: p) (gs ++ x :: hs) :=
      classNamesFrom_cons_of_not fun h => absurd h hb'
    rw [List.cons_append, hstep, ih, List.reverse_cons]
    simp

/-- The class names in a text are the same behind another text. -/
theorem classNamesFrom_behind {p : List Glyph}
    (hp : p = [] → ∀ g, before.head? = some g → isWordChar g.code = false) :
    classNamesFrom (p ++ before) gs = (classNamesFrom p gs).map (ClassName.between before []) := by
  fun_induction classNamesFrom p gs with
  | case1 p => rw [classNamesFrom, List.map_nil]
  | case2 p g gs hb' name hname after passed ih =>
    have hsplit : g :: gs = passed ++ after := eq_take_append_after (g :: gs)
    have hih := ih fun hnil => by
      have := congrArg List.length hsplit
      have hlt : after.length < (g :: gs).length :=
        length_glyphsAfterName_lt (List.cons_ne_nil g gs)
      rw [List.length_append, (List.append_eq_nil_iff.1 hnil).1 |> List.reverse_eq_nil_iff.1] at this
      simp only [List.length_nil] at this
      omega
    rw [classNamesFrom_cons_of_some (by rwa [isBoundary_append hp]) hname hsplit,
      ← List.append_assoc, hih, List.map_cons, ClassName.between, List.append_nil]
  | case3 p g gs hb' hname ih =>
    have hstep : classNamesFrom (p ++ before) (g :: gs) = classNamesFrom (g :: p ++ before) gs :=
      classNamesFrom_cons_of_not fun _ => hname
    rw [hstep, ih (by simp)]
  | case4 p g gs hb' ih =>
    have hstep : classNamesFrom (p ++ before) (g :: gs) = classNamesFrom (g :: p ++ before) gs :=
      classNamesFrom_cons_of_not fun h => absurd (by rwa [isBoundary_append hp] at h) hb'
    rw [hstep, ih (by simp)]

/-- The class names in a text are the same among other texts. -/
theorem classNamesFrom_append (hx : isNameChar x.code = false) (hb : isBlank x.code = false)
    {p : List Glyph} (hp : p = [] → ∀ g, before.head? = some g → isWordChar g.code = false) :
    classNamesFrom (p ++ before) (gs ++ x :: hs) =
      (classNamesFrom p gs).map (ClassName.between before (x :: hs)) ++
        classNamesFrom (gs.reverse ++ (p ++ before)) (x :: hs) := by
  rw [classNamesFrom_ahead hx hb, classNamesFrom_behind hp, List.map_map]
  congr 1
  refine List.map_congr_left fun n _ => ?_
  simp [ClassName.between]

theorem isLiteral_between {y : Glyph} (hblank : isBlank y.code = false) (hdot : y.code ≠ '.')
    (n : ClassName) : (n.between (y :: before) hs).isLiteral = n.isLiteral := by
  have hdrop : ((n.before ++ y :: before).dropWhile fun g => isBlank g.code) =
      (n.before.dropWhile fun g => isBlank g.code) ++ y :: before :=
    dropWhile_append_cons (fun g : Glyph => isBlank g.code) hblank _ _
  simp only [ClassName.isLiteral, ClassName.between, hdrop]
  generalize (n.before.dropWhile fun g => isBlank g.code) = l
  rcases l with _ | ⟨z, l⟩
  · simp [hdot]
  · rfl

/-- A package clause ends before a closing brace. -/
theorem packageClause?_append (r : List Char) :
    packageClause? (s ++ '\x7d' :: r) = packageClause? s := by
  unfold packageClause?
  have hblank : isBlank '\x7d' = false := by decide
  rw [afterPiece?_append_cons (by decide)]
  rcases afterPiece? "package".toList s with _ | t
  · rfl
  · simp only [Option.map_some, Option.bind_some]
    rw [afterBlank?_append_cons hblank]
    rcases afterBlank? t with _ | t
    · rfl
    · let isPart (c : Char) : Bool := isWordChar c || c == '.'
      have hpart : isPart '\x7d' = false := by decide
      have htake := takeWhile_append_cons isPart hpart t r
      have hdrop := dropWhile_append_cons isPart hpart t r
      simp only [Option.map_some]
      rw [htake, hdrop, trimStart, dropWhile_append_cons isBlank hblank, ← trimStart]
      rcases trimStart (t.dropWhile fun c => isWordChar c || c == '.') with _ | ⟨d, l⟩
      · simp
      · rfl

/-- A text without a package clause is passed over, if it stands in braces. -/
theorem findPackage?_append (h : findPackage? s = none) (r : List Char) :
    readFirst? packageClause? (some '\x7b') (s ++ '\x7d' :: r) =
      readFirst? packageClause? (s.getLast?.or (some '\x7b')) ('\x7d' :: r) := by
  refine readFirst?_append_of_none fun p q hpq hq hb => ?_
  rw [packageClause?_append]
  refine readFirst?_eq_none_iff.1 h p q hpq hq ?_
  rcases List.eq_nil_or_concat p with rfl | ⟨p, d, rfl⟩
  · exact hb
  · simpa using hb

end Companion.Java
