import Companion.Proofs.DocComment
import Companion.Proofs.MaskedText
import Mathlib.Data.List.DropRight

/-!
# Sources in segments

A source whose comments and literals are all complete is a list of segments: characters of code,
comments, literals and text blocks. Its mask is that of its segments (`mask_print`), so a class
keyword is code (`classNames_segments`) and the reach of the class before it is a list of segments
(`takeWhile_glyphs`).

The documentation comment is looked for in the text of that reach, where an opening need not be that
of a comment. Its tags are those of the last documentation comment of the reach if no opening stands
in the text after that of this comment (`tags_of_segments`). An opening in a literal takes the tags
away (`scan_literalOpening`).
-/

namespace Companion.Java

open Text

/-- The text goes on to the end of a literal in that quote. A backslash takes the next character with
it. -/
def isInside (quote : Char) : List Char → Bool
  | [] => true
  | '\\' :: _ :: cs => isInside quote cs
  | c :: cs => c != quote && c != '\\' && c != '\n' && isInside quote cs

/-- A part of a source that is lexed as a whole. -/
inductive Segment where
  | code (c : Char)
  /-- A comment up to the end of its line. -/
  | lineComment (content : List Char)
  /-- A comment in slashes and stars. -/
  | blockComment (content : List Char)
  | literal (quote : Char) (content : List Char)
  | textBlock (content : List Char)
  deriving DecidableEq, Repr

namespace Segment

def print : Segment → List Char
  | code c => [c]
  | lineComment s => '/' :: '/' :: s
  | blockComment s => '/' :: '*' :: (s ++ ['*', '/'])
  | literal q s => q :: (s ++ [q])
  | textBlock s => '"' :: '"' :: '"' :: (s ++ ['"', '"', '"'])

/-- What the scanner sees of a segment. -/
def glyphs : Segment → List Glyph
  | code c => [.keep c]
  | lineComment s => ('/' :: '/' :: s).map .blank
  | blockComment s => ('/' :: '*' :: (s ++ ['*', '/'])).map .blank
  | literal q s => .keep q :: (s.map .blank ++ [.keep q])
  | textBlock s =>
    .keep '"' :: .keep '"' :: .keep '"' :: (s.map .blank ++ [.keep '"', .keep '"', .keep '"'])

/-- The segment ends where it does when the text follows it. -/
def Complete (rest : List Char) : Segment → Prop
  | code c => c ≠ '"' ∧ c ≠ '\'' ∧ (c = '/' → rest.head? ≠ some '/' ∧ rest.head? ≠ some '*')
  | lineComment s => '\n' ∉ s ∧ (rest = [] ∨ rest.head? = some '\n')
  | blockComment s => ¬['*', '/'] <:+: s
  | literal q s => (q = '"' ∨ q = '\'') ∧ isInside q s ∧
      (q = '"' ∧ s = [] → rest.head? ≠ some '"')
  | textBlock s => ¬['"', '"', '"'] <:+: s ++ ['"', '"']

instance decidableComplete (rest : List Char) : (s : Segment) → Decidable (s.Complete rest)
  | code c => inferInstanceAs
    (Decidable (c ≠ '"' ∧ c ≠ '\'' ∧ (c = '/' → rest.head? ≠ some '/' ∧ rest.head? ≠ some '*')))
  | lineComment s => inferInstanceAs (Decidable ('\n' ∉ s ∧ (rest = [] ∨ rest.head? = some '\n')))
  | blockComment s => inferInstanceAs (Decidable (¬['*', '/'] <:+: s))
  | literal q s => inferInstanceAs (Decidable ((q = '"' ∨ q = '\'') ∧ isInside q s ∧
      (q = '"' ∧ s = [] → rest.head? ≠ some '"')))
  | textBlock s => inferInstanceAs (Decidable (¬['"', '"', '"'] <:+: s ++ ['"', '"']))

/-- A comment in two stars, longer than the shortest comment. -/
def isJavadoc : Segment → Bool
  | blockComment s => s.head? == some '*'
  | _ => false

/-- A semicolon or a brace of the code. -/
def endsReach : Segment → Bool
  | code c => c == ';' || c == '\x7b' || c == '\x7d'
  | _ => false

end Segment

def sourceOf (ss : List Segment) : List Char :=
  ss.flatMap Segment.print

def glyphsOf (ss : List Segment) : List Glyph :=
  ss.flatMap Segment.glyphs

/-- Each segment ends where it does with the text of those after it. -/
def AllComplete : List Segment → Prop
  | [] => True
  | s :: ss => s.Complete (sourceOf ss) ∧ AllComplete ss

instance decidableAllComplete : (ss : List Segment) → Decidable (AllComplete ss)
  | [] => inferInstanceAs (Decidable True)
  | s :: ss =>
    have := decidableAllComplete ss
    inferInstanceAs (Decidable (s.Complete (sourceOf ss) ∧ AllComplete ss))

variable {s t rest : List Char} {c : Char}

-- The proofs below all rewrite with these equations, so they are made here, once.
attribute [local simp] maskFrom

theorem maskFrom_lineComment (h : '\n' ∉ s) (hr : rest = [] ∨ rest.head? = some '\n') :
    maskFrom .lineComment (s ++ rest) = s.map .blank ++ maskFrom .code rest := by
  induction s with
  | nil =>
    rcases hr with rfl | hr
    · rfl
    · obtain ⟨t, rfl⟩ := List.head?_eq_some_iff.1 hr
      simp
  | cons c s ih =>
    simp only [List.mem_cons, not_or] at h
    rw [List.cons_append, maskFrom, if_neg (Ne.symm h.1), ih h.2]
    rfl

theorem maskFrom_blockComment (h : ¬['*', '/'] <:+: s) (rest : List Char) :
    maskFrom .blockComment (s ++ ('*' :: '/' :: rest)) =
      s.map .blank ++ (.blank '*' :: .blank '/' :: maskFrom .code rest) := by
  induction s with
  | nil => rfl
  | cons c s ih =>
    have hs : ¬['*', '/'] <:+: s := fun hs => h (hs.trans (List.suffix_cons c s).isInfix)
    rw [List.cons_append, maskFrom, ih hs]
    · rfl
    · rintro t rfl ht
      rcases s with _ | ⟨d, s⟩
      · simp at ht
      · simp only [List.cons_append, List.cons.injEq] at ht
        obtain ⟨rfl, -⟩ := ht
        exact h ⟨[], s, rfl⟩

theorem maskFrom_literal {q : Char} (hq : q ≠ '\\') (h : isInside q s) (rest : List Char) :
    maskFrom (.literal q) (s ++ q :: rest) = s.map .blank ++ .keep q :: maskFrom .code rest := by
  fun_induction isInside q s with
  | case1 =>
    rw [List.nil_append, maskFrom, if_pos (.inl rfl)]
    · rfl
    · exact fun _ _ he _ => hq he
  | case2 d cs ih =>
    rw [List.cons_append, List.cons_append, maskFrom, ih h]
    rfl
  | case3 c cs hc ih =>
    simp only [Bool.and_eq_true, bne_iff_ne] at h
    obtain ⟨⟨⟨h₁, h₂⟩, h₃⟩, h₄⟩ := h
    rw [List.cons_append, maskFrom, if_neg (by simp [h₁, h₃]), ih h₄]
    · rfl
    · rintro _ _ rfl
      exact absurd rfl h₂

theorem maskFrom_textBlock (h : ¬['"', '"', '"'] <:+: s ++ ['"', '"']) (rest : List Char) :
    maskFrom .textBlock (s ++ '"' :: '"' :: '"' :: rest) =
      s.map .blank ++ (.keep '"' :: .keep '"' :: .keep '"' :: maskFrom .code rest) := by
  induction s with
  | nil => rfl
  | cons c s ih =>
    have hs : ¬['"', '"', '"'] <:+: s ++ ['"', '"'] := fun hs =>
      h (hs.trans (List.suffix_cons c _).isInfix)
    rw [List.cons_append, maskFrom, ih hs]
    · rfl
    · rintro t rfl ht
      rcases s with _ | ⟨d, _ | ⟨e, s⟩⟩
      · exact h ⟨[], [], rfl⟩
      · simp only [List.cons_append, List.nil_append, List.cons.injEq] at ht
        obtain ⟨rfl, -⟩ := ht
        exact h ⟨[], ['"'], rfl⟩
      · simp only [List.cons_append, List.cons.injEq] at ht
        obtain ⟨rfl, rfl, -⟩ := ht
        exact h ⟨[], s ++ ['"', '"'], rfl⟩

theorem maskFrom_code_of_ne (h : c ≠ '"') (h' : c ≠ '\'')
    (hc : c = '/' → rest.head? ≠ some '/' ∧ rest.head? ≠ some '*') :
    maskFrom .code (c :: rest) = .keep c :: maskFrom .code rest := by
  rw [maskFrom]
  · rw [if_neg (by simp [h, h'])]
  · rintro t rfl rfl
    exact (hc rfl).1 rfl
  · rintro t rfl rfl
    exact (hc rfl).2 rfl
  · exact fun t he _ => h he

/-- A quote opens a literal, except that three of the double ones open a text block. -/
theorem maskFrom_code_quote {q : Char} (hq : q = '"' ∨ q = '\'') (hi : isInside q s)
    (hr : q = '"' ∧ s = [] → rest.head? ≠ some '"') :
    maskFrom .code (q :: (s ++ q :: rest)) =
      .keep q :: maskFrom (.literal q) (s ++ q :: rest) := by
  have hslash : q ≠ '/' := by rcases hq with rfl | rfl <;> decide
  rw [maskFrom]
  · rw [if_pos hq]
  · exact fun t he _ => hslash he
  · exact fun t he _ => hslash he
  · rintro t rfl ht
    rcases s with _ | ⟨d, s⟩
    · simp only [List.nil_append, List.cons.injEq, true_and] at ht
      exact hr ⟨rfl, rfl⟩ (by simp [ht])
    · simp only [List.cons_append, List.cons.injEq] at ht
      obtain ⟨rfl, -⟩ := ht
      simp [isInside] at hi

/-- A complete segment is seen the same whatever follows it. -/
theorem mask_append {x : Segment} (h : x.Complete rest) :
    mask (x.print ++ rest) = x.glyphs ++ mask rest := by
  unfold mask
  cases x with
  | code c =>
    obtain ⟨h₁, h₂, h₃⟩ := h
    exact maskFrom_code_of_ne h₁ h₂ h₃
  | lineComment s =>
    rw [Segment.print, List.cons_append, List.cons_append, maskFrom,
      maskFrom_lineComment h.1 h.2]
    rfl
  | blockComment s =>
    have hprint : (Segment.blockComment s).print ++ rest =
        '/' :: '*' :: (s ++ '*' :: '/' :: rest) := by simp [Segment.print]
    rw [hprint, maskFrom, maskFrom_blockComment h]
    simp [Segment.glyphs]
  | literal q s =>
    obtain ⟨hq, hi, hr⟩ := h
    have hprint : (Segment.literal q s).print ++ rest = q :: (s ++ q :: rest) := by
      simp [Segment.print]
    have hescape : q ≠ '\\' := by rcases hq with rfl | rfl <;> decide
    rw [hprint, maskFrom_code_quote hq hi hr, maskFrom_literal hescape hi]
    simp [Segment.glyphs]
  | textBlock s =>
    have hprint : (Segment.textBlock s).print ++ rest =
        '"' :: '"' :: '"' :: (s ++ '"' :: '"' :: '"' :: rest) := by simp [Segment.print]
    rw [hprint, maskFrom, maskFrom_textBlock h]
    simp [Segment.glyphs]

theorem mask_sourceOf {ss : List Segment} (h : AllComplete ss) :
    mask (sourceOf ss) = glyphsOf ss := by
  induction ss with
  | nil => rfl
  | cons x ss ih =>
    rw [sourceOf, List.flatMap_cons, ← sourceOf, mask_append h.1, ih h.2]
    rfl

theorem map_raw_blank (s : List Char) : (s.map Glyph.blank).map Glyph.raw = s := by
  rw [List.map_map]
  exact List.map_id s

theorem map_raw_glyphs (x : Segment) : x.glyphs.map Glyph.raw = x.print := by
  cases x with
  | code c => rfl
  | lineComment s => exact map_raw_blank _
  | blockComment s => exact map_raw_blank _
  | literal q s => simp only [Segment.glyphs, List.map_cons, List.map_append, map_raw_blank]; rfl
  | textBlock s => simp only [Segment.glyphs, List.map_cons, List.map_append, map_raw_blank]; rfl

theorem map_raw_glyphsOf (ss : List Segment) : (glyphsOf ss).map Glyph.raw = sourceOf ss := by
  rw [glyphsOf, List.map_flatMap, sourceOf]
  simp only [map_raw_glyphs]

/-- What is seen of a segment that is no code: blanks, line feeds and quotes. -/
def isCover (c : Char) : Bool :=
  c == ' ' || c == '\n' || c == '"' || c == '\''

theorem isCover_blank (c : Char) : isCover (Glyph.blank c).code := by
  unfold Glyph.blank
  by_cases h : c = '\n'
  · simp [h, isCover]
  · simp [h, isCover]

theorem isCover_of_mem_map_blank {g : Glyph} (h : g ∈ s.map .blank) : isCover g.code := by
  obtain ⟨c, -, rfl⟩ := List.mem_map.1 h
  exact isCover_blank c

theorem isCover_of_mem_glyphs {x : Segment} (h : x.Complete rest) (hx : ∀ c, x ≠ .code c) :
    ∀ g ∈ x.glyphs, isCover g.code := by
  cases x with
  | code c => exact absurd rfl (hx c)
  | lineComment s => exact fun g hg => isCover_of_mem_map_blank hg
  | blockComment s => exact fun g hg => isCover_of_mem_map_blank hg
  | literal q s =>
    have hq : isCover (Glyph.keep q).code := by rcases h.1 with rfl | rfl <;> decide
    simp only [Segment.glyphs, List.forall_mem_cons, List.forall_mem_append]
    exact ⟨hq, fun g hg => isCover_of_mem_map_blank hg, hq, by simp⟩
  | textBlock s =>
    have hq : isCover (Glyph.keep '"').code := by decide
    simp only [Segment.glyphs, List.forall_mem_cons, List.forall_mem_append]
    exact ⟨hq, hq, hq, fun g hg => isCover_of_mem_map_blank hg, hq, hq, hq, by simp⟩

/-- A glyph that covers nothing is a segment of code. -/
theorem exists_eq_append_code {ss : List Segment} (h : AllComplete ss) {p q : List Glyph}
    {g : Glyph} (he : glyphsOf ss = p ++ g :: q) (hg : isCover g.code = false) :
    ∃ before after, ss = before ++ .code g.code :: after ∧ glyphsOf before = p := by
  induction ss generalizing p with
  | nil => simp [glyphsOf] at he
  | cons x ss ih =>
    rw [glyphsOf, List.flatMap_cons, ← glyphsOf] at he
    have hlater (p' : List Glyph) (hp : p = x.glyphs ++ p') (he : glyphsOf ss = p' ++ g :: q) :
        ∃ before after, x :: ss = before ++ .code g.code :: after ∧ glyphsOf before = p := by
      obtain ⟨before, after, hss, hb⟩ := ih h.2 he
      exact ⟨x :: before, after, by rw [hss]; rfl, by rw [hp, ← hb]; rfl⟩
    rcases List.append_eq_append_iff.1 he with ⟨p', hp, he⟩ | ⟨r, hx, he⟩
    · exact hlater p' hp he
    · rcases r with _ | ⟨g', r⟩
      · exact hlater [] (by simpa using hx.symm) he.symm
      · obtain ⟨rfl, -⟩ := List.cons.inj he
        by_cases hcode : ∃ c, x = .code c
        · obtain ⟨c, rfl⟩ := hcode
          obtain ⟨rfl, hgc, -⟩ : p = [] ∧ g = .keep c ∧ r = [] := by
            rcases p with _ | ⟨d, p⟩
            · simpa [Segment.glyphs, eq_comm] using hx
            · simp [Segment.glyphs] at hx
          exact ⟨[], ss, by rw [hgc]; rfl, rfl⟩
        · have hcover := isCover_of_mem_glyphs h.1 (fun c hc => hcode ⟨c, hc⟩) g (by simp [hx])
          rw [hg] at hcover
          exact absurd hcover Bool.false_ne_true

/-- The segments after the last semicolon or brace of the code. -/
def reachOf (ss : List Segment) : List Segment :=
  ss.rtakeWhile fun x => !x.endsReach

theorem inReach_of_isCover {g : Glyph} (h : isCover g.code) : inReach g := by
  simp only [isCover, Bool.or_eq_true, beq_iff_eq] at h
  rcases h with ((h | h) | h) | h <;> simp [inReach, h]

theorem inReach_keep (c : Char) : inReach (.keep c) = !(Segment.code c).endsReach :=
  rfl

theorem inReach_of_mem_glyphs {x : Segment} (h : x.Complete rest) (hx : x.endsReach = false) :
    ∀ g ∈ x.glyphs, inReach g := by
  by_cases hcode : ∃ c, x = .code c
  · obtain ⟨c, rfl⟩ := hcode
    simp [Segment.glyphs, inReach_keep, hx]
  · exact fun g hg => inReach_of_isCover (isCover_of_mem_glyphs h (fun c hc => hcode ⟨c, hc⟩) g hg)

theorem AllComplete.exists_complete {ss : List Segment} (h : AllComplete ss) :
    ∀ x ∈ ss, ∃ rest, x.Complete rest := by
  induction ss with
  | nil => simp
  | cons x ss ih =>
    rw [List.forall_mem_cons]
    exact ⟨⟨_, h.1⟩, ih h.2⟩

/-- The reach before a class is that of the segments before it. -/
theorem takeWhile_glyphsOf {ss : List Segment} (h : ∀ x ∈ ss, ∃ rest, x.Complete rest) :
    (glyphsOf ss).reverse.takeWhile inReach = (glyphsOf (reachOf ss)).reverse := by
  induction ss using List.reverseRecOn with
  | nil => rfl
  | append_singleton ss x ih =>
    have hss := ih fun y hy => h y (List.mem_append_left _ hy)
    obtain ⟨rest, hx⟩ := h x (by simp)
    have hglyphs : (glyphsOf (ss ++ [x])).reverse =
        x.glyphs.reverse ++ (glyphsOf ss).reverse := by simp [glyphsOf]
    rw [hglyphs, reachOf]
    rcases he : x.endsReach with _ | _
    · rw [List.rtakeWhile_concat_pos _ _ _ (by simp [he]), List.takeWhile_append_of_pos, hss]
      · simp [glyphsOf, reachOf]
      · exact fun g hg => inReach_of_mem_glyphs hx he g (List.mem_reverse.1 hg)
    · rw [List.rtakeWhile_concat_neg _ _ _ (by simp [he])]
      cases x with
      | code c =>
        simp [Segment.glyphs, inReach_keep, he, glyphsOf]
      | _ => simp [Segment.endsReach] at he

theorem fromLast?_eq_none {p : List Char} (hp : p ≠ []) (h : ¬p <:+: s) :
    fromLast? p s = none := by
  induction s with
  | nil =>
    rw [fromLast?, if_neg (by simpa using hp)]
  | cons c s ih =>
    rw [fromLast?, ih fun hs => h (hs.trans (List.suffix_cons c s).isInfix)]
    exact if_neg fun hpre => h (List.isPrefixOf_iff_prefix.1 hpre).isInfix

/-- A class keyword is a segment of code. -/
theorem exists_segments_before {ss : List Segment} (h : AllComplete ss) {n : ClassName}
    (hn : n ∈ classNames (mask (sourceOf ss))) :
    ∃ before after, ss = before ++ .code 'c' :: after ∧
      n.before = (glyphsOf before).reverse := by
  obtain ⟨p, m, hparts⟩ := exists_parts (List.mem_of_mem_filter hn)
  obtain ⟨g, hm, hg⟩ := Option.map_eq_some_iff.1 hparts.keyword
  obtain ⟨m, rfl⟩ := List.head?_eq_some_iff.1 hm
  have hglyphs := hparts.eq_append
  rw [mask_sourceOf h, List.cons_append] at hglyphs
  obtain ⟨before, after, hss, hbefore⟩ := exists_eq_append_code h hglyphs (by rw [hg]; decide)
  exact ⟨before, after, by rw [hss, hg], by rw [hparts.before_eq, hbefore]⟩

/-- In the text of a reach the last opening of a documentation comment is that of the segment. -/
structure Documents (doc : Segment) (reach : List Segment) : Prop where
  isJavadoc : doc.isJavadoc
  unopened : ∃ earlier later, reach = earlier ++ doc :: later ∧
    ¬"/**".toList <:+: (doc.print ++ sourceOf later).tail

theorem sourceOf_append (ss ts : List Segment) :
    sourceOf (ss ++ ts) = sourceOf ss ++ sourceOf ts :=
  List.flatMap_append

theorem sourceOf_cons (x : Segment) (ss : List Segment) :
    sourceOf (x :: ss) = x.print ++ sourceOf ss :=
  rfl

theorem docComment?_glyphsOf {before : List Segment} {n : ClassName}
    (h : ∀ x ∈ before, ∃ rest, x.Complete rest) (hn : n.before = (glyphsOf before).reverse) :
    docComment? n.before = (fromLast? "/**".toList (sourceOf (reachOf before))).bind fun text =>
      (breakOn? "*/".toList text).map fun x => x.1 ++ "*/".toList := by
  rw [docComment?_eq, hn, takeWhile_glyphsOf h, List.reverse_reverse, map_raw_glyphsOf]

/-- A documentation comment does not close before its end. -/
theorem not_infix_javadoc (h : ¬['*', '/'] <:+: '*' :: s) :
    ¬['*', '/'] <:+: '/' :: '*' :: '*' :: s := by
  simp only [List.infix_cons_iff, List.cons_prefix_cons] at h ⊢
  simpa using h

theorem docComment?_of_documents {before : List Segment} {doc : Segment} {n : ClassName}
    (h : ∀ x ∈ before, ∃ rest, x.Complete rest) (hn : n.before = (glyphsOf before).reverse)
    (hdoc : Documents doc (reachOf before)) : docComment? n.before = some doc.print := by
  obtain ⟨hjavadoc, earlier, later, hreach, hopen⟩ := hdoc
  have hmem : doc ∈ before := by
    refine (List.rtakeWhile_suffix (fun x : Segment => !x.endsReach) before).subset ?_
    rw [← reachOf, hreach]
    simp
  obtain ⟨rest, hcomplete⟩ := h doc hmem
  cases doc with
  | blockComment content =>
    obtain ⟨s, rfl⟩ := List.head?_eq_some_iff.1 (by simpa [Segment.isJavadoc] using hjavadoc)
    have hprint : (Segment.blockComment ('*' :: s)).print ++ sourceOf later =
        ('/' :: '*' :: '*' :: s) ++ ("*/".toList ++ sourceOf later) := by simp [Segment.print]
    have hlast : fromLast? "/**".toList ((Segment.blockComment ('*' :: s)).print ++ sourceOf later) =
        some ((Segment.blockComment ('*' :: s)).print ++ sourceOf later) :=
      fromLast?_self (p := ['*', '*']) (fromLast?_eq_none (by simp) hopen)
    rw [docComment?_glyphsOf h hn, hreach, sourceOf_append, sourceOf_cons,
      fromLast?_append hlast, Option.bind_some, hprint,
      breakOn?_comment (not_infix_javadoc hcomplete)]
    simp [Segment.print]
  | _ => simp [Segment.isJavadoc] at hjavadoc

theorem tags_of_read {package : String} {source : Option String} {n : ClassName} {d : Declaration}
    (h : n.read package source = .declared d) : d.tags = scannedTags n.before := by
  unfold ClassName.read at h
  dsimp only at h
  split at h
  · simp at h
  · split_ifs at h
    · split at h
      · simp at h
      · split_ifs at h
        simp only [Finding.declared.injEq] at h
        rw [← h]
        rfl
    · simp only [Finding.declared.injEq] at h
      rw [← h]
      rfl

/-- The tags of a class are those of the last documentation comment of its reach, if the last opening
in the text of the reach is that of this comment, and it has none if there is no opening. -/
theorem tags_of_segments {ss : List Segment} (h : AllComplete ss) {n : ClassName}
    (hn : n ∈ classNames (mask (sourceOf ss))) :
    (∃ before after, ss = before ++ .code 'c' :: after ∧ n.before = (glyphsOf before).reverse) ∧
    ∀ before after, ss = before ++ after → n.before = (glyphsOf before).reverse →
      ∀ package source d, n.read package source = .declared d →
        (∀ doc, Documents doc (reachOf before) → d.tags = docTags doc.print) ∧
        (¬"/**".toList <:+: sourceOf (reachOf before) → d.tags = []) := by
  refine ⟨exists_segments_before h hn, fun before after hss hbefore package source d hd => ?_⟩
  have hcomplete : ∀ x ∈ before, ∃ rest, x.Complete rest := fun x hx =>
    h.exists_complete x (by simp [hss, hx])
  rw [tags_of_read hd, scannedTags]
  refine ⟨fun doc hdoc => ?_, fun hopen => ?_⟩
  · rw [docComment?_of_documents hcomplete hbefore hdoc]
    rfl
  · rw [docComment?_glyphsOf hcomplete hbefore, fromLast?_eq_none (by simp) hopen]
    rfl

deriving instance DecidableEq for ClassName

def codeOf (text : String) : List Segment :=
  text.toList.map .code

def eventDoc : Segment :=
  .blockComment "* @event ".toList

/-- The comment of an event, then an annotation that names a text, then a class. -/
def annotated (text : String) : List Segment :=
  eventDoc :: codeOf "\n@Named(" ++ .literal '"' text.toList :: codeOf ")\nclass A \x7b\x7d\n"

/-- A literal without an opening leaves the tags of the class. -/
theorem tags_of_annotated :
    AllComplete (annotated "x") ∧ ∃ n ∈ classNames (mask (sourceOf (annotated "x"))),
      ∃ d, n.read "" none = .declared d ∧ d.tags = docTags eventDoc.print := by
  have hcomplete : AllComplete (annotated "x") := by decide +kernel
  let before : List Segment :=
    eventDoc :: codeOf "\n@Named(" ++ .literal '"' ['x'] :: codeOf ")\n"
  let n : ClassName := ⟨(glyphsOf before).reverse, ['A'], " \x7b\x7d\n".toList.map .keep⟩
  let d : Declaration := ⟨"", "A", none, [], scannedTags n.before, [], none⟩
  have hn : n ∈ classNames (mask (sourceOf (annotated "x"))) := by decide +kernel
  have hd : n.read "" none = .declared d := by decide +kernel
  have hdoc : Documents eventDoc (reachOf before) :=
    ⟨by decide +kernel, [], before.tail, by decide +kernel, by decide +kernel⟩
  exact ⟨hcomplete, n, hn, d, hd, ((tags_of_segments hcomplete hn).2 before
    (codeOf "class A \x7b\x7d\n") (by decide +kernel) rfl "" none d hd).1 eventDoc hdoc⟩

/-- An opening in a literal takes the tags of the class away. -/
theorem scan_annotated_opening :
    AllComplete (annotated "/**") ∧
      String.ofList (sourceOf (annotated "/**")) =
        "/** @event */\n@Named(\"/**\")\nclass A \x7b\x7d\n" ∧
      scan none (String.ofList (sourceOf (annotated "/**"))) =
        .ok [⟨"", "A", none, [], [], [], none⟩] ∧
      docTags eventDoc.print ≠ [] := by
  refine ⟨by decide +kernel, by decide +kernel, by decide +kernel, by decide +kernel⟩

end Companion.Java
