import Companion.Proofs.DocComment
import Companion.Proofs.SourceConstructors

/-!
# The scanner inverts the printer

The scan of a written compilation unit gives the declarations that it was written with
(`scan_print`), if no documentation comment ends such that another one opens where it closes. The
class keywords of a class body are those of the nested classes (`ClassBody.findings_glyphs`), and
each is read as its class was written (`read_class`).
-/

namespace Companion.Java.Syntax

open Text
open Unicode (isBlank isWordChar)

variable {k s t m rest : List Char} {c z : Char} {before gs hs : List Glyph} {bs : List Block}

/-- The class names that declare a class, in glyphs that follow the glyphs `before`, which are given
with the last one first. -/
def namesFrom (before gs : List Glyph) : List ClassName :=
  (classNamesFrom before gs).filter (!·.isLiteral)

theorem namesFrom_cons (hz : isWordChar z = false) (before gs : List Glyph) :
    namesFrom before (.keep z :: gs) = namesFrom (.keep z :: before) gs := by
  have hword : ∀ c ∈ [z], isWordChar c = false := by simp [hz]
  have hskip : classNamesFrom before ([.keep z] ++ gs) =
      classNamesFrom ([.keep z].reverse ++ before) gs :=
    classNamesFrom_append_of_lacks (lacks_of_no_word (by decide) hword) (endsWords_concat hz [])
  exact congrArg _ hskip

theorem Passable.namesFrom_append (h : Passable "class".toList gs bs) (before hs : List Glyph) :
    namesFrom before (gs ++ hs) = namesFrom (gs.reverse ++ before) hs := by
  induction h generalizing before hs with
  | code hlacks hend _ =>
    rw [namesFrom, classNamesFrom_append_of_lacks hlacks hend]
    rfl
  | block b =>
    have htext : enclosed (mask b.text) ++ hs =
        .keep '\x7b' :: (mask b.text ++ .keep '\x7d' :: hs) := by
      simp [enclosed]
    have hreverse : (enclosed (mask b.text)).reverse ++ before =
        .keep '\x7d' :: ((mask b.text).reverse ++ .keep '\x7b' :: before) := by
      simp [enclosed]
    have hinner : classNamesFrom ([] ++ .keep '\x7b' :: before) (mask b.text ++ .keep '\x7d' :: hs) =
        _ := classNamesFrom_append (by decide) (by decide) fun _ g hg => by
      rw [← Option.some.inj hg]
      decide
    have hliteral : ((!·.isLiteral) ∘
        ClassName.between (.keep '\x7b' :: before) (.keep '\x7d' :: hs)) = (!·.isLiteral) :=
      funext fun n => congrArg _ (isLiteral_between (by decide) (by decide) n)
    have hnone : ((classNamesFrom [] (mask b.text)).map
        (ClassName.between (.keep '\x7b' :: before) (.keep '\x7d' :: hs))).filter
          (!·.isLiteral) = [] := by
      rw [List.filter_map, hliteral, List.map_eq_nil_iff]
      exact b.classless
    rw [htext, namesFrom_cons (by decide), hreverse,
      ← namesFrom_cons (z := '\x7d') (by decide), namesFrom]
    rw [List.nil_append] at hinner
    rw [hinner, List.filter_append, hnone]
    rfl
  | @braces gs bs h ih =>
    have htext : enclosed gs ++ hs = .keep '\x7b' :: (gs ++ .keep '\x7d' :: hs) := by simp [enclosed]
    have hreverse : (enclosed gs).reverse ++ before =
        .keep '\x7d' :: (gs.reverse ++ .keep '\x7b' :: before) := by simp [enclosed]
    rw [htext, hreverse, namesFrom_cons (by decide), ih,
      namesFrom_cons (by decide)]
  | append _ _ ihgs ihhs =>
    rw [List.append_assoc, ihgs, ihhs, List.reverse_append, List.append_assoc]

theorem Lacks.maskedText (hk : k ≠ []) (h : Lacks k (s ++ gs.map Glyph.code)) :
    Lacks k (s ++ maskedText gs) := by
  have hblanks (n : Nat) {t : List Char} (ht : Lacks k t) : Lacks k (List.replicate n ' ' ++ t) := by
    induction n with
    | zero => exact ht
    | succ n ih => exact (lacks_cons hk (by decide)).2 ih
  induction gs generalizing s with
  | nil => exact h
  | cons g gs ih =>
    rw [List.map_cons] at h
    rw [maskedText_cons]
    by_cases hspace : g.code = ' '
    · obtain ⟨n, hn⟩ := text_eq_cons g
      rw [hspace] at h hn
      obtain ⟨hs, hrest⟩ := (lacks_append_cons (by decide)).1 h
      rw [hn, List.replicate_succ, List.cons_append]
      exact (lacks_append_cons (by decide)).2 ⟨hs, hblanks n (ih (s := []) hrest)⟩
    · rw [text_of_ne hspace, ← List.append_assoc]
      exact ih (by simpa using h)

theorem getLast?_maskedText (gs : List Glyph) :
    (maskedText gs).getLast? = gs.getLast?.map Glyph.code := by
  rw [← List.head?_reverse, ← maskedText_reverse, head?_maskedText, List.head?_reverse]

theorem readFirst?_package_cons (hz : isWordChar z = false) (before : Option Char)
    (s : List Char) :
    readFirst? packageClause? before (z :: s) = readFirst? packageClause? (some z) s := by
  have hword : ∀ c ∈ [z], isWordChar c = false := by simp [hz]
  exact readFirst?_append_of_lacks readsAfter_packageClause? (by decide) (by decide)
    (lacks_of_no_word (by decide) hword) (endsWords_concat hz [])

/-- A package clause is looked for behind what is passed over. -/
theorem Passable.findPackage?_append (h : Passable "package".toList gs bs)
    (hbs : ∀ b ∈ bs, findPackage? (maskedText (mask b.text)) = none) (before : Option Char)
    (rest : List Char) :
    readFirst? packageClause? before (maskedText gs ++ rest) =
      readFirst? packageClause? ((maskedText gs).getLast?.or before) rest := by
  induction h generalizing before rest with
  | code hlacks hend _ =>
    refine readFirst?_append_of_lacks readsAfter_packageClause? (by decide) (by decide)
      (Lacks.maskedText (s := []) (by decide) hlacks) fun c hc => ?_
    rw [getLast?_maskedText, ← List.getLast?_map] at hc
    exact hend c hc
  | block b =>
    have hlast : (maskedText (enclosed (mask b.text))).getLast? = some '\x7d' := by
      rw [maskedText_enclosed, ← List.cons_append, List.getLast?_concat]
    have htext : maskedText (enclosed (mask b.text)) ++ rest =
        '\x7b' :: (maskedText (mask b.text) ++ '\x7d' :: rest) := by
      simp [maskedText_enclosed]
    rw [hlast, htext, readFirst?_package_cons (by decide),
      Java.findPackage?_append (hbs b List.mem_cons_self),
      readFirst?_package_cons (by decide)]
    rfl
  | @braces gs bs h ih =>
    have hlast : (maskedText (enclosed gs)).getLast? = some '\x7d' := by
      rw [maskedText_enclosed, ← List.cons_append, List.getLast?_concat]
    have htext : maskedText (enclosed gs) ++ rest =
        '\x7b' :: (maskedText gs ++ '\x7d' :: rest) := by
      simp [maskedText_enclosed]
    rw [hlast, htext, readFirst?_package_cons (by decide), ih hbs,
      readFirst?_package_cons (by decide)]
    rfl
  | append _ _ ihgs ihhs =>
    rw [maskedText_append, List.append_assoc, ihgs fun b hb => hbs b (List.mem_append_left _ hb),
      ihhs fun b hb => hbs b (List.mem_append_right _ hb), List.getLast?_append, Option.or_assoc]

/-! ## Class names -/

theorem map_code_map_keep_append (s : List Char) (gs : List Glyph) :
    (s.map Glyph.keep ++ gs).map Glyph.code = s ++ gs.map Glyph.code := by
  rw [List.map_append, map_code_keep]

theorem takeWhile_append_stop {α : Type*} {p : α → Bool} {l r : List α} (hl : ∀ x ∈ l, p x)
    (hr : ∀ x ∈ r.head?, p x = false) : (l ++ r).takeWhile p = l ∧ (l ++ r).dropWhile p = r := by
  rw [List.takeWhile_append_of_pos hl, List.dropWhile_append_of_pos hl]
  rcases r with _ | ⟨x, r⟩
  · simp
  · have hx : ¬p x := by simp [hr x rfl]
    rw [List.takeWhile_cons_of_neg hx, List.dropWhile_cons_of_neg hx, List.append_nil]
    exact ⟨rfl, rfl⟩

def classGlyphs (i : Ident) : List Glyph :=
  ("class".toList ++ ' ' :: i.text).map .keep

theorem classGlyphs_eq (i : Ident) : classGlyphs i = ("class".toList ++ ' ' :: i.text).map .keep :=
  rfl

theorem isNameStart_of_isLetter (h : isLetter c) : isNameStart c := by
  simp only [isLetter, Bool.or_eq_true] at h
  simp only [isNameStart, Bool.or_eq_true]
  exact .inl h

theorem drop_classGlyphs (i : Ident) (gs : List Glyph) :
    (classGlyphs i ++ gs).drop "class".length = .keep ' ' :: (i.text.map .keep ++ gs) := by
  have hlength : ("class".toList.map Glyph.keep).length = "class".length := rfl
  rw [classGlyphs_eq, List.map_append, List.append_assoc, List.drop_left' hlength, List.map_cons,
    List.cons_append]

theorem Ident.isNameChar (i : Ident) : ∀ c ∈ i.text, isNameChar c := fun c hc => by
  simp [Java.isNameChar, i.isWordChar c hc]

theorem Ident.exists_cons (i : Ident) :
    ∃ c w, i.text = c :: w ∧ isNameStart c ∧ isBlank c = false := by
  obtain ⟨c, w, hw⟩ := List.exists_cons_of_ne_nil i.ne_nil
  have hmem : c ∈ i.text := by
    rw [hw]
    exact List.mem_cons_self
  exact ⟨c, w, hw, isNameStart_of_isLetter (i.isLetter_head c (by rw [hw]; rfl)),
    isBlank_of_isLetterOrDigit (i.isLetterOrDigit c hmem)⟩

/-- The name after the class keyword is read up to where no name goes on. -/
theorem nameAfterClass?_classGlyphs (i : Ident) (h : ∀ g ∈ gs.head?, isNameChar g.code = false) :
    nameAfterClass? (classGlyphs i ++ gs) = some i.text := by
  have hspace : isBlank ' ' := by decide
  have htake : ((classGlyphs i ++ gs).take "class".length).map Glyph.code = "class".toList := by
    have hlength : ("class".toList.map Glyph.keep).length = "class".length := rfl
    rw [classGlyphs_eq, List.map_append, List.append_assoc, List.take_left' hlength, map_code_keep]
  have hname := i.isNameChar
  obtain ⟨c, w, hw, hstart, hblank⟩ := i.exists_cons
  rw [hw, List.forall_mem_cons] at hname
  have hhead : ∀ x ∈ (gs.map Glyph.code).head?, isNameChar x = false := by
    intro x hx
    rw [List.head?_map] at hx
    obtain ⟨g, hg, rfl⟩ := Option.map_eq_some_iff.1 hx
    exact h g hg
  have hafter : afterBlank? (' ' :: (c :: w ++ gs.map Glyph.code)) =
      some (c :: (w ++ gs.map Glyph.code)) := by
    rw [afterBlank?, if_pos (by simp [hspace]), trimStart_cons_of_blank hspace, List.cons_append,
      trimStart_cons_of_not hblank]
  have hcode : (Glyph.keep ' ').code = ' ' := rfl
  rw [nameAfterClass?, if_pos htake, drop_classGlyphs, List.map_cons, map_code_map_keep_append, hw,
    hcode, hafter]
  simp only
  rw [if_pos hstart, (takeWhile_append_stop hname.2 hhead).1]

theorem glyphsAfterName_classGlyphs (i : Ident) (h : ∀ g ∈ gs.head?, isNameChar g.code = false) :
    glyphsAfterName (classGlyphs i ++ gs) = gs := by
  have hspace : isBlank ' ' := by decide
  have hname := i.isNameChar
  obtain ⟨c, w, hw, -, hblank⟩ := i.exists_cons
  rw [hw, List.forall_mem_cons] at hname
  have hall : ∀ g ∈ w.map Glyph.keep, isNameChar g.code := by
    intro g hg
    obtain ⟨d, hd, rfl⟩ := List.mem_map.1 hg
    exact hname.2 d hd
  have hskip : ((Glyph.keep ' ' :: ((c :: w).map Glyph.keep ++ gs)).dropWhile
      fun g => isBlank g.code) = .keep c :: (w.map .keep ++ gs) := by
    rw [List.dropWhile_cons_of_pos (p := fun g : Glyph => isBlank g.code) hspace, List.map_cons,
      List.cons_append, List.dropWhile_cons_of_neg (by simpa [Glyph.keep] using hblank)]
  rw [glyphsAfterName, drop_classGlyphs, hw, hskip,
    List.drop_succ_cons, List.drop_zero, (takeWhile_append_stop hall h).2]

/-- A class keyword behind a space, before which no dot stands, declares a class. -/
theorem namesFrom_classGlyphs (i : Ident) (h : ∀ g ∈ gs.head?, isNameChar g.code = false)
    (hdot : (⟨before, i.text, gs⟩ : ClassName).isLiteral = false)
    (hspace : before.head? = some (.keep ' ')) :
    namesFrom before (classGlyphs i ++ gs) =
      ⟨before, i.text, gs⟩ :: namesFrom ((classGlyphs i).reverse ++ before) gs := by
  have hname := nameAfterClass?_classGlyphs i h
  have hafter := glyphsAfterName_classGlyphs i h
  have hcons : classGlyphs i ++ gs = .keep 'c' :: (("lass ".toList ++ i.text).map .keep ++ gs) := rfl
  rw [hcons] at hname hafter
  have hb : isBoundary (before.head?.map Glyph.code) (some 'c') := by
    rw [hspace]
    decide
  unfold namesFrom
  rw [hcons, classNamesFrom_cons_of_some hb hname (by rw [hafter]; rfl : _ = classGlyphs i ++ _),
    hafter, List.filter_cons_of_pos (by rw [hdot]; rfl)]

/-- No documentation comment opens in what stands between one and the class keyword. -/
theorem fromLast?_content (hopen : ¬"/**".toList <:+: s) (hend : ¬"/*".toList <:+ s) :
    fromLast? "/**".toList (s ++ "*/\npublic ".toList) = none := by
  induction s with
  | nil => decide
  | cons c s ih =>
    have hrest := ih (fun h => hopen (h.trans (List.suffix_cons c s).isInfix))
      fun h => hend (h.trans (List.suffix_cons c s))
    have hprefix : ¬"/**".toList.isPrefixOf (c :: s ++ "*/\npublic ".toList) := by
      rw [List.isPrefixOf_iff_prefix, show "/**".toList = ['/', '*', '*'] from rfl]
      intro hp
      rcases s with _ | ⟨d, _ | ⟨e, s⟩⟩
      · simp at hp
      · simp only [List.cons_append, List.cons_prefix_cons] at hp
        exact hend ⟨[], by rw [← hp.1, ← hp.2.1]; rfl⟩
      · simp only [List.cons_append, List.cons_prefix_cons] at hp
        exact hopen ⟨[], s, by rw [← hp.1, ← hp.2.1, ← hp.2.2.1]; rfl⟩
    rw [List.cons_append, fromLast?, hrest]
    exact if_neg hprefix

/-- A declaration after the glyphs `before` reaches back over line feeds only. -/
def Settled (before : List Glyph) : Prop :=
  ∀ g ∈ before.takeWhile inReach, g = .keep '\n'

theorem settled_cons (hz : z ∈ [';', '\x7b', '\x7d']) (gs : List Glyph) :
    Settled (.keep '\n' :: .keep z :: gs) := by
  have hfeed : inReach (.keep '\n') := by decide
  have hstop : ¬inReach (.keep z) := by
    revert z
    decide
  rw [Settled, List.takeWhile_cons_of_pos hfeed, List.takeWhile_cons_of_neg hstop]
  simp

theorem ClassHead.map_raw_frontGlyphs (h : ClassHead) : h.frontGlyphs.map Glyph.raw = h.front := by
  have hkeep (s : List Char) : (s.map Glyph.keep).map Glyph.raw = s := by
    rw [List.map_map]
    exact List.map_id s
  unfold frontGlyphs docGlyphs front
  rw [List.map_append, hkeep]
  rcases h.javadoc with _ | d
  · rfl
  · simp only [Option.elim_some, List.map_append, map_raw_blank]
    rfl

theorem ClassHead.code_frontGlyphs (h : ClassHead) :
    ∀ g ∈ h.frontGlyphs, inReach g := by
  have hpublic : ∀ g ∈ "public ".toList.map Glyph.keep, inReach g := by decide
  intro g hg
  rcases List.mem_append.1 hg with hg | hg
  · rcases h.code_docGlyphs g hg with hcode | hcode <;>
    · rw [inReach, hcode]
      decide
  · exact hpublic g hg

/-- The documentation comment is looked for in the text of the class before its keyword. -/
theorem docComment?_frontGlyphs (h : ClassHead) (hb : Settled before) :
    ∃ l, (∀ c ∈ l, c = '\n') ∧ docComment? (h.frontGlyphs.reverse ++ before) =
      (fromLast? "/**".toList (l ++ h.front)).bind fun text =>
        (breakOn? "*/".toList text).map fun x => x.1 ++ "*/".toList := by
  refine ⟨(before.takeWhile inReach).reverse.map Glyph.raw, ?_, ?_⟩
  · intro c hc
    obtain ⟨g, hg, rfl⟩ := List.mem_map.1 hc
    rw [hb g (List.mem_reverse.1 hg)]
    rfl
  · rw [docComment?_eq, List.takeWhile_append_of_pos fun g hg =>
      h.code_frontGlyphs g (List.mem_reverse.1 hg), List.reverse_append, List.reverse_reverse,
      List.map_append, h.map_raw_frontGlyphs]

/-- The tags that are read are those of the class. -/
theorem scannedTags_frontGlyphs (h : ClassHead) (hb : Settled before)
    (hdoc : ∀ d ∈ h.javadoc, d.EndsOnce) : scannedTags (h.frontGlyphs.reverse ++ before) = h.tags := by
  obtain ⟨l, hl, hcomment⟩ := docComment?_frontGlyphs h hb
  have hslash : '/' ∉ l := fun hmem => absurd (hl '/' hmem) (by decide)
  rw [scannedTags, hcomment]
  unfold ClassHead.front ClassHead.tags
  rcases hjavadoc : h.javadoc with _ | d
  · have hnone : fromLast? "/**".toList (l ++ "public ".toList) = none :=
      fromLast?_of_not_mem (z := '/') fun hmem => (List.mem_append.1 hmem).elim hslash (by decide)
    simp only [Option.elim_none, List.nil_append, hnone]
    rfl
  · have hend := hdoc d hjavadoc
    have htext : d.print ++ ['\n'] ++ "public ".toList =
        "/**".toList ++ (d.content ++ "*/\npublic ".toList) := by
      simp [Javadoc.print]
    have hlast : fromLast? "/**".toList (d.print ++ ['\n'] ++ "public ".toList) =
        some (d.print ++ ['\n'] ++ "public ".toList) := by
      have hrest := fromLast?_cons_of_ne (c := '*')
        (fromLast?_cons_of_ne (c := '*') (fromLast?_content d.unopened hend) (by decide)) (by decide)
      rw [htext]
      exact fromLast?_self (z := '/') (p := ['*', '*']) hrest
    have hbreak : breakOn? "*/".toList (d.print ++ ['\n'] ++ "public ".toList) =
        some ("/**".toList ++ d.content, "\npublic ".toList) := by
      have htext : d.print ++ ['\n'] ++ "public ".toList =
          ("/**".toList ++ d.content) ++ ("*/".toList ++ "\npublic ".toList) := by
        simp [Javadoc.print]
      rw [htext]
      exact breakOn?_comment (not_infix_javadoc d.not_infix) _
    rw [Option.elim_some, fromLast?_append hlast, Option.bind_some, hbreak]
    simp [Javadoc.print]

/-! ## Classes -/

def afterName (head : ClassHead) (body : ClassBody) (gs : List Glyph) : List Glyph :=
  head.tail.map .keep ++ (enclosed (.keep '\n' :: body.glyphs head.name) ++ gs)

theorem maskedText_afterName (head : ClassHead) (body : ClassBody) (gs : List Glyph) :
    maskedText (afterName head body gs) = head.tail ++
      '\x7b' :: ('\n' :: maskedText (body.glyphs head.name) ++ '\x7d' :: maskedText gs) := by
  rw [afterName, maskedText_append, maskedText_append, maskedText_keep, maskedText_enclosed,
    maskedText_cons_feed]
  simp

theorem takeWhile_brace (ht : '\x7b' ∉ t) (r : List Char) :
    (t ++ '\x7b' :: r).takeWhile (· != '\x7b') = t ∧
      (t ++ '\x7b' :: r).dropWhile (· != '\x7b') = '\x7b' :: r := by
  refine takeWhile_append_stop (fun c hc => ?_) ?_
  · rw [bne_iff_ne]
    rintro rfl
    exact ht hc
  · rintro x ⟨⟩
    rfl

theorem ClassText.ofAfter?_append (ht : '\x7b' ∉ t) (hm : Balanced '\x7b' '\x7d' 0 m)
    (r : List Char) :
    Java.ClassText.ofAfter? (t ++ '\x7b' :: (m ++ '\x7d' :: r)) = some ⟨t, m⟩ := by
  obtain ⟨htake, hdrop⟩ := takeWhile_brace ht (m ++ '\x7d' :: r)
  have hclosing : closing? '\x7b' '\x7d' (m ++ '\x7d' :: r) = some (m, r) :=
    (closing?_eq_some_iff (by decide)).2 ⟨rfl, hm⟩
  rw [Java.ClassText.ofAfter?, hdrop, htake]
  simp only [hclosing, Option.map_some]

theorem constructors_body (head : ClassHead) (body : ClassBody) :
    Java.constructors (String.ofList head.name.text) (head.scope.map fun i => String.ofList i.text)
        ('\n' :: maskedText (body.glyphs head.name)) =
      body.constructors head.name head.scope := by
  have hfresh : Fresh ['\n'] := ⟨[], rfl, by simp⟩
  rw [← body.constructorsFrom_glyphs head.name head.scope hfresh,
    ← constructorsFrom_cons head.name head.scope (by decide) (by decide), constructorsFrom,
    Java.constructors, String.toList_ofList]

theorem ClassHead.head?_trimStart_clauses (h : ClassHead) :
    (trimStart h.clauses).head? ≠ some '<' := by
  have hspace : isBlank ' ' := by decide
  obtain ⟨r, hr, hangle⟩ := h.interfaceClause_eq_cons
  unfold clauses
  rcases h.superclass with _ | s
  · rwa [Option.elim_none, List.nil_append, hr, trimStart_cons_of_blank hspace]
  · have htrim : trimStart (" extends ".toList ++ s.print ++ h.interfaceClause) =
        "extends ".toList ++ s.print ++ h.interfaceClause :=
      (trimStart_cons_of_blank hspace).trans (trimStart_cons_of_not (by decide))
    rw [Option.elim_some, htrim]
    exact fun h => absurd (Option.some.inj h) (by decide)

/-- What the scanner reads of a class with a body that it sees as the text `body`. -/
def headedDeclaration (package : List Char) (source : Option String) (head : ClassHead)
    (before : List Glyph) (body : List Char) : Declaration where
  package := String.ofList package
  name := String.ofList head.name.text
  superclass := head.superclass.map fun s => typeRef head.scope s.print s.erasure
  typeParameters := head.scope.map fun i => String.ofList i.text
  tags := scannedTags before
  constructors := Java.constructors (String.ofList head.name.text)
    (head.scope.map fun i => String.ofList i.text) body
  source := source

/-- A class is read as its head is written, whatever its body holds. -/
theorem read_headed (package : List Char) (source : Option String) (head : ClassHead)
    (hm : Balanced '\x7b' '\x7d' 0 m) (before : List Glyph) {after : List Glyph}
    (hafter : maskedText after = head.tail ++ '\x7b' :: (m ++ '\x7d' :: rest)) :
    ClassName.read (String.ofList package) source ⟨before, head.name.text, after⟩ =
      .declared (headedDeclaration package source head before m) := by
  have htail : '\x7b' ∉ head.tail := fun hmem =>
    (head.frontText_tail class_mem_openers).not_bracket _ hmem (by decide)
  have hdeclaration (clauses : List Char) (names : List String) (hclauses : clauses = head.clauses)
      (hnames : names = head.scope.map fun i => String.ofList i.text) :
      Java.declarationOf (String.ofList package) source ⟨before, head.name.text, after⟩
        ⟨names, clauses⟩ m = headedDeclaration package source head before m := by
    subst hclauses hnames
    simp only [Java.declarationOf, superclass?_clauses]
    rfl
  rw [ClassName.read]
  simp only [hafter, ClassText.ofAfter?_append htail hm]
  generalize hrest : '\x7b' :: (m ++ '\x7d' :: rest) = r
  by_cases hnil : head.typeParams = []
  · have hclauses : head.tail = head.clauses := by simp [ClassHead.tail, printTypeParams, hnil, angled]
    rw [hclauses, if_neg head.head?_trimStart_clauses,
      hdeclaration head.clauses [] rfl (by simp [ClassHead.scope, hnil])]
  · have hlist := listText_listed (by simpa using hnil) (typeText_typeParams head.typeParams)
    have hangle : head.tail = '<' :: (listed (head.typeParams.map TypeParam.print) ++
        '>' :: head.clauses) := by
      simp [ClassHead.tail, printTypeParams, hnil, angled]
    have hclosing : closing? '<' '>' (listed (head.typeParams.map TypeParam.print) ++
        '>' :: (head.clauses ++ r)) =
          some (listed (head.typeParams.map TypeParam.print), head.clauses ++ r) :=
      (closing?_eq_some_iff (by decide)).2 ⟨rfl, hlist.balanced⟩
    have hinside : '\x7b' ∉ listed (head.typeParams.map TypeParam.print) := fun hmem =>
      absurd (hlist.chars _ hmem) (by decide)
    have hclauses : '\x7b' ∉ head.clauses := fun hmem =>
      (head.frontText_clauses class_mem_openers).not_bracket _ hmem (by decide)
    rw [hangle, trimStart_cons_of_not (by decide), if_pos List.head?_cons, List.cons_append,
      trimStart_cons_of_not (by decide), List.drop_succ_cons, List.drop_zero, List.append_assoc,
      List.cons_append]
    simp only [hclosing]
    rw [if_neg hinside, ← hrest, (takeWhile_brace hclauses _).1,
      hdeclaration head.clauses _ rfl (typeParameterNames_listed head.typeParams)]

/-- What a class declares, with the tags that the scanner reads before its keyword. -/
def scannedDeclaration (package : List Char) (source : Option String) (head : ClassHead)
    (body : ClassBody) (before : List Glyph) : Declaration :=
  { declarationOf package source head body with tags := scannedTags before }

/-- A class is read as it is written. -/
theorem read_class (package : List Char) (source : Option String) (head : ClassHead)
    (body : ClassBody) (before gs : List Glyph) :
    ClassName.read (String.ofList package) source ⟨before, head.name.text, afterName head body gs⟩ =
      .declared (scannedDeclaration package source head body before) := by
  have hbody : Balanced '\x7b' '\x7d' 0 ('\n' :: maskedText (body.glyphs head.name)) :=
    (balanced_cons_of_ne (by decide) (by decide)).2 (body.balanced head.name)
  rw [read_headed package source head hbody before (maskedText_afterName head body gs),
    headedDeclaration, constructors_body]
  rfl

/-! ## Class bodies -/

variable (package : List Char) (source : Option String)

/-- What the glyphs hold, class name by class name, behind the glyphs `before`. -/
def findingsFrom (before gs : List Glyph) : List Finding :=
  (namesFrom before gs).map (ClassName.read (String.ofList package) source)

theorem findingsFrom_nil (before : List Glyph) : findingsFrom package source before [] = [] := by
  simp [findingsFrom, namesFrom, classNamesFrom]

theorem findingsFrom_append (h : Passable "class".toList gs bs) (before hs : List Glyph) :
    findingsFrom package source before (gs ++ hs) =
      findingsFrom package source (gs.reverse ++ before) hs := by
  rw [findingsFrom, h.namesFrom_append]
  rfl

theorem findingsFrom_cons (hz : isWordChar z = false) (before gs : List Glyph) :
    findingsFrom package source before (.keep z :: gs) =
      findingsFrom package source (.keep z :: before) gs := by
  rw [findingsFrom, namesFrom_cons hz]
  rfl

theorem isNameChar_afterName (head : ClassHead) (body : ClassBody) (gs : List Glyph) :
    ∀ g ∈ (afterName head body gs).head?, isNameChar g.code = false := by
  obtain ⟨r, hr⟩ := head.clauses_eq_cons
  unfold afterName ClassHead.tail printTypeParams angled
  rw [hr]
  split_ifs <;>
  · rintro g ⟨⟩
    decide

/-- A class and a line feed. -/
def classLines (head : ClassHead) (body : ClassBody) : List Glyph :=
  head.glyphs ++ (enclosed (.keep '\n' :: body.glyphs head.name) ++ [.keep '\n'])

/-- The scanner finds a class, then what its body holds, and then what follows. -/
theorem findingsFrom_class (head : ClassHead) (body : ClassBody) (before gs : List Glyph)
    {inner : List Finding}
    (hinner : ∀ before hs, Settled before →
      findingsFrom package source before (body.glyphs head.name ++ hs) =
        inner ++ findingsFrom package source ((body.glyphs head.name).reverse ++ before) hs) :
    findingsFrom package source before (classLines head body ++ gs) =
      .declared (scannedDeclaration package source head body (head.frontGlyphs.reverse ++ before)) ::
      (inner ++ findingsFrom package source ((classLines head body).reverse ++ before) gs) := by
  let front := head.frontGlyphs.reverse ++ before
  have htext : classLines head body ++ gs =
      head.frontGlyphs ++ (classGlyphs head.name ++ afterName head body (.keep '\n' :: gs)) := by
    simp [classLines, afterName, ClassHead.glyphs, classGlyphs_eq]
  have hfront : ∃ r, front = .keep ' ' :: .keep 'c' :: r := by
    refine ⟨(head.docGlyphs ++ "publi".toList.map Glyph.keep).reverse ++ before, ?_⟩
    simp [front, ClassHead.frontGlyphs]
  have hbody : findingsFrom package source ((classGlyphs head.name).reverse ++ front)
      (afterName head body (.keep '\n' :: gs)) =
        inner ++ findingsFrom package source ((classLines head body).reverse ++ before) gs := by
    have htail := (head.frontText_tail class_mem_openers).passable (head.endsWords_tail [])
    have hinside : enclosed (.keep '\n' :: body.glyphs head.name) ++ .keep '\n' :: gs =
        .keep '\x7b' :: .keep '\n' :: (body.glyphs head.name ++
          .keep '\x7d' :: .keep '\n' :: gs) := by
      simp [enclosed]
    rw [afterName, findingsFrom_append package source htail, hinside,
      findingsFrom_cons package source (by decide),
      findingsFrom_cons package source (by decide),
      hinner _ _ (settled_cons (by decide) _),
      findingsFrom_cons package source (by decide),
      findingsFrom_cons package source (by decide)]
    simp [classLines, enclosed, ClassHead.glyphs, classGlyphs_eq, front]
  obtain ⟨r, hr⟩ := hfront
  have hdot : (⟨front, head.name.text, afterName head body (.keep '\n' :: gs)⟩ :
      ClassName).isLiteral = false := by
    rw [ClassName.isLiteral, hr]
    rfl
  rw [htext, findingsFrom_append package source (head.passable_frontGlyphs class_mem_openers),
    findingsFrom, namesFrom_classGlyphs head.name (isNameChar_afterName head body _) hdot
      (by rw [hr]; rfl), List.map_cons, read_class, ← findingsFrom, hbody]

theorem settled_signature (gs : List Glyph) (g : Signature) (before : List Glyph) :
    Settled ((gs ++ g.glyphs).reverse ++ before) := by
  have hreverse : (gs ++ g.glyphs).reverse ++ before = .keep '\n' :: .keep '\x7d' ::
      ((mask g.body.text).reverse ++ .keep '\x7b' :: ((g.head.map .keep).reverse ++
        (gs.reverse ++ before))) := by
    simp [Signature.glyphs, enclosed]
  rw [hreverse]
  exact settled_cons (by decide) _

theorem settled_field (f : FieldDecl) (before : List Glyph) :
    Settled (f.glyphs.reverse ++ before) := by
  have hreverse : f.glyphs.reverse ++ before = .keep '\n' :: .keep ';' :: .keep '"' ::
      ((f.value.text.map .blank).reverse ++ .keep '"' :: ((f.front.map .keep).reverse ++ before)) := by
    simp [FieldDecl.glyphs]
  rw [hreverse]
  exact settled_cons (by decide) _

theorem settled_class (head : ClassHead) (body : ClassBody) (before : List Glyph) :
    Settled ((classLines head body).reverse ++ before) := by
  have hreverse : (classLines head body).reverse ++ before = .keep '\n' :: .keep '\x7d' ::
      ((body.glyphs head.name).reverse ++
        .keep '\n' :: .keep '\x7b' :: (head.glyphs.reverse ++ before)) := by
    simp [classLines, enclosed]
  rw [hreverse]
  exact settled_cons (by decide) _

theorem scannedDeclaration_eq (head : ClassHead) (body : ClassBody) (hb : Settled before)
    (hdoc : ∀ d ∈ head.javadoc, d.EndsOnce) :
    scannedDeclaration package source head body (head.frontGlyphs.reverse ++ before) =
      declarationOf package source head body := by
  rw [scannedDeclaration, scannedTags_frontGlyphs head hb hdoc]
  rfl

/-- The scanner finds the classes that are nested in a class body. -/
theorem ClassBody.findingsFrom_glyphs (name : Ident) (b : ClassBody) {before : List Glyph}
    (hb : Settled before) (hdoc : ∀ d ∈ b.javadocs, d.EndsOnce) (hs : List Glyph) :
    findingsFrom package source before (b.glyphs name ++ hs) =
      (b.declarations package source).map .declared ++
        findingsFrom package source ((b.glyphs name).reverse ++ before) hs := by
  induction b generalizing name before hs with
  | nil => rfl
  | constructor c b ih =>
    have hsettled : Settled ((c.glyphs name).reverse ++ before) := settled_signature _ _ _
    rw [glyphs, List.append_assoc,
      findingsFrom_append package source (c.passable class_mem_openers name),
      ih name hsettled hdoc, List.reverse_append, List.append_assoc]
    rfl
  | method m b ih =>
    have hsettled : Settled (m.glyphs.reverse ++ before) := settled_signature _ _ _
    rw [glyphs, List.append_assoc, findingsFrom_append package source (m.passable class_mem_openers),
      ih name hsettled hdoc, List.reverse_append, List.append_assoc]
    rfl
  | field f b ih =>
    rw [glyphs, List.append_assoc, findingsFrom_append package source (f.passable class_mem_openers),
      ih name (settled_field _ _) hdoc, List.reverse_append, List.append_assoc]
    rfl
  | nested head body b ihbody ih =>
    simp only [javadocs, List.forall_mem_append] at hdoc
    obtain ⟨hhead, hbody, hrest⟩ := hdoc
    have htext : (nested head body b).glyphs name ++ hs =
        classLines head body ++ (b.glyphs name ++ hs) := by
      simp [glyphs, classLines]
    have hreverse : ((nested head body b).glyphs name).reverse ++ before =
        (b.glyphs name).reverse ++ ((classLines head body).reverse ++ before) := by
      simp [glyphs, classLines]
    rw [htext, hreverse, findingsFrom_class package source head body before _
        fun before hs hb => ihbody head.name hb hbody hs,
      ih name (settled_class _ _ _) hrest,
      scannedDeclaration_eq package source head body hb fun d hd => hhead d (by simpa using hd)]
    simp [declarations]

/-! ## Compilation units -/

/-- A package clause as it is written. -/
def packageText (p : Option DottedName) : List Char :=
  p.elim [] fun p => "package ".toList ++ (p.print ++ ";\n".toList)

/-- The glyphs of classes, one after the other. -/
def classesGlyphs (cs : List (ClassHead × ClassBody)) : List Glyph :=
  cs.flatMap fun c => classLines c.1 c.2

theorem mask_printClass_append (head : ClassHead) (body : ClassBody) (rest : List Char) :
    mask (printClass head body ++ rest) = classLines head body ++ mask rest := by
  have hprint : printClass head body ++ rest = head.print ++
      '\x7b' :: '\n' :: (body.print head.name ++ '\x7d' :: '\n' :: rest) := by
    simp [printClass]
  rw [hprint, head.mask_append, mask_cons (by decide), mask_cons (by decide), body.mask_append,
    mask_cons (by decide), mask_cons (by decide)]
  simp [classLines, enclosed]

theorem mask_classes (cs : List (ClassHead × ClassBody)) :
    mask (cs.flatMap fun c => printClass c.1 c.2) = classesGlyphs cs := by
  induction cs with
  | nil => rfl
  | cons c cs ih =>
    rw [List.flatMap_cons, mask_printClass_append, ih]
    rfl

theorem frontText_package (p : DottedName) :
    FrontText "class".toList ("package".toList ++ ' ' :: p.print) :=
  (frontText_word (by decide) (by decide)).append_cons (by decide) (by decide)
    (p.typeText.frontText class_mem_openers)

theorem packageText_some (p : DottedName) :
    packageText (some p) = ("package".toList ++ ' ' :: p.print) ++ [';', '\n'] := by
  simp [packageText]

theorem CompilationUnit.mask_print (u : CompilationUnit) :
    mask u.print = (packageText u.package).map .keep ++ classesGlyphs u.classes := by
  rw [print, ← packageText]
  rcases u.package with _ | p
  · exact mask_classes u.classes
  · rw [packageText_some, List.append_assoc, mask_front_append (frontText_package p),
      mask_code_append (by decide), mask_classes]
    simp

theorem passable_packageText (p : Option DottedName) :
    Passable "class".toList ((packageText p).map .keep) [] := by
  rcases p with _ | p
  · exact passable_of_no_word class_mem_openers (by simp [packageText])
  · have hfront := frontText_package p
    rw [packageText_some]
    refine .code ?_ ?_ fun g hg => ?_
    · rw [map_code_keep, lacks_append_cons (z := ';') (by decide)]
      exact ⟨hfront.lacks, lacks_of_no_word (by decide) (by decide)⟩
    · rw [map_code_keep]
      have hend := endsWords_concat (z := '\n') (by decide)
        (("package".toList ++ ' ' :: p.print) ++ [';'])
      rwa [List.append_assoc] at hend
    · obtain ⟨c, hc, rfl⟩ := List.mem_map.1 hg
      rcases List.mem_append.1 hc with hc | hc
      · simp [isOuterChar, Glyph.keep, hfront.chars c hc]
      · have hend : ∀ c ∈ [';', '\n'], isOuterChar (Glyph.keep c).code := by decide
        exact hend c hc

theorem settled_packageText (p : Option DottedName) :
    Settled (((packageText p).map .keep).reverse) := by
  rcases p with _ | p
  · simp [packageText, Settled]
  · have hreverse : ((packageText (some p)).map Glyph.keep).reverse = .keep '\n' :: .keep ';' ::
        (("package".toList ++ ' ' :: p.print).map Glyph.keep).reverse := by
      rw [packageText_some, List.map_append, List.reverse_append]
      rfl
    rw [hreverse]
    exact settled_cons (by decide) _

theorem passable_classes (cs : List (ClassHead × ClassBody)) :
    Passable "package".toList (classesGlyphs cs) (cs.flatMap fun c => c.2.blocks) := by
  have hk : "package".toList ∈ openers := by decide
  have hfeed : Passable "package".toList [.keep '\n'] [] := passable_of_no_word hk (by decide)
  induction cs with
  | nil => exact passable_of_no_word hk (by simp [classesGlyphs])
  | cons c cs ih =>
    have hclass := c.1.passable.append
      ((Passable.braces (hfeed.append (c.2.passable c.1.name))).append hfeed)
    have hall := hclass.append ih
    simpa [classesGlyphs, classLines] using hall

theorem DottedName.chars (n : DottedName) : ∀ c ∈ n.print, isWordChar c || c == '.' := by
  intro c hc
  rcases List.mem_append.1 hc with hc | hc
  · simp [n.first.isWordChar c hc]
  · obtain ⟨i, -, hc⟩ := List.mem_flatMap.1 hc
    rcases List.mem_cons.1 hc with rfl | hc
    · decide
    · simp [i.isWordChar c hc]

theorem findPackage?_packageText (p : DottedName) (rest : List Char) :
    findPackage? (packageText (some p) ++ rest) = some p.print := by
  have hspace : isBlank ' ' := by decide
  have hne : p.print ≠ [] := p.typeText.laid.ne
  have hstop : ∀ x ∈ (';' :: '\n' :: rest).head?, (isWordChar x || x == '.') = false := by
    rintro x ⟨⟩
    decide
  obtain ⟨htake, hdrop⟩ := takeWhile_append_stop p.chars hstop
  have hclause : packageClause? ("package".toList ++ ' ' :: (p.print ++ ';' :: '\n' :: rest)) =
      some p.print := by
    rw [packageClause?, afterPiece?_eq_some_iff.2 rfl, Option.bind_some, afterBlank?,
      if_pos (by simp [hspace]), trimStart_cons_of_blank hspace, trimStart_eq p.typeText.laid]
    simp only [htake, hdrop]
    rw [trimStart_cons_of_not (by decide), if_pos (by simp [hne])]
  have htext : packageText (some p) ++ rest =
      'p' :: ("ackage".toList ++ ' ' :: (p.print ++ ';' :: '\n' :: rest)) := by
    simp [packageText]
  have hcons : 'p' :: ("ackage".toList ++ ' ' :: (p.print ++ ';' :: '\n' :: rest)) =
      "package".toList ++ ' ' :: (p.print ++ ';' :: '\n' :: rest) := rfl
  rw [htext, findPackage?, readFirst?, if_pos (by decide), hcons, hclause]
  rfl

/-- The package that the scanner finds is that of the compilation unit. -/
theorem CompilationUnit.findPackage?_print (u : CompilationUnit) :
    (findPackage? (maskedText (mask u.print))).getD [] = u.packageName := by
  rw [u.mask_print, maskedText_append, maskedText_keep, packageName]
  rcases hpackage : u.package with _ | p
  · have hblocks : ∀ b ∈ u.classes.flatMap fun c => c.2.blocks,
        findPackage? (maskedText (mask b.text)) = none := by
      intro b hb
      obtain ⟨c, hc, hb⟩ := List.mem_flatMap.1 hb
      exact u.unpacked hpackage c hc b hb
    have hskip := (passable_classes u.classes).findPackage?_append hblocks none []
    rw [List.append_nil] at hskip
    rw [packageText, Option.elim_none, List.nil_append, findPackage?, hskip]
    rfl
  · rw [findPackage?_packageText]
    rfl

theorem findingsFrom_classes (cs : List (ClassHead × ClassBody)) (hb : Settled before)
    (hdoc : ∀ c ∈ cs, ∀ d ∈ c.1.javadoc.toList ++ c.2.javadocs, d.EndsOnce) :
    findingsFrom package source before (classesGlyphs cs) =
      (cs.flatMap fun c => declarationOf package source c.1 c.2 ::
        c.2.declarations package source).map .declared := by
  induction cs generalizing before with
  | nil => exact findingsFrom_nil package source before
  | cons c cs ih =>
    obtain ⟨hc, hcs⟩ := List.forall_mem_cons.1 hdoc
    obtain ⟨hhead, hbody⟩ := List.forall_mem_append.1 hc
    have htext : classesGlyphs (c :: cs) = classLines c.1 c.2 ++ classesGlyphs cs := rfl
    rw [htext, findingsFrom_class package source c.1 c.2 before _
        fun before hs hb => c.2.findingsFrom_glyphs package source c.1.name hb hbody hs,
      ih (settled_class _ _ _) hcs,
      scannedDeclaration_eq package source c.1 c.2 hb fun d hd => hhead d (by simpa using hd)]
    simp

/-- The declarations among findings that are all classes. -/
theorem declarations_map_declared (ds : List Declaration) :
    Java.declarations (ds.map .declared) = .ok ds := by
  induction ds with
  | nil => rfl
  | cons d ds ih =>
    rw [List.map_cons, Java.declarations, ih]
    rfl

theorem scan_eq (u : CompilationUnit) (source : Option String) :
    scan source (String.ofList u.print) = Java.declarations (findingsFrom u.packageName source
      ((packageText u.package).map .keep).reverse (classesGlyphs u.classes)) := by
  have hfindings : findings source u.print = findingsFrom u.packageName source [] (mask u.print) := by
    rw [findings]
    simp only [u.findPackage?_print]
    rfl
  have hskip := findingsFrom_append u.packageName source (passable_packageText u.package) []
    (classesGlyphs u.classes)
  rw [List.append_nil] at hskip
  rw [scan, String.toList_ofList, hfindings, u.mask_print, hskip]

/-- The scan of a written compilation unit gives the declarations that it was written with, if no
documentation comment ends such that another one opens where it closes. -/
theorem scan_print (u : CompilationUnit) (source : Option String)
    (h : ∀ d ∈ u.javadocs, d.EndsOnce) :
    scan source (String.ofList u.print) = .ok (u.declarations source) := by
  have hdoc : ∀ c ∈ u.classes, ∀ d ∈ c.1.javadoc.toList ++ c.2.javadocs, d.EndsOnce :=
    fun c hc d hd => h d (List.mem_flatMap.2 ⟨c, hc, hd⟩)
  rw [scan_eq, findingsFrom_classes u.packageName source u.classes
    (settled_packageText u.package) hdoc, declarations_map_declared]
  rfl

/-- A compilation unit with a documented class that has a constructor and a method named like it. -/
def sampleUnit : CompilationUnit :=
  let name : Ident := ⟨['A'], by decide, by decide, by decide⟩
  let var : Ident := ⟨['T'], by decide, by decide, by decide⟩
  let doc : Javadoc := ⟨[' ', '@', 'e', ' ', 'x'], by decide, by decide, by decide⟩
  let empty : Block := ⟨[], rfl, balanced_nil, by simp [mask, maskFrom, classNames, classNamesFrom]⟩
  let signature : Signature := ⟨[⟨.array (.named (.simple var .nil)), true, var⟩], [], empty⟩
  { package := some ⟨name, [var]⟩
    classes := [(⟨some doc, name, [⟨var, []⟩], some (.simple name .nil), []⟩,
      .constructor ⟨some .«public», [], signature⟩ (.method ⟨[], [], none, name, signature⟩ .nil))]
    unpacked := fun h => absurd h (by simp) }

example : sampleUnit.print =
    ("package A.T;\n/** @e x*/\npublic class A<T> extends A \x7b\n" ++
      "public A(T[]... T) \x7b\x7d\nvoid A(T[]... T) \x7b\x7d\n\x7d\n").toList := by
  rfl

theorem scan_sampleUnit : (∀ d ∈ sampleUnit.javadocs, d.EndsOnce) ∧
    scan none (String.ofList sampleUnit.print) = .ok (sampleUnit.declarations none) := by
  have h : ∀ d ∈ sampleUnit.javadocs, d.EndsOnce := by
    intro d hd
    obtain rfl := List.mem_singleton.1 hd
    unfold Javadoc.EndsOnce
    decide
  exact ⟨h, scan_print sampleUnit none h⟩

/-- A documentation comment where another one opens as it closes. -/
def reopened : Javadoc :=
  ⟨[' ', '@', 'e', 'v', 'e', 'n', 't', ' ', '/', '*'], by decide, by decide, by decide⟩

/-- A class with that comment and no members. -/
def reopenedUnit : CompilationUnit where
  package := none
  classes := [(⟨some reopened, ⟨['A'], by decide, by decide, by decide⟩, [], none, []⟩, .nil)]
  unpacked := by simp [ClassBody.blocks]

theorem scan_reopenedUnit_ne :
    String.ofList reopenedUnit.print = "/** @event /**/\npublic class A \x7b\n\x7d\n" ∧
      scan none (String.ofList reopenedUnit.print) ≠ .ok (reopenedUnit.declarations none) := by
  let head : ClassHead :=
    ⟨some reopened, ⟨['A'], by decide, by decide, by decide⟩, [], none, []⟩
  have hcomment : docComment? (head.frontGlyphs.reverse ++ []) = some ['/', '*', '*', '/'] := by rfl
  have hscanned : docTags ['/', '*', '*', '/'] = [] := by decide +kernel
  have hwritten : (docTags reopened.print).length = 1 := by decide +kernel
  have hinner (before hs : List Glyph) (_ : Settled before) :
      findingsFrom [] none before (ClassBody.nil.glyphs head.name ++ hs) =
        [] ++ findingsFrom [] none ((ClassBody.nil.glyphs head.name).reverse ++ before) hs := rfl
  have hclass := findingsFrom_class [] none head .nil [] [] hinner
  refine ⟨by rfl, fun h => ?_⟩
  have hscan : scan none (String.ofList reopenedUnit.print) =
      .ok [scannedDeclaration [] none head .nil (head.frontGlyphs.reverse ++ [])] := by
    rw [findingsFrom_nil] at hclass
    rw [scan_eq]
    exact congrArg Java.declarations hclass
  rw [hscan] at h
  have htags : scannedTags (head.frontGlyphs.reverse ++ []) = docTags reopened.print :=
    congrArg Declaration.tags (List.cons.inj (Except.ok.inj h)).1
  rw [scannedTags, hcomment, Option.map_some, Option.getD_some, hscanned] at htags
  rw [← htags] at hwritten
  exact absurd hwritten (by decide)

end Companion.Java.Syntax
