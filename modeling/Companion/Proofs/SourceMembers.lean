import Companion.Proofs.SourceMask
import Companion.Proofs.TypeReading

/-!
# What the scanner sees of a class

The glyphs of members and of classes (`ClassBody.glyphs`), which are the mask of the text that they
are written as (`ClassBody.mask_append`). Outside of blocks they hold no word that the scanner looks
for, but the class keyword of nested classes (`ClassBody.passable`), and their braces match
(`Passable.balanced`).
-/

namespace Companion.Java.Syntax

open Text
open Unicode (isBlank isWordChar)

variable {k s t rest : List Char} {c z : Char}

/-- What members are made of up to their parameters or values. -/
def isFrontChar (c : Char) : Bool :=
  isTypeChar c || c == '='

/-- A text of a member up to its parameters or its value, without the word `k`. -/
structure FrontText (k s : List Char) : Prop where
  chars : ∀ c ∈ s, isFrontChar c
  lacks : Lacks k s

/-- The words that the scanner looks for outside of headers. -/
def openers : List (List Char) :=
  ["class".toList, "package".toList]

theorem ne_nil_of_mem_openers (hk : k ∈ openers) : k ≠ [] := by
  rintro rfl
  exact absurd hk (by decide)

theorem isPlain_of_isFrontChar (h : isFrontChar c) : isPlain c := by
  simp only [isFrontChar, isTypeChar, Bool.or_eq_true] at h
  rcases h with (h | h) | h
  · exact forall_isLetterOrDigit (p := fun c => isPlain c = true) (by decide) h
  · rw [List.contains_iff_mem] at h
    revert c
    decide
  · rw [beq_iff_eq.1 h]
    decide

theorem frontText_nil (hk : k ∈ openers) : FrontText k [] where
  chars := by simp
  lacks := lacks_nil (ne_nil_of_mem_openers hk)

theorem FrontText.append_cons (hs : FrontText k s) (hz : isFrontChar z) (hw : isWordChar z = false)
    (ht : FrontText k t) : FrontText k (s ++ z :: t) where
  chars c hc := by
    rcases List.mem_append.1 hc with hc | hc
    · exact hs.chars c hc
    · rcases List.mem_cons.1 hc with rfl | hc
      · exact hz
      · exact ht.chars c hc
  lacks := (lacks_append_cons hw).2 ⟨hs.lacks, ht.lacks⟩

theorem FrontText.cons (hk : k ∈ openers) (hz : isFrontChar z) (hw : isWordChar z = false)
    (ht : FrontText k t) : FrontText k (z :: t) :=
  (frontText_nil hk).append_cons hz hw ht

theorem FrontText.of_cons (hk : k ∈ openers) (hw : isWordChar z = false)
    (h : FrontText k (z :: t)) : FrontText k t where
  chars c hc := h.chars c (List.mem_cons_of_mem _ hc)
  lacks := (lacks_cons (ne_nil_of_mem_openers hk) hw).1 h.lacks

theorem ListText.frontText (h : ListText s) (hk : k ∈ openers) : FrontText k s where
  chars c hc := by simp [isFrontChar, h.chars c hc]
  lacks := by
    have hall : ∀ k ∈ openers, k ∈ sought := by decide
    exact h.lacks k (hall k hk)

theorem TypeText.frontText (h : TypeText s) (hk : k ∈ openers) : FrontText k s :=
  h.listText.frontText hk

theorem frontText_word (hs : ∀ c ∈ s, isLetterOrDigit c) (h : k ≠ s) : FrontText k s where
  chars c hc := by simp [isFrontChar, isTypeChar, hs c hc]
  lacks := by rwa [lacks_word fun c hc => isWordChar_of_isLetterOrDigit (hs c hc)]

theorem frontText_listed {ps : List (List Char)} (hk : k ∈ openers) (h : ∀ s ∈ ps, TypeText s) :
    FrontText k (listed ps) := by
  by_cases hne : ps = []
  · subst hne
    exact frontText_nil hk
  · exact (listText_listed hne h).frontText hk

theorem Modifier.isLetterOrDigit (m : Modifier) : ∀ c ∈ m.text, isLetterOrDigit c := by
  rcases m with (_ | _ | _) | _ | _ | _ | _ | _ | _ | _ | _ <;> decide

theorem Modifier.not_mem_openers (m : Modifier) : m.text ∉ openers := by
  rcases m with (_ | _ | _) | _ | _ | _ | _ | _ | _ | _ | _ <;> decide

theorem frontText_modifiers (hk : k ∈ openers) (ms : List Modifier) (ht : FrontText k t) :
    FrontText k (printModifiers ms ++ t) := by
  induction ms with
  | nil => exact ht
  | cons m ms ih =>
    have hm : FrontText k m.text :=
      frontText_word m.isLetterOrDigit fun h => m.not_mem_openers (h ▸ hk)
    have hcons : printModifiers (m :: ms) ++ t = m.text ++ ' ' :: (printModifiers ms ++ t) := by
      simp [printModifiers]
    rw [hcons]
    exact hm.append_cons (by decide) (by decide) ih

theorem typeText_typeParams (ps : List TypeParam) : ∀ s ∈ ps.map TypeParam.print, TypeText s := by
  intro s hs
  obtain ⟨p, -, rfl⟩ := List.mem_map.1 hs
  exact p.typeText

theorem typeText_params (ps : List Param) : ∀ s ∈ ps.map Param.print, TypeText s := by
  intro s hs
  obtain ⟨p, -, rfl⟩ := List.mem_map.1 hs
  exact p.typeText_print

theorem typeText_classTypes (ts : List ClassType) : ∀ s ∈ ts.map ClassType.print, TypeText s := by
  intro s hs
  obtain ⟨t, -, rfl⟩ := List.mem_map.1 hs
  exact t.typeText

theorem typeText_names (ns : List DottedName) : ∀ s ∈ ns.map DottedName.print, TypeText s := by
  intro s hs
  obtain ⟨n, -, rfl⟩ := List.mem_map.1 hs
  exact n.typeText

theorem frontText_typeParams (hk : k ∈ openers) (ps : List TypeParam) (hs : FrontText k s)
    (ht : FrontText k t) : FrontText k (s ++ (printTypeParams ps ++ ' ' :: t)) := by
  unfold printTypeParams angled
  split_ifs
  · exact hs.append_cons (by decide) (by decide) ht
  · have hlist := (frontText_listed hk (typeText_typeParams ps)).append_cons (z := '>') (by decide)
      (by decide) (ht.cons hk (by decide) (by decide) : FrontText k (' ' :: t))
    have hopen := hs.append_cons (z := '<') (by decide) (by decide) hlist
    simpa using hopen

/-- What stands before the result of a method or before the name of a constructor. -/
theorem frontText_front (hk : k ∈ openers) (ms : List Modifier) (ps : List TypeParam)
    (ht : FrontText k t) :
    FrontText k ((printModifiers ms ++ if ps = [] then [] else printTypeParams ps ++ [' ']) ++ t) := by
  rw [List.append_assoc]
  refine frontText_modifiers hk ms ?_
  split_ifs
  · exact ht
  · simpa using frontText_typeParams hk ps (frontText_nil hk) ht

theorem Signature.frontText_params (hk : k ∈ openers) (g : Signature) :
    FrontText k (listed (g.params.map Param.print)) :=
  frontText_listed hk (typeText_params g.params)

theorem Signature.frontText_throws (hk : k ∈ openers) (g : Signature) :
    FrontText k (' ' :: printThrows g.throws) := by
  refine FrontText.cons hk (by decide) (by decide) ?_
  unfold printThrows
  split_ifs
  · exact frontText_nil hk
  · have hall : ∀ k ∈ openers, k ≠ "throws".toList := by decide
    have hword : FrontText k "throws".toList := frontText_word (by decide) (hall k hk)
    have hlist := (frontText_listed hk (typeText_classTypes g.throws)).append_cons (z := ' ')
      (by decide) (by decide) (frontText_nil hk)
    exact hword.append_cons (z := ' ') (by decide) (by decide) hlist

theorem Ident.frontText (hk : k ∈ openers) (i : Ident) : FrontText k i.text :=
  i.typeText.frontText hk

theorem ConstructorDecl.frontText (hk : k ∈ openers) (name : Ident) (c : ConstructorDecl) :
    FrontText k (c.front ++ name.text) :=
  frontText_front hk _ _ (name.frontText hk)

theorem MethodDecl.frontText_resultText (hk : k ∈ openers) (m : MethodDecl) :
    FrontText k m.resultText := by
  unfold MethodDecl.resultText
  rcases m.result with _ | t
  · have hall : ∀ k ∈ openers, k ≠ "void".toList := by decide
    exact frontText_word (by decide) (hall k hk)
  · exact t.typeText.frontText hk

theorem MethodDecl.frontText (hk : k ∈ openers) (m : MethodDecl) :
    FrontText k (m.front ++ (m.resultText ++ ' ' :: m.name.text)) :=
  frontText_front hk _ _ ((m.frontText_resultText hk).append_cons (by decide) (by decide)
    (m.name.frontText hk))

theorem FieldDecl.frontText (hk : k ∈ openers) (f : FieldDecl) : FrontText k f.front := by
  have hvalue : FrontText k (f.name.text ++ " = ".toList) :=
    (f.name.frontText hk).append_cons (by decide) (by decide)
      (FrontText.cons hk (by decide) (by decide)
        (FrontText.cons hk (by decide) (by decide) (frontText_nil hk)))
  exact frontText_modifiers hk _
    ((f.type.typeText.frontText hk).append_cons (by decide) (by decide) hvalue)

theorem ClassHead.frontText_interfaceClause (hk : k ∈ openers) (h : ClassHead) (hs : FrontText k s) :
    FrontText k (s ++ h.interfaceClause) := by
  unfold interfaceClause
  split_ifs
  · exact hs.append_cons (by decide) (by decide) (frontText_nil hk)
  · have hall : ∀ k ∈ openers, k ≠ "implements".toList := by decide
    have hword : FrontText k "implements".toList := frontText_word (by decide) (hall k hk)
    have hlist := (frontText_listed hk (typeText_names h.interfaces)).append_cons (z := ' ')
      (by decide) (by decide) (frontText_nil hk)
    have hclause := hs.append_cons (z := ' ') (by decide) (by decide)
      (hword.append_cons (z := ' ') (by decide) (by decide) hlist)
    simpa using hclause

theorem ClassHead.frontText_clauses (hk : k ∈ openers) (h : ClassHead) :
    FrontText k h.clauses := by
  unfold clauses
  rcases h.superclass with _ | s
  · exact h.frontText_interfaceClause hk (frontText_nil hk)
  · have hall : ∀ k ∈ openers, k ≠ "extends".toList := by decide
    have hword : FrontText k "extends".toList := frontText_word (by decide) (hall k hk)
    have hclause := (hword.append_cons (z := ' ') (by decide) (by decide)
      (s.typeText.frontText hk)).cons (z := ' ') hk (by decide) (by decide)
    exact h.frontText_interfaceClause hk hclause

/-- What stands between the name of a class and its body. -/
def ClassHead.tail (h : ClassHead) : List Char :=
  printTypeParams h.typeParams ++ h.clauses

theorem ClassHead.clauses_eq_cons (h : ClassHead) : ∃ r, h.clauses = ' ' :: r := by
  obtain ⟨r, hr, -⟩ := h.interfaceClause_eq_cons
  unfold clauses
  rcases h.superclass with _ | s
  · exact ⟨r, hr⟩
  · exact ⟨_, rfl⟩

theorem ClassHead.frontText_append_tail (hk : k ∈ openers) (hs : FrontText k s) (h : ClassHead) :
    FrontText k (s ++ h.tail) := by
  obtain ⟨r, hr⟩ := h.clauses_eq_cons
  have hclauses := h.frontText_clauses hk
  rw [hr] at hclauses
  rw [tail, hr]
  exact frontText_typeParams hk _ hs (hclauses.of_cons hk (by decide))

theorem ClassHead.frontText_tail (hk : k ∈ openers) (h : ClassHead) : FrontText k h.tail :=
  h.frontText_append_tail hk (frontText_nil hk)

def enclosed (gs : List Glyph) : List Glyph :=
  .keep '\x7b' :: (gs ++ [.keep '\x7d'])

def Signature.glyphs (g : Signature) : List Glyph :=
  g.head.map .keep ++ (enclosed (mask g.body.text) ++ [.keep '\n'])

def ConstructorDecl.glyphs (name : Ident) (c : ConstructorDecl) : List Glyph :=
  (c.front ++ name.text).map .keep ++ c.signature.glyphs

def MethodDecl.glyphs (m : MethodDecl) : List Glyph :=
  (m.front ++ (m.resultText ++ ' ' :: m.name.text)).map .keep ++ m.signature.glyphs

def FieldDecl.glyphs (f : FieldDecl) : List Glyph :=
  f.front.map .keep ++ .keep '"' :: (f.value.text.map .blank ++ "\";\n".toList.map .keep)

def ClassHead.docGlyphs (h : ClassHead) : List Glyph :=
  h.javadoc.elim [] fun d => d.print.map .blank ++ [.keep '\n']

def ClassHead.frontGlyphs (h : ClassHead) : List Glyph :=
  h.docGlyphs ++ "public ".toList.map .keep

def ClassHead.glyphs (h : ClassHead) : List Glyph :=
  h.frontGlyphs ++ ("class ".toList ++ (h.name.text ++ h.tail)).map .keep

def ClassBody.glyphs (name : Ident) : ClassBody → List Glyph
  | nil => []
  | constructor c rest => c.glyphs name ++ rest.glyphs name
  | method m rest => m.glyphs ++ rest.glyphs name
  | field f rest => f.glyphs ++ rest.glyphs name
  | nested head body rest =>
    head.glyphs ++ (enclosed (.keep '\n' :: body.glyphs head.name) ++
      .keep '\n' :: rest.glyphs name)

theorem mask_front_append (h : FrontText k s) (rest : List Char) :
    mask (s ++ rest) = s.map .keep ++ mask rest :=
  mask_code_append (fun c hc => isPlain_of_isFrontChar (h.chars c hc)) rest

theorem mask_cons (h : isPlain c) (s : List Char) : mask (c :: s) = .keep c :: mask s :=
  maskFrom_code_cons h s

theorem class_mem_openers : "class".toList ∈ openers := by decide

theorem Signature.mask_append (g : Signature) (rest : List Char) :
    mask (g.print ++ rest) = g.glyphs ++ mask rest := by
  have hprint : g.print ++ rest = '(' :: (listed (g.params.map Param.print) ++
      ')' :: ((' ' :: printThrows g.throws) ++
        '\x7b' :: (g.body.text ++ '\x7d' :: '\n' :: rest))) := by
    simp [print, head]
  rw [hprint, mask_cons (by decide), mask_front_append (g.frontText_params class_mem_openers),
    mask_cons (by decide), mask_front_append (g.frontText_throws class_mem_openers),
    mask_cons (by decide), mask_block_append, mask_cons (by decide)]
  simp [glyphs, head, enclosed]

theorem ConstructorDecl.mask_append (name : Ident) (c : ConstructorDecl) (rest : List Char) :
    mask (c.print name ++ rest) = c.glyphs name ++ mask rest := by
  have hfront := mask_front_append (c.frontText class_mem_openers name) (c.signature.print ++ rest)
  rw [c.signature.mask_append] at hfront
  simpa [print, glyphs] using hfront

theorem MethodDecl.mask_append (m : MethodDecl) (rest : List Char) :
    mask (m.print ++ rest) = m.glyphs ++ mask rest := by
  have hfront := mask_front_append (m.frontText class_mem_openers) (m.signature.print ++ rest)
  rw [m.signature.mask_append] at hfront
  simpa [print, glyphs] using hfront

theorem FieldDecl.mask_append (f : FieldDecl) (rest : List Char) :
    mask (f.print ++ rest) = f.glyphs ++ mask rest := by
  have hprint : f.print ++ rest =
      f.front ++ '"' :: (f.value.text ++ '"' :: ';' :: '\n' :: rest) := by
    simp [print]
  rw [hprint, mask_front_append (f.frontText class_mem_openers),
    mask_quotable_append f.value (by decide), mask_cons (by decide), mask_cons (by decide)]
  simp [glyphs]

theorem ClassHead.mask_append (h : ClassHead) (rest : List Char) :
    mask (h.print ++ rest) = h.glyphs ++ mask rest := by
  have hkeywords : mask ("public class ".toList ++ (h.name.text ++ (h.tail ++ rest))) =
      "public class ".toList.map .keep ++
        (h.name.text.map .keep ++ (h.tail.map .keep ++ mask rest)) := by
    rw [mask_code_append (by decide), mask_front_append (h.name.frontText class_mem_openers),
      mask_front_append (h.frontText_tail class_mem_openers)]
  have hprint : h.print ++ rest = (h.javadoc.elim [] fun d => d.print ++ ['\n']) ++
      ("public class ".toList ++ (h.name.text ++ (h.tail ++ rest))) := by
    simp [print, front, tail]
  rw [hprint]
  unfold glyphs frontGlyphs docGlyphs
  rcases h.javadoc with _ | d
  · simpa using hkeywords
  · have hdoc := mask_javadoc_append d
      ('\n' :: ("public class ".toList ++ (h.name.text ++ (h.tail ++ rest))))
    rw [mask_cons (by decide), hkeywords] at hdoc
    simpa using hdoc

/-- The glyphs of a class body are the mask of its text. -/
theorem ClassBody.mask_append (name : Ident) (b : ClassBody) (rest : List Char) :
    mask (b.print name ++ rest) = b.glyphs name ++ mask rest := by
  induction b generalizing name rest with
  | nil => rfl
  | constructor c b ih =>
    rw [print, glyphs, List.append_assoc, c.mask_append, ih, List.append_assoc]
  | method m b ih =>
    rw [print, glyphs, List.append_assoc, m.mask_append, ih, List.append_assoc]
  | field f b ih =>
    rw [print, glyphs, List.append_assoc, f.mask_append, ih, List.append_assoc]
  | nested head body b ihbody ih =>
    have hprint : (nested head body b).print name ++ rest = head.print ++
        '\x7b' :: '\n' :: (body.print head.name ++ '\x7d' :: '\n' :: (b.print name ++ rest)) := by
      simp [print]
    rw [hprint, head.mask_append, mask_cons (by decide), mask_cons (by decide), ihbody,
      mask_cons (by decide), mask_cons (by decide), ih]
    simp [glyphs, enclosed]

/-! ## Texts that are passed over -/

/-- What the scanner sees of members outside of braces. -/
def isOuterChar (c : Char) : Bool :=
  isFrontChar c || ['(', ')', '"', ';', '\n', '\t', '@'].contains c

/-- Glyphs that hold the word `k` in the blocks at most. -/
inductive Passable (k : List Char) : List Glyph → List Block → Prop where
  | code {gs : List Glyph} (hlacks : Lacks k (gs.map Glyph.code))
    (hend : EndsWords (gs.map Glyph.code)) (hchars : ∀ g ∈ gs, isOuterChar g.code) :
    Passable k gs []
  | block (b : Block) : Passable k (enclosed (mask b.text)) [b]
  | braces {gs : List Glyph} {bs : List Block} (h : Passable k gs bs) : Passable k (enclosed gs) bs
  | append {gs hs : List Glyph} {bs cs : List Block} (hgs : Passable k gs bs)
    (hhs : Passable k hs cs) : Passable k (gs ++ hs) (bs ++ cs)

theorem ne_brace_of_isOuterChar (h : isOuterChar c) : c ≠ '\x7b' ∧ c ≠ '\x7d' := by
  constructor <;>
  · rintro rfl
    exact absurd h (by decide)

theorem mem_maskedText {gs : List Glyph} (h : c ∈ maskedText gs) : ∃ g ∈ gs, g.code = c := by
  obtain ⟨g, hg, hc⟩ := List.mem_flatMap.1 h
  refine ⟨g, hg, ?_⟩
  split_ifs at hc with hspace
  · rw [hspace, List.eq_of_mem_replicate hc]
  · exact (List.mem_singleton.1 hc).symm

theorem maskedText_enclosed (gs : List Glyph) :
    maskedText (enclosed gs) = '\x7b' :: (maskedText gs ++ ['\x7d']) := by
  rw [enclosed, maskedText_cons, maskedText_append]
  rfl

theorem balanced_enclosed (hs : Balanced '\x7b' '\x7d' 0 s) :
    Balanced '\x7b' '\x7d' 0 ('\x7b' :: (s ++ ['\x7d'])) := by
  rw [balanced_cons_open (by decide)]
  exact hs.append ((balanced_cons_close (by decide)).2 balanced_nil)

variable {gs : List Glyph} {bs : List Block}

/-- The braces of what is passed over match. -/
theorem Passable.balanced (h : Passable k gs bs) : Balanced '\x7b' '\x7d' 0 (maskedText gs) := by
  induction h with
  | code _ _ hchars =>
    have hbrace {c : Char} (hc : c = '\x7b' ∨ c = '\x7d') : c ∉ maskedText _ := fun hmem => by
      obtain ⟨g, hg, rfl⟩ := mem_maskedText hmem
      have := ne_brace_of_isOuterChar (hchars g hg)
      tauto
    exact balanced_of_not_mem (hbrace (.inl rfl)) (hbrace (.inr rfl))
  | block b =>
    rw [maskedText_enclosed]
    exact balanced_enclosed b.balanced
  | braces _ ih =>
    rw [maskedText_enclosed]
    exact balanced_enclosed ih
  | append _ _ ihgs ihhs =>
    rw [maskedText_append]
    exact ihgs.append ihhs

theorem endsWords_concat (hz : isWordChar z = false) (s : List Char) : EndsWords (s ++ [z]) := by
  intro c hc
  obtain rfl : z = c := by simpa using hc
  exact hz

theorem FrontText.passable (h : FrontText k s) (hend : EndsWords s) :
    Passable k (s.map .keep) [] := by
  refine .code ?_ ?_ fun g hg => ?_
  · rw [map_code_keep]
    exact h.lacks
  · rwa [map_code_keep]
  · obtain ⟨c, hc, rfl⟩ := List.mem_map.1 hg
    simp [isOuterChar, Glyph.keep, h.chars c hc]

theorem passable_of_no_word (hk : k ∈ openers)
    (h : ∀ g ∈ gs, isWordChar g.code = false ∧ isOuterChar g.code) : Passable k gs [] := by
  have hword : ∀ c ∈ gs.map Glyph.code, isWordChar c = false := by
    intro c hc
    obtain ⟨g, hg, rfl⟩ := List.mem_map.1 hc
    exact (h g hg).1
  exact .code (lacks_of_no_word (ne_nil_of_mem_openers hk) hword)
    (fun c hc => hword c (List.mem_of_getLast? hc)) fun g hg => (h g hg).2

theorem code_blank {g : Glyph} (hg : g ∈ s.map Glyph.blank) : g.code = ' ' ∨ g.code = '\n' := by
  obtain ⟨c, -, rfl⟩ := List.mem_map.1 hg
  by_cases hc : c = '\n'
  · exact .inr ((if_pos hc).trans hc)
  · exact .inl (if_neg hc)

theorem outer_of_eq (h : c = ' ' ∨ c = '\n') : isWordChar c = false ∧ isOuterChar c := by
  rcases h with rfl | rfl <;> decide

theorem ClassHead.code_docGlyphs (h : ClassHead) :
    ∀ g ∈ h.docGlyphs, g.code = ' ' ∨ g.code = '\n' := by
  unfold docGlyphs
  rcases h.javadoc with _ | d
  · simp
  · intro g hg
    rcases List.mem_append.1 hg with hg | hg
    · exact code_blank hg
    · rw [List.mem_singleton.1 hg]
      exact .inr rfl

theorem Signature.endsWords (g : Signature) (s : List Char) : EndsWords (s ++ g.head) := by
  obtain ⟨r, hr⟩ : ∃ r, g.head = r ++ [' '] := by
    unfold head printThrows
    split_ifs
    · exact ⟨'(' :: (listed (g.params.map Param.print) ++ [')']), by simp⟩
    · exact ⟨'(' :: (listed (g.params.map Param.print) ++ ')' :: ' ' :: ("throws ".toList ++
        listed (g.throws.map ClassType.print))), by simp⟩
  rw [hr, ← List.append_assoc]
  exact endsWords_concat (by decide) _

theorem Signature.passable (hk : k ∈ openers) (hs : FrontText k s) (g : Signature) :
    Passable k (s.map .keep ++ g.glyphs) [g.body] := by
  have hparams := g.frontText_params hk
  have hthrows := g.frontText_throws hk
  have hhead : Passable k ((s ++ g.head).map .keep) [] := by
    refine .code ?_ ?_ fun x hx => ?_
    · rw [map_code_keep, head, lacks_append_cons (by decide), lacks_append_cons (by decide)]
      exact ⟨hs.lacks, hparams.lacks, hthrows.lacks⟩
    · rw [map_code_keep]
      exact g.endsWords s
    · obtain ⟨c, hc, rfl⟩ := List.mem_map.1 hx
      change isOuterChar c
      have hchars : isFrontChar c ∨ c = '(' ∨ c = ')' := by
        rcases List.mem_append.1 hc with hc | hc
        · exact .inl (hs.chars c hc)
        · rcases List.mem_cons.1 hc with hc | hc
          · exact .inr (.inl hc)
          · rcases List.mem_append.1 hc with hc | hc
            · exact .inl (hparams.chars c hc)
            · rcases List.mem_cons.1 hc with hc | hc
              · exact .inr (.inr hc)
              · exact .inl (hthrows.chars c hc)
      rcases hchars with h | rfl | rfl
      · simp [isOuterChar, h]
      · decide
      · decide
  have hfeed : Passable k [.keep '\n'] [] := passable_of_no_word hk (by decide)
  have hblock := hhead.append ((Passable.block g.body).append hfeed)
  rw [List.map_append, List.append_assoc] at hblock
  exact hblock

theorem ConstructorDecl.passable (hk : k ∈ openers) (name : Ident) (c : ConstructorDecl) :
    Passable k (c.glyphs name) [c.signature.body] :=
  c.signature.passable hk (c.frontText hk name)

theorem MethodDecl.passable (hk : k ∈ openers) (m : MethodDecl) :
    Passable k m.glyphs [m.signature.body] :=
  m.signature.passable hk (m.frontText hk)

theorem FieldDecl.passable (hk : k ∈ openers) (f : FieldDecl) : Passable k f.glyphs [] := by
  have hend : EndsWords f.front := by
    have hfront : f.front = printModifiers f.modifiers ++ (f.type.print ++
        ' ' :: (f.name.text ++ [' ', '='])) ++ [' '] := by
      simp [front]
    rw [hfront]
    exact endsWords_concat (by decide) _
  refine ((f.frontText hk).passable hend).append (passable_of_no_word hk fun g hg => ?_)
  rcases List.mem_cons.1 hg with rfl | hg
  · decide
  · rcases List.mem_append.1 hg with hg | hg
    · exact outer_of_eq (code_blank hg)
    · have hend : ∀ g ∈ "\";\n".toList.map Glyph.keep,
          isWordChar g.code = false ∧ isOuterChar g.code := by decide
      exact hend g hg

theorem ClassHead.passable_frontGlyphs (hk : k ∈ openers) (h : ClassHead) :
    Passable k h.frontGlyphs [] := by
  have hall : ∀ k ∈ openers, k ≠ "public".toList := by decide
  have hword : FrontText k "public".toList := frontText_word (by decide) (hall k hk)
  have hpublic := (hword.append_cons (z := ' ') (by decide) (by decide) (frontText_nil hk)).passable
    (endsWords_concat (by decide) "public".toList)
  exact (passable_of_no_word hk fun g hg => outer_of_eq (h.code_docGlyphs g hg)).append hpublic

theorem ClassHead.tail_eq_concat (h : ClassHead) : ∃ r, h.tail = r ++ [' '] := by
  unfold tail clauses interfaceClause
  simp only [← List.append_assoc]
  exact ⟨_, rfl⟩

theorem ClassHead.endsWords_tail (h : ClassHead) (s : List Char) : EndsWords (s ++ h.tail) := by
  obtain ⟨r, hr⟩ := h.tail_eq_concat
  rw [hr, ← List.append_assoc]
  exact endsWords_concat (by decide) _

theorem ClassHead.frontText_keyword (h : ClassHead) :
    FrontText "package".toList ("class ".toList ++ (h.name.text ++ h.tail)) := by
  have hk : "package".toList ∈ openers := by decide
  have hword : FrontText "package".toList "class".toList := frontText_word (by decide) (by decide)
  exact hword.append_cons (z := ' ') (by decide) (by decide)
    (h.frontText_append_tail hk (h.name.frontText hk))

theorem ClassHead.passable (h : ClassHead) : Passable "package".toList h.glyphs [] := by
  have hend := h.endsWords_tail ("class ".toList ++ h.name.text)
  rw [List.append_assoc] at hend
  exact (h.passable_frontGlyphs (by decide)).append (h.frontText_keyword.passable hend)

/-- A class body holds package clauses in its blocks at most. -/
theorem ClassBody.passable (name : Ident) (b : ClassBody) :
    Passable "package".toList (b.glyphs name) b.blocks := by
  have hk : "package".toList ∈ openers := by decide
  have hfeed : Passable "package".toList [.keep '\n'] [] := passable_of_no_word hk (by decide)
  induction b generalizing name with
  | nil => exact passable_of_no_word hk (by simp [glyphs])
  | constructor c b ih => exact (c.passable hk name).append (ih name)
  | method m b ih => exact (m.passable hk).append (ih name)
  | field f b ih => exact (f.passable hk).append (ih name)
  | nested head body b ihbody ih =>
    exact head.passable.append
      ((Passable.braces (hfeed.append (ihbody head.name))).append (hfeed.append (ih name)))

theorem ClassBody.balanced (name : Ident) (b : ClassBody) :
    Balanced '\x7b' '\x7d' 0 (maskedText (b.glyphs name)) :=
  (b.passable name).balanced

end Companion.Java.Syntax
