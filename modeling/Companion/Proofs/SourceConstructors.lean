import Companion.Proofs.ConstructorScan
import Companion.Proofs.SourceMembers

/-!
# The constructors of a written class

The constructors that the scanner finds in the body of a class are those that it is written with
(`ClassBody.constructorsFrom_glyphs`): the scanner passes over blocks, fields and nested classes, it
reads a constructor as written, and it takes no method for a constructor, not even one with the name
of the class.
-/

namespace Companion.Java.Syntax

open Text
open Unicode (isBlank isWordChar)

variable {s m rest before : List Char} {c z : Char} {d : Nat}

/-- The constructors in a text outside of braces that follows the text `before`, which is given with
its last character first. -/
def constructorsFrom (name : Ident) (scope : List Ident) (before s : List Char) :
    List Constructor :=
  (nameCalls name.text before 0 s).filterMap
    (NameCall.constructor? (String.ofList name.text) (scope.map fun i => String.ofList i.text))

variable (name : Ident) (scope : List Ident)

theorem foldl_braceDepth (hs : ∀ c ∈ s, c ≠ '\x7b' ∧ c ≠ '\x7d') : s.foldl braceDepth d = d := by
  induction s with
  | nil => rfl
  | cons c s ih =>
    obtain ⟨hopen, hclose⟩ := hs c List.mem_cons_self
    rw [List.foldl_cons, braceDepth, if_neg hopen, if_neg hclose]
    exact ih fun d hd => hs d (List.mem_cons_of_mem _ hd)

theorem not_mem_ident (hz : isWordChar z = false) : z ∉ name.text := fun h => by
  rw [name.isWordChar z h] at hz
  exact absurd hz (by decide)

theorem nameCalls_cons_of_not_word (hz : isWordChar z = false) :
    nameCalls name.text before d (z :: s) = nameCalls name.text (z :: before) (braceDepth d z) s := by
  refine nameCalls_cons_of_none fun _ => ?_
  have hne := name.ne_nil
  have hmem := not_mem_ident name hz
  rcases htext : name.text with _ | ⟨c, w⟩
  · exact absurd htext hne
  · rw [htext] at hmem
    rw [afterCall?, afterPiece?, if_neg]
    rintro rfl
    exact hmem List.mem_cons_self

theorem head?_trimStart_cons (hblank : isBlank z = false) (hz : z ≠ '(') :
    (trimStart (z :: s)).head? ≠ some '(' := by
  rw [trimStart_cons_of_not hblank]
  exact fun h => hz (Option.some.inj h)

/-- A text without brackets and braces is passed over up to where no bracket follows. -/
theorem nameCalls_append (hs : ∀ c ∈ s, c ∉ ['(', '\x7b', '\x7d'])
    (hend : ∀ z ∈ s.getLast?, z = ' ') (hrest : (trimStart rest).head? ≠ some '(') :
    nameCalls name.text before d (s ++ rest) = nameCalls name.text (s.reverse ++ before) d rest := by
  rw [nameCalls_append_of_not_mem fun h => absurd (hs _ h) (by decide)]
  · rw [foldl_braceDepth fun c hc => ?_]
    have := hs c hc
    simp only [List.mem_cons, List.not_mem_nil, or_false, not_or] at this
    exact this.2
  · intro z hz
    obtain rfl := hend z hz
    exact ⟨not_mem_ident name (by decide), by rwa [trimStart_cons_of_blank (by decide)]⟩

theorem constructorsFrom_append (hs : ∀ c ∈ s, c ∉ ['(', '\x7b', '\x7d'])
    (hend : ∀ z ∈ s.getLast?, z = ' ') (hrest : (trimStart rest).head? ≠ some '(') :
    constructorsFrom name scope before (s ++ rest) =
      constructorsFrom name scope (s.reverse ++ before) rest := by
  rw [constructorsFrom, nameCalls_append name hs hend hrest]
  rfl

/-- Braces that match are passed over with what they hold. -/
theorem constructorsFrom_braces (hm : Balanced '\x7b' '\x7d' 0 m) :
    constructorsFrom name scope before ('\x7b' :: (m ++ '\x7d' :: rest)) =
      constructorsFrom name scope ('\x7d' :: (m.reverse ++ '\x7b' :: before)) rest := by
  have hinner (call : NameCall) (h : call.depth ≠ 0) : NameCall.constructor?
      (String.ofList name.text) (scope.map fun i => String.ofList i.text) call = none := if_pos h
  unfold constructorsFrom
  rw [nameCalls_cons_of_not_word name (by decide)]
  have hblock := nameCalls_block ('\x7b' :: before) rest hinner name.isWordChar hm
  rw [nameCalls_cons_of_not_word (d := 1) name (by decide)] at hblock
  exact hblock

theorem constructorsFrom_cons (hz : isWordChar z = false) (hopen : z ≠ '\x7b') :
    constructorsFrom name scope before (z :: s) = constructorsFrom name scope (z :: before) s := by
  have hdepth : braceDepth 0 z = 0 := by
    unfold braceDepth
    rw [if_neg hopen, ite_self]
  rw [constructorsFrom, nameCalls_cons_of_not_word name hz, hdepth]
  rfl

theorem constructorsFrom_append_of_not_word (hs : ∀ c ∈ s, isWordChar c = false ∧ c ≠ '\x7b') :
    constructorsFrom name scope before (s ++ rest) =
      constructorsFrom name scope (s.reverse ++ before) rest := by
  induction s generalizing before with
  | nil => rfl
  | cons c s ih =>
    obtain ⟨hword, hopen⟩ := hs c List.mem_cons_self
    rw [List.cons_append, constructorsFrom_cons name scope hword hopen,
      ih fun d hd => hs d (List.mem_cons_of_mem _ hd), List.reverse_cons, List.append_assoc]
    rfl

/-- The scanner comes out of a block behind the line of its closing brace. -/
theorem constructorsFrom_block (hs : ∀ c ∈ s, c ∉ ['(', '\x7b', '\x7d'])
    (hend : ∀ z ∈ s.getLast?, z = ' ') (hm : Balanced '\x7b' '\x7d' 0 m) (before rest : List Char) :
    ∃ next, Fresh next ∧ constructorsFrom name scope before
        (s ++ '\x7b' :: (m ++ '\x7d' :: '\n' :: rest)) = constructorsFrom name scope next rest := by
  rw [constructorsFrom_append name scope hs hend
      (by exact head?_trimStart_cons (by decide) (by decide)),
    constructorsFrom_braces name scope hm, constructorsFrom_cons name scope (by decide) (by decide)]
  exact ⟨_, ⟨_, rfl, by simp⟩, rfl⟩

/-- A word before a bracket is passed over, if no constructor's name can stand there. -/
theorem constructorsFrom_word {w : List Char} (hw : ∀ c ∈ w, isLetterOrDigit c)
    (hbefore : ∀ z ∈ before.head?, isWordChar z = false)
    (hnone : constructorTypeParameters? before = none) (rest : List Char) :
    constructorsFrom name scope before (w ++ '(' :: rest) =
      constructorsFrom name scope ('(' :: (w.reverse ++ before)) rest := by
  have hother : ∀ z ∈ w, isWordChar z ∧ isBlank z = false := fun z hz =>
    ⟨isWordChar_of_isLetterOrDigit (hw z hz), isBlank_of_isLetterOrDigit (hw z hz)⟩
  have hbraces : ∀ z ∈ w ++ ['('], z ≠ '\x7b' ∧ z ≠ '\x7d' := by
    intro z hz
    constructor <;>
    · rintro rfl
      rcases List.mem_append.1 hz with hz | hz
      · exact absurd (hw _ hz) (by decide)
      · exact absurd hz (by decide)
  rw [constructorsFrom]
  by_cases hname : w = name.text
  · have hcall : NameCall.constructor? (String.ofList name.text)
        (scope.map fun i => String.ofList i.text) ⟨before, 0, rest⟩ = none := by
      rw [NameCall.constructor?, if_neg (by simp)]
      simp only [hnone]
    rw [hname, nameCalls_append_self name.isWordChar name.ne_nil hbefore, List.filterMap_cons, hcall]
    rfl
  · rw [nameCalls_append_of_ne name.isWordChar name.ne_nil hother hname, foldl_braceDepth hbraces]
    rfl

/-- What the scanner sees of a signature after its opening bracket, with the text after it. -/
def Signature.afterOpen (g : Signature) (rest : List Char) : List Char :=
  listed (g.params.map Param.print) ++ ')' :: (' ' :: printThrows g.throws ++
    '\x7b' :: (maskedText (mask g.body.text) ++ '\x7d' :: '\n' :: rest))

theorem Signature.maskedText_glyphs (g : Signature) (gs : List Glyph) :
    maskedText (g.glyphs ++ gs) = '(' :: g.afterOpen (maskedText gs) := by
  have hfeed : maskedText [.keep '\n'] = ['\n'] := rfl
  simp only [glyphs, maskedText_append, maskedText_keep, maskedText_enclosed, hfeed]
  simp [head, afterOpen]

theorem not_bracket_of_isFrontChar (h : isFrontChar c) :
    c ∉ ['(', ')', '\x7b', '\x7d'] := by
  intro hmem
  simp only [List.mem_cons, List.not_mem_nil, or_false] at hmem
  rcases hmem with rfl | rfl | rfl | rfl <;> exact absurd h (by decide)

theorem FrontText.not_bracket {k : List Char} (h : FrontText k s) :
    ∀ c ∈ s, c ∉ ['(', '\x7b', '\x7d'] := by
  intro c hc hmem
  refine not_bracket_of_isFrontChar (h.chars c hc) ?_
  simp only [List.mem_cons, List.not_mem_nil, or_false] at hmem ⊢
  tauto

theorem Signature.getLast?_throws (g : Signature) :
    ∀ z ∈ (' ' :: printThrows g.throws).getLast?, z = ' ' := by
  unfold printThrows
  split_ifs
  · rintro z ⟨⟩
    rfl
  · intro z hz
    rw [← List.append_assoc, ← List.cons_append, List.getLast?_concat] at hz
    exact (Option.some.inj hz).symm

/-- The scanner comes out of a signature behind the line of its closing brace. -/
theorem Signature.constructorsFrom_afterOpen (g : Signature) (before rest : List Char) :
    ∃ next, Fresh next ∧ constructorsFrom name scope before (g.afterOpen rest) =
      constructorsFrom name scope next rest := by
  have hparams := (g.frontText_params class_mem_openers).not_bracket
  have hthrows := (g.frontText_throws class_mem_openers).not_bracket
  have hlast := g.getLast?_throws
  unfold afterOpen
  generalize listed (g.params.map Param.print) = a at *
  have hend : ∀ z ∈ (a ++ ')' :: ' ' :: printThrows g.throws).getLast?, z = ' ' := by
    intro z hz
    rw [List.getLast?_append_of_ne_nil _ (by simp), List.getLast?_cons_cons] at hz
    exact hlast z hz
  have hchars : ∀ c ∈ a ++ ')' :: ' ' :: printThrows g.throws, c ∉ ['(', '\x7b', '\x7d'] := by
    simp only [List.forall_mem_append, List.forall_mem_cons] at hthrows ⊢
    exact ⟨hparams, by decide, hthrows⟩
  rw [← List.cons_append, ← List.append_assoc]
  exact constructorsFrom_block name scope hchars hend g.body.balanced before rest

variable {name scope}

/-- What stands before a result or the name of a constructor ends in a space, if there is any. -/
theorem getLast?_front (ms : List Modifier) (ps : List TypeParam) :
    ∀ z ∈ (printModifiers ms ++ if ps = [] then [] else printTypeParams ps ++ [' ']).getLast?,
      z = ' ' := by
  intro z hz
  split_ifs at hz
  · rcases List.eq_nil_or_concat ms with rfl | ⟨ms, m, rfl⟩
    · simp [printModifiers] at hz
    · rw [List.append_nil, printModifiers, List.concat_eq_append, List.flatMap_append] at hz
      simp at hz
      exact hz.symm
  · rw [← List.append_assoc, List.getLast?_concat] at hz
    exact (Option.some.inj hz).symm

theorem Fresh.head?_append (h : Fresh before) (hend : ∀ z ∈ s.getLast?, z = ' ') :
    ∀ c ∈ (s.reverse ++ before).head?, c = ' ' ∨ c = '\n' := by
  intro c hc
  rcases List.eq_nil_or_concat s with rfl | ⟨s, z, rfl⟩
  · rw [List.reverse_nil, List.nil_append, h.head?_eq] at hc
    exact .inr (Option.some.inj hc).symm
  · have hz : z = c := by simpa using hc
    exact .inl (hz.symm.trans (hend z (by simp)))

theorem Ident.head?_trimStart_append (i : Ident) (r : List Char) :
    (trimStart (i.text ++ r)).head? ≠ some '(' := by
  rw [trimStart_eq i.typeText.laid]
  obtain ⟨c, w, hw⟩ := List.exists_cons_of_ne_nil i.ne_nil
  have hc := i.isLetterOrDigit c (by rw [hw]; exact List.mem_cons_self)
  rw [hw]
  rintro ⟨⟩
  exact absurd hc (by decide)

theorem startsBody_throws (g : Signature) (r : List Char) :
    startsBody (' ' :: Signature.printThrows g.throws ++ '\x7b' :: r) := by
  have hspace : isBlank ' ' := by decide
  unfold startsBody Signature.printThrows
  split_ifs
  · rw [List.cons_append, trimStart_cons_of_blank hspace, List.nil_append,
      trimStart_cons_of_not (by decide)]
    rfl
  · have htrim : trimStart ("throws ".toList ++ (listed (g.throws.map ClassType.print) ++ [' ']) ++
        '\x7b' :: r) = "throws ".toList ++ (listed (g.throws.map ClassType.print) ++ [' ']) ++
          '\x7b' :: r := trimStart_cons_of_not (by decide)
    rw [List.cons_append, trimStart_cons_of_blank hspace, htrim]
    simp

/-- The name of the class between the front of a constructor and its parameters is read as a
constructor. -/
theorem constructor?_listed {own : List Ident} (hown : constructorTypeParameters? before =
      some (own.map fun i => String.ofList i.text)) (ps : List Param) (hrest : startsBody rest) :
    NameCall.constructor? (String.ofList name.text) (scope.map fun i => String.ofList i.text)
        ⟨before, 0, listed (ps.map Param.print) ++ ')' :: rest⟩ =
      some ⟨String.ofList name.text, ps.map (Param.parameter (scope ++ own))⟩ := by
  have hparams := frontText_listed class_mem_openers (typeText_params ps)
  have hclosing : closing? '(' ')' (listed (ps.map Param.print) ++ ')' :: rest) =
      some (listed (ps.map Param.print), rest) := by
    refine (closing?_eq_some_iff (by decide)).2 ⟨rfl, balanced_of_not_mem ?_ ?_⟩
    all_goals exact fun hmem => not_bracket_of_isFrontChar (hparams.chars _ hmem) (by decide)
  rw [NameCall.constructor?, if_neg (by simp)]
  simp only [hown, hclosing]
  rw [if_pos hrest, ← List.map_append, parameters_listed]

/-- A constructor is read as it is written. -/
theorem ConstructorDecl.constructor?_eq (c : ConstructorDecl) (h : Fresh before) (r : List Char) :
    NameCall.constructor? (String.ofList name.text) (scope.map fun i => String.ofList i.text)
      ⟨c.front.reverse ++ before, 0, c.signature.afterOpen r⟩ = some (c.constructor name scope) :=
  constructor?_listed (constructorTypeParameters?_front c h) c.signature.params
    (startsBody_throws c.signature _)

theorem ConstructorDecl.constructorsFrom_glyphs (name : Ident) (scope : List Ident)
    (c : ConstructorDecl) (h : Fresh before) (gs : List Glyph) :
    ∃ next, Fresh next ∧ constructorsFrom name scope before (maskedText (c.glyphs name ++ gs)) =
      c.constructor name scope :: constructorsFrom name scope next (maskedText gs) := by
  have hfront : FrontText "class".toList c.front := by
    have := frontText_front class_mem_openers (c.access.map Modifier.access).toList c.typeParams
      (frontText_nil class_mem_openers)
    rwa [List.append_nil] at this
  have hend : ∀ z ∈ c.front.getLast?, z = ' ' := getLast?_front _ _
  have hword : ∀ z ∈ (c.front.reverse ++ before).head?, isWordChar z = false := by
    intro z hz
    rcases h.head?_append hend z hz with rfl | rfl <;> decide
  obtain ⟨next, hnext, hrest⟩ := c.signature.constructorsFrom_afterOpen name scope
    ('(' :: (name.text.reverse ++ (c.front.reverse ++ before))) (maskedText gs)
  refine ⟨next, hnext, ?_⟩
  rw [glyphs, List.append_assoc, maskedText_append, maskedText_keep, c.signature.maskedText_glyphs,
    List.append_assoc, constructorsFrom_append name scope hfront.not_bracket hend
      (name.head?_trimStart_append _), constructorsFrom,
    nameCalls_append_self name.isWordChar name.ne_nil hword, List.filterMap_cons,
    c.constructor?_eq h, ← hrest]
  rfl

theorem MethodDecl.constructorsFrom_glyphs (name : Ident) (scope : List Ident) (m : MethodDecl)
    (h : Fresh before) (gs : List Glyph) :
    ∃ next, Fresh next ∧ constructorsFrom name scope before (maskedText (m.glyphs ++ gs)) =
      constructorsFrom name scope next (maskedText gs) := by
  have hfront : FrontText "class".toList (m.front ++ (m.resultText ++ [' '])) :=
    frontText_front class_mem_openers _ _ ((m.frontText_resultText class_mem_openers).append_cons
      (by decide) (by decide) (frontText_nil class_mem_openers))
  have hend : ∀ z ∈ (m.front ++ (m.resultText ++ [' '])).getLast?, z = ' ' := by
    intro z hz
    rw [← List.append_assoc, List.getLast?_concat] at hz
    exact (Option.some.inj hz).symm
  have htext : maskedText (m.glyphs ++ gs) = (m.front ++ (m.resultText ++ [' '])) ++
      (m.name.text ++ '(' :: m.signature.afterOpen (maskedText gs)) := by
    rw [glyphs, List.append_assoc, maskedText_append, maskedText_keep,
      m.signature.maskedText_glyphs]
    simp
  have hreverse : (m.front ++ (m.resultText ++ [' '])).reverse ++ before =
      ' ' :: (m.resultText.reverse ++ (m.front.reverse ++ before)) := by
    simp
  obtain ⟨next, hnext, hrest⟩ := m.signature.constructorsFrom_afterOpen name scope
    ('(' :: (m.name.text.reverse ++
      ' ' :: (m.resultText.reverse ++ (m.front.reverse ++ before)))) (maskedText gs)
  have hspace : ∀ z ∈ (' ' :: (m.resultText.reverse ++ (m.front.reverse ++ before))).head?,
      isWordChar z = false := by
    rintro z ⟨⟩
    decide
  have hstop : ∀ z ∈ (m.front.reverse ++ before).head?, isIdentChar z = false ∧ z ≠ '@' := by
    intro z hz
    rcases h.head?_append (getLast?_front _ _) z hz with rfl | rfl <;> decide
  refine ⟨next, hnext, ?_⟩
  rw [htext, constructorsFrom_append name scope hfront.not_bracket hend
    (m.name.head?_trimStart_append _), hreverse, ← hrest,
    constructorsFrom_word name scope m.name.isLetterOrDigit hspace
      (constructorTypeParameters?_result m.endsResult hstop)]

theorem not_word_of_code {gs : List Glyph} (h : ∀ g ∈ gs, g.code = ' ' ∨ g.code = '\n') :
    ∀ c ∈ maskedText gs, isWordChar c = false ∧ c ≠ '\x7b' := by
  intro c hc
  obtain ⟨g, hg, rfl⟩ := mem_maskedText hc
  rcases h g hg with h | h <;>
  · rw [h]
    decide

theorem FieldDecl.constructorsFrom_glyphs (name : Ident) (scope : List Ident) (f : FieldDecl)
    (before : List Char) (gs : List Glyph) :
    ∃ next, Fresh next ∧ constructorsFrom name scope before (maskedText (f.glyphs ++ gs)) =
      constructorsFrom name scope next (maskedText gs) := by
  have hfront := (f.frontText class_mem_openers).not_bracket
  have hend : ∀ z ∈ f.front.getLast?, z = ' ' := by
    intro z hz
    have hprint : f.front = printModifiers f.modifiers ++ (f.type.print ++
        ' ' :: (f.name.text ++ [' ', '='])) ++ [' '] := by
      simp [front]
    rw [hprint, List.getLast?_concat] at hz
    exact (Option.some.inj hz).symm
  have htext : maskedText (f.glyphs ++ gs) = f.front ++
      (('"' :: (maskedText (f.value.text.map .blank) ++ "\";\n".toList)) ++ maskedText gs) := by
    have hquote : maskedText (.keep '"' :: (f.value.text.map .blank ++ "\";\n".toList.map .keep)) =
        '"' :: (maskedText (f.value.text.map .blank) ++ "\";\n".toList) := by
      rw [maskedText_cons, maskedText_append, maskedText_keep]
      rfl
    rw [maskedText_append, glyphs, maskedText_append, maskedText_keep, hquote, List.append_assoc]
  have hvalue : ∀ c ∈ '"' :: (maskedText (f.value.text.map .blank) ++ "\";\n".toList),
      isWordChar c = false ∧ c ≠ '\x7b' := by
    simp only [List.forall_mem_cons, List.forall_mem_append]
    exact ⟨by decide, not_word_of_code fun g hg => code_blank hg, by decide⟩
  rw [htext, constructorsFrom_append name scope hfront hend
      (by exact head?_trimStart_cons (by decide) (by decide)),
    constructorsFrom_append_of_not_word name scope hvalue]
  exact ⟨_, ⟨_, by simp; rfl, by simp⟩, rfl⟩

theorem ClassHead.constructorsFrom_glyphs (name : Ident) (scope : List Ident) (h : ClassHead)
    (before : List Char) (hm : Balanced '\x7b' '\x7d' 0 m) (rest : List Char) :
    ∃ next, Fresh next ∧ constructorsFrom name scope before
        (maskedText h.glyphs ++ '\x7b' :: (m ++ '\x7d' :: '\n' :: rest)) =
      constructorsFrom name scope next rest := by
  have hdoc := not_word_of_code h.code_docGlyphs
  have htail : ∀ z ∈ ("class ".toList ++ (h.name.text ++ h.tail)).getLast?, z = ' ' := by
    intro z hz
    obtain ⟨r, hr⟩ := h.tail_eq_concat
    rw [hr, ← List.append_assoc, ← List.append_assoc, List.getLast?_concat] at hz
    exact (Option.some.inj hz).symm
  have htext : maskedText h.glyphs ++ '\x7b' :: (m ++ '\x7d' :: '\n' :: rest) =
      maskedText h.docGlyphs ++ ("public ".toList ++ (("class ".toList ++ (h.name.text ++ h.tail)) ++
        '\x7b' :: (m ++ '\x7d' :: '\n' :: rest))) := by
    simp only [glyphs, frontGlyphs, maskedText_append, maskedText_keep, List.append_assoc]
  rw [htext, constructorsFrom_append_of_not_word name scope hdoc,
    constructorsFrom_append name scope (by decide) (by decide)
      (by exact head?_trimStart_cons (by decide) (by decide))]
  exact constructorsFrom_block name scope h.frontText_keyword.not_bracket htail hm _ rest

/-- The constructors that the scanner finds in a class body are those of the class. -/
theorem ClassBody.constructorsFrom_glyphs (name : Ident) (scope : List Ident) (b : ClassBody)
    (h : Fresh before) :
    constructorsFrom name scope before (maskedText (b.glyphs name)) = b.constructors name scope := by
  induction b generalizing before with
  | nil => simp [glyphs, constructors, constructorsFrom, nameCalls]
  | constructor c b ih =>
    obtain ⟨next, hnext, heq⟩ := c.constructorsFrom_glyphs name scope h (b.glyphs name)
    rw [glyphs, heq, ih hnext]
    rfl
  | method m b ih =>
    obtain ⟨next, hnext, heq⟩ := m.constructorsFrom_glyphs name scope h (b.glyphs name)
    rw [glyphs, heq, ih hnext]
    rfl
  | field f b ih =>
    obtain ⟨next, hnext, heq⟩ := f.constructorsFrom_glyphs name scope before (b.glyphs name)
    rw [glyphs, heq, ih hnext]
    rfl
  | nested head body b _ ih =>
    have hfeed : Balanced '\x7b' '\x7d' 0 ('\n' :: maskedText (body.glyphs head.name)) :=
      (balanced_cons_of_ne (by decide) (by decide)).2 (body.balanced head.name)
    have htext : maskedText ((nested head body b).glyphs name) = maskedText head.glyphs ++
        '\x7b' :: ('\n' :: maskedText (body.glyphs head.name) ++
          '\x7d' :: '\n' :: maskedText (b.glyphs name)) := by
      rw [glyphs, maskedText_append, maskedText_append, maskedText_enclosed, maskedText_cons_feed,
        maskedText_cons_feed]
      simp
    obtain ⟨next, hnext, heq⟩ := head.constructorsFrom_glyphs name scope before hfeed
      (maskedText (b.glyphs name))
    rw [htext, heq, ih hnext]
    rfl

end Companion.Java.Syntax
