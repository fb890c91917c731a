import Companion.Proofs.OutputPaths
import Companion.Proofs.SourceScan
import Companion.Proofs.StandardTemplates

/-!
# Code that the scanner passes over

Code in which no class keyword stands but in class literals declares no class (`ClassFree`), what a
class body declares is put together from its members (`Declares.append`), and a comment without an
at sign has no tags (`scannedTags_eq_nil`).
-/

namespace Companion

namespace Java.Syntax

open Text
open Unicode (isBlank isWordChar)

variable {k s t m w rest : List Char} {c z : Char} {before gs : List Glyph}

instance : Decidable (Lacks k s) :=
  inferInstanceAs (Decidable (k ∉ _))

/-- Code outside of braces, without literals and without the word `k`. -/
structure CodeText (k s : List Char) : Prop where
  chars : ∀ c ∈ s, isOuterChar c ∧ isPlain c
  lacks : Lacks k s

theorem FrontText.codeText (h : FrontText k s) : CodeText k s where
  chars c hc := ⟨by simp [isOuterChar, h.chars c hc], isPlain_of_isFrontChar (h.chars c hc)⟩
  lacks := h.lacks

/-- Code that may stand between names: no word goes on across its ends. -/
structure Between (k s : List Char) : Prop where
  code : CodeText k s
  first : s.head?.any (!isWordChar ·)
  last : s.getLast?.any (!isWordChar ·)

instance : Decidable (CodeText k s) :=
  decidable_of_iff ((∀ c ∈ s, isOuterChar c ∧ isPlain c) ∧ Lacks k s)
    ⟨fun h => ⟨h.1, h.2⟩, fun h => ⟨h.chars, h.lacks⟩⟩

instance : Decidable (Between k s) :=
  decidable_of_iff (CodeText k s ∧ s.head?.any (!isWordChar ·) ∧ s.getLast?.any (!isWordChar ·))
    ⟨fun h => ⟨h.1, h.2.1, h.2.2⟩, fun h => ⟨h.code, h.first, h.last⟩⟩

/-- Code in which the braces match, without literals and without the word `k`. -/
structure Passed (k s : List Char) : Prop where
  plain : ∀ c ∈ s, isPlain c
  passable : Passable k (s.map .keep) []

namespace Between

/-- A name or another piece of code between two texts. -/
theorem append (hs : Between k s) (hw : CodeText k w) (ht : Between k t) :
    Between k (s ++ (w ++ t)) := by
  obtain ⟨c, hc, hcw⟩ := (Option.any_eq_true _ _).1 hs.last
  obtain ⟨d, hd, hdw⟩ := (Option.any_eq_true _ _).1 ht.first
  obtain ⟨s', rfl⟩ := List.getLast?_eq_some_iff.1 hc
  obtain ⟨t', rfl⟩ := List.head?_eq_some_iff.1 hd
  rw [Bool.not_eq_true'] at hcw hdw
  refine ⟨⟨?_, ?_⟩, ?_, ?_⟩
  · exact List.forall_mem_append.2
      ⟨hs.code.chars, List.forall_mem_append.2 ⟨hw.chars, ht.code.chars⟩⟩
  · have hs' : Lacks k s' := ((lacks_append_cons hcw).1 hs.code.lacks).1
    have ht' : Lacks k t' := ((lacks_append_cons (a := []) hdw).1 ht.code.lacks).2
    rw [List.append_assoc]
    exact (lacks_append_cons hcw).2 ⟨hs', (lacks_append_cons hdw).2 ⟨hw.lacks, ht'⟩⟩
  · rw [List.head?_append_of_ne_nil _ (by simp)]
    exact hs.first
  · rw [List.getLast?_append_of_ne_nil _ (by simp), List.getLast?_append_of_ne_nil _ (by simp)]
    exact ht.last

theorem endsWords (h : Between k s) : EndsWords s := by
  obtain ⟨c, hc, hcw⟩ := (Option.any_eq_true _ _).1 h.last
  intro d hd
  obtain rfl : c = d := Option.some.inj (hc.symm.trans hd)
  simpa using hcw

theorem passed (h : Between k s) : Passed k s where
  plain c hc := (h.code.chars c hc).2
  passable := by
    refine .code ?_ ?_ fun g hg => ?_
    · rw [map_code_keep]
      exact h.code.lacks
    · rw [map_code_keep]
      exact h.endsWords
    · obtain ⟨c, hc, rfl⟩ := List.mem_map.1 hg
      exact (h.code.chars c hc).1

end Between

theorem passed_nil (hk : k ∈ openers) : Passed k [] where
  plain := by simp
  passable := passable_of_no_word hk (by simp)

namespace Passed

theorem append (hs : Passed k s) (ht : Passed k t) : Passed k (s ++ t) where
  plain := List.forall_mem_append.2 ⟨hs.plain, ht.plain⟩
  passable := by
    rw [List.map_append]
    exact hs.passable.append ht.passable

theorem withBody (hs : Passed k s) (ht : Passed k t) (hk : k ∈ openers) :
    Passed k (withBody s t) := by
  have hfeed : Passable k [.keep '\n'] [] := passable_of_no_word hk (by decide)
  have htext : Companion.withBody s t = s ++ '\x7b' :: (t ++ ['\x7d', '\n']) := by
    simp [Companion.withBody]
  rw [htext]
  refine ⟨?_, ?_⟩
  · simp only [List.forall_mem_append, List.forall_mem_cons]
    exact ⟨hs.plain, by decide, ht.plain, by decide, by decide, by simp⟩
  · have hbody := (Passable.braces ht.passable).append hfeed
    have hall := hs.passable.append hbody
    simpa [enclosed] using hall

theorem flatMap {α : Type*} {f : α → List Char} (hk : k ∈ openers) (l : List α)
    (h : ∀ x ∈ l, Passed k (f x)) : Passed k (l.flatMap f) := by
  induction l with
  | nil => exact passed_nil hk
  | cons x l ih =>
    exact (h x List.mem_cons_self).append (ih fun y hy => h y (List.mem_cons_of_mem _ hy))

theorem mask_append (h : Passed k s) (rest : List Char) :
    mask (s ++ rest) = s.map .keep ++ mask rest :=
  mask_code_append h.plain rest

theorem balanced (h : Passed k s) : Balanced '\x7b' '\x7d' 0 s := by
  have hs := h.passable.balanced
  rwa [maskedText_keep] at hs

end Passed

/-- Code that declares no class, wherever it stands. -/
def ClassFree (s : List Char) : Prop :=
  ∀ before gs, namesFrom before (s.map .keep ++ gs) =
    namesFrom ((s.map .keep).reverse ++ before) gs

theorem Passed.classFree (h : Passed "class".toList s) : ClassFree s :=
  fun before gs => h.passable.namesFrom_append before gs

namespace ClassFree

theorem append (hs : ClassFree s) (ht : ClassFree t) : ClassFree (s ++ t) := fun before gs => by
  rw [List.map_append, List.append_assoc, hs, ht, List.reverse_append, List.append_assoc]

theorem of_not_word (h : ∀ c ∈ s, isWordChar c = false) : ClassFree s := by
  induction s with
  | nil => exact fun before gs => rfl
  | cons c s ih =>
    obtain ⟨hword, hs⟩ := List.forall_mem_cons.1 h
    intro before gs
    rw [List.map_cons, List.cons_append, namesFrom_cons hword, ih hs, List.reverse_cons,
      List.append_assoc]
    rfl

theorem withBody (hs : ClassFree s) (ht : ClassFree t) : ClassFree (withBody s t) :=
  hs.append ((of_not_word (by decide)).append (ht.append (of_not_word (by decide))))

end ClassFree

theorem classFree_literal : ClassFree ("class".toList ++ ";".toList) := by
  have hend : ClassFree ";".toList := .of_not_word (by decide)
  intro before gs
  have hliteral : namesFrom before ("class".toList.map .keep ++ .keep ';' :: gs) =
      namesFrom (("class".toList.map .keep).reverse ++ before) (.keep ';' :: gs) := by
    refine congrArg _ (classNamesFrom_append_of_none fun p q hpq hq _ => ?_)
    by_contra hname
    obtain ⟨name, hname⟩ := Option.ne_none_iff_exists'.1 hname
    obtain ⟨z, r, hcode, hz⟩ := eq_of_nameAfterClass? hname
    have htail : q ∈ ("class".toList.map Glyph.keep).tails := (List.mem_tails _ _).2 ⟨p, hpq.symm⟩
    have htails : ("class".toList.map Glyph.keep).tails =
        ["class".toList, "lass".toList, "ass".toList, "ss".toList, "s".toList, []].map
          (·.map Glyph.keep) := by decide
    rw [htails, List.mem_map] at htail
    obtain ⟨w, hw, rfl⟩ := htail
    rw [map_code_map_keep_append] at hcode
    simp only [List.mem_cons, List.not_mem_nil, or_false] at hw
    rcases hw with rfl | rfl | rfl | rfl | rfl | rfl
    · have hz' : ';' = z := (List.cons.inj (List.append_cancel_left hcode)).1
      rw [← hz'] at hz
      exact absurd hz (by decide)
    all_goals exact absurd (List.cons.inj hcode).1 (by decide)
  rw [List.map_append, List.append_assoc]
  exact hliteral.trans (hend _ gs)

theorem withBody_append (s t rest : List Char) :
    withBody s t ++ rest = s ++ '\x7b' :: (t ++ '\x7d' :: '\n' :: rest) := by
  simp [withBody]

theorem head?_trimStart_word (hne : w ≠ []) (hw : ∀ c ∈ w, isLetterOrDigit c)
    (rest : List Char) : (trimStart (w ++ rest)).head? ≠ some '(' := by
  obtain ⟨c, w, rfl⟩ := List.exists_cons_of_ne_nil hne
  have hc := hw c List.mem_cons_self
  rw [List.cons_append]
  refine head?_trimStart_cons (isBlank_of_isLetterOrDigit hc) ?_
  rintro rfl
  exact absurd hc (by decide)

/-- Members of the class of that name, which the scanner reads as these constructors. -/
def Declares (name : Ident) (s : List Char) (cs : List Constructor) : Prop :=
  ∀ before rest, ∃ next, constructorsFrom name [] before (s ++ rest) =
    cs ++ constructorsFrom name [] next rest

variable {name : Ident}

namespace Declares

theorem append {cs ds : List Constructor} (hs : Declares name s cs) (ht : Declares name t ds) :
    Declares name (s ++ t) (cs ++ ds) := by
  intro before rest
  obtain ⟨middle, hmiddle⟩ := hs before (t ++ rest)
  obtain ⟨next, hnext⟩ := ht middle rest
  exact ⟨next, by rw [List.append_assoc, hmiddle, hnext, List.append_assoc]⟩

theorem flatMap {α : Type*} {f : α → List Char} {g : α → Constructor} (l : List α)
    (h : ∀ x ∈ l, Declares name (f x) [g x]) : Declares name (l.flatMap f) (l.map g) := by
  induction l with
  | nil => exact fun before rest => ⟨before, rfl⟩
  | cons x l ih =>
    exact (h x List.mem_cons_self).append (ih fun y hy => h y (List.mem_cons_of_mem _ hy))

/-- A body without a bracket before it, or what follows a bracket up to the end of a body. -/
theorem withBody (hs : ∀ c ∈ s, c ∉ ['(', '\x7b', '\x7d']) (hend : ∀ z ∈ s.getLast?, z = ' ')
    (hm : Balanced '\x7b' '\x7d' 0 m) : Declares name (withBody s m) [] := by
  intro before rest
  obtain ⟨next, -, hnext⟩ := constructorsFrom_block name [] hs hend hm before rest
  exact ⟨next, by rw [withBody_append, hnext]; rfl⟩

end Declares

/-- The end of a statement after angle brackets declares no constructor. -/
theorem declares_statement (hs : ∀ c ∈ s, c ∉ ['(', '\x7b', '\x7d'])
    (hend : s.getLast? = some '>') : Declares name (s ++ "();\n".toList) [] := by
  intro before rest
  have hcalls : nameCalls name.text before 0 (s ++ ("();\n".toList ++ rest)) =
      nameCalls name.text (s.reverse ++ before) 0 ("();\n".toList ++ rest) := by
    rw [nameCalls_append_of_not_mem fun h => absurd (hs _ h) (by decide)]
    · rw [foldl_braceDepth fun c hc => ?_]
      have := hs c hc
      simp only [List.mem_cons, List.not_mem_nil, or_false, not_or] at this
      exact this.2
    · intro z hz
      obtain rfl : '>' = z := Option.some.inj (hend.symm.trans hz)
      exact ⟨not_mem_ident name (by decide), head?_trimStart_cons (by decide) (by decide)⟩
  refine ⟨"();\n".toList.reverse ++ (s.reverse ++ before), ?_⟩
  rw [List.append_assoc, constructorsFrom, hcalls, ← constructorsFrom,
    constructorsFrom_append_of_not_word name [] (by decide)]
  rfl

/-- A method with a result declares no constructor, even if it has the name of the class. -/
theorem declares_method (front result w params : List Char)
    (hs : s = front ++ (result ++ ' ' :: (w ++ '(' :: params)))
    (hfront : ∀ c ∈ front ++ result, c ∉ ['(', '\x7b', '\x7d'])
    (hlast : ∀ c ∈ front.getLast?, isIdentChar c = false ∧ c ≠ '@') (hne : front ≠ [])
    (hresult : EndsResult result) (hw : ∀ c ∈ w, isLetterOrDigit c) (hwne : w ≠ [])
    (hparams : ∀ c ∈ params, c ∉ ['(', '\x7b', '\x7d']) (hend : ∀ z ∈ params.getLast?, z = ' ')
    (hm : Balanced '\x7b' '\x7d' 0 m) : Declares name (withBody s m) [] := by
  subst hs
  intro before rest
  have hstop : ∀ c ∈ (front.reverse ++ before).head?, isIdentChar c = false ∧ c ≠ '@' := by
    rwa [List.head?_append_of_ne_nil _ (by simpa using hne), List.head?_reverse]
  have htext : Companion.withBody (front ++ (result ++ ' ' :: (w ++ '(' :: params))) m ++ rest =
      (front ++ result ++ [' ']) ++ (w ++ '(' :: (Companion.withBody params m ++ rest)) := by
    simp [withBody_append]
  have hreverse : (front ++ result ++ [' ']).reverse ++ before =
      ' ' :: (result.reverse ++ (front.reverse ++ before)) := by simp
  have hspace : ∀ z ∈ (' ' :: (result.reverse ++ (front.reverse ++ before))).head?,
      isWordChar z = false := by
    rintro z ⟨⟩
    decide
  have hbody : Declares name (Companion.withBody params m) [] := .withBody hparams hend hm
  obtain ⟨next, hnext⟩ := hbody
    ('(' :: (w.reverse ++ ' ' :: (result.reverse ++ (front.reverse ++ before)))) rest
  refine ⟨next, ?_⟩
  rw [htext, constructorsFrom_append name [] (List.forall_mem_append.2 ⟨hfront, by decide⟩)
      (by simp) (head?_trimStart_word hwne hw _), hreverse,
    constructorsFrom_word name [] hw hspace (constructorTypeParameters?_result hresult hstop),
    hnext]

theorem declares_constructor (ps : List Param) (hm : Balanced '\x7b' '\x7d' 0 m) :
    Declares name (withBody ("\n\tprotected ".toList ++ (name.text ++ ("(".toList ++
      (listed (ps.map Param.print) ++ ") ".toList)))) m)
      [⟨String.ofList name.text, ps.map (Param.parameter [])⟩] := by
  intro before rest
  let front := ' ' :: ("protected".toList.reverse ++ ('\t' :: '\n' :: before))
  have htext : Companion.withBody ("\n\tprotected ".toList ++ (name.text ++ ("(".toList ++
        (listed (ps.map Param.print) ++ ") ".toList)))) m ++ rest =
      "\n\tprotected ".toList ++ (name.text ++ '(' ::
        (Companion.withBody (listed (ps.map Param.print) ++ ") ".toList) m ++ rest)) := by
    simp [withBody_append]
  have hfront : constructorTypeParameters? front =
      some (([] : List Ident).map fun i => String.ofList i.text) := by
    have hword := constructorTypeParameters?_word (w := "protected".toList)
      (r := '\t' :: '\n' :: before) (by decide) (by decide) (by rintro c ⟨⟩; decide)
    rwa [if_pos (by decide)] at hword
  have hspace : ∀ c ∈ front.head?, isWordChar c = false := by
    rintro c ⟨⟩
    decide
  have hbody : startsBody (' ' :: '\x7b' :: (m ++ '\x7d' :: '\n' :: rest)) := by
    have hblank : isBlank ' ' := by decide
    rw [startsBody, trimStart_cons_of_blank hblank, trimStart_cons_of_not (by decide)]
    rfl
  have hcall : NameCall.constructor? (String.ofList name.text)
      (([] : List Ident).map fun i => String.ofList i.text) ⟨front, 0,
        Companion.withBody (listed (ps.map Param.print) ++ ") ".toList) m ++ rest⟩ =
        some ⟨String.ofList name.text, ps.map (Param.parameter [])⟩ := by
    rw [withBody_append, List.append_assoc]
    exact constructor?_listed hfront ps hbody
  have hparams : ∀ c ∈ listed (ps.map Param.print) ++ ") ".toList, c ∉ ['(', '\x7b', '\x7d'] :=
    List.forall_mem_append.2
      ⟨(frontText_listed class_mem_openers (typeText_params ps)).not_bracket, by decide⟩
  have hafter : Declares name
      (Companion.withBody (listed (ps.map Param.print) ++ ") ".toList) m) [] :=
    .withBody hparams (by simp) hm
  obtain ⟨next, hnext⟩ := hafter ('(' :: (name.text.reverse ++ front)) rest
  refine ⟨next, ?_⟩
  rw [htext, constructorsFrom_append name [] (by decide) (by decide)
      (name.head?_trimStart_append _)]
  change constructorsFrom name [] front _ = _
  rw [constructorsFrom, nameCalls_append_self name.isWordChar name.ne_nil hspace,
    List.filterMap_cons, hcall]
  exact congrArg _ hnext

theorem not_mem_docInner (h : z ∉ s) : z ∉ docInner s := fun hmem =>
  h ((dropPrefixes_suffix _ _).subset ((dropSuffixes_isPrefix _ _).subset hmem))

theorem subset_of_mem_lines (h : t ∈ lines s) : t ⊆ s := by
  have hpieces : ∀ l ∈ s.splitOn '\n', l ⊆ s := fun l hl => (Path.not_mem_of_mem_splitOn hl).2
  unfold lines at h
  split at h
  · simp at h
  · rename_i last ended heq
    have hsplit : s.splitOn '\n' = ended.reverse ++ [last] := by
      rw [← List.reverse_cons, ← heq, List.reverse_reverse]
    rw [hsplit] at hpieces
    have hended : ∀ l ∈ ended.reverse.map fun l => if l.getLast? = some '\r' then l.dropLast else l,
        l ⊆ s := by
      intro l hl
      obtain ⟨u, hu, rfl⟩ := List.mem_map.1 hl
      have hus := hpieces u (List.mem_append_left _ hu)
      split_ifs
      · exact fun c hc => hus (List.mem_of_mem_dropLast hc)
      · exact hus
    simp only at h
    split_ifs at h
    · exact hended t h
    · rcases List.mem_append.1 h with h | h
      · exact hended t h
      · exact hpieces t (by simp [List.mem_singleton.1 h])

theorem not_mem_trim (h : z ∉ s) : z ∉ trim s := by
  exact fun hmem => h ((List.dropWhile_suffix _).subset ((trimEnd_isPrefix _).subset hmem))

theorem ofLine_eq_text (h : '@' ∉ s) : ∃ content, DocLine.ofLine s = .text content := by
  have hcontent {l : List Char} (hl : '@' ∉ l) : DocLine.ofContent l = .text l := by
    rcases l with _ | ⟨c, l⟩
    · rfl
    · have hc : c ≠ '@' := fun hc => hl (by simp [hc])
      unfold DocLine.ofContent
      split
      · rename_i heq
        exact absurd (List.cons.inj heq).1 hc
      · rfl
  have htrim : '@' ∉ trimStart s := fun hmem => h ((List.dropWhile_suffix _).subset hmem)
  unfold DocLine.ofLine
  split
  · rename_i rest heq
    rw [heq] at htrim
    exact ⟨_, hcontent (not_mem_trim fun hmem => htrim (List.mem_cons_of_mem _ hmem))⟩
  · exact ⟨_, hcontent (not_mem_trim htrim)⟩

theorem docTags_eq_nil (h : '@' ∉ s) : docTags s = [] := by
  have hlines : ∀ l ∈ lines (docInner s), '@' ∉ l := fun l hl hmem =>
    not_mem_docInner h (subset_of_mem_lines hl hmem)
  rw [docTags]
  generalize lines (docInner s) = ls at hlines
  suffices hfold : ((ls.map DocLine.ofLine).foldr DocLine.above ([], [])).2 = [] from hfold
  induction ls with
  | nil => rfl
  | cons l ls ih =>
    obtain ⟨hl, hls⟩ := List.forall_mem_cons.1 hlines
    obtain ⟨content, hcontent⟩ := ofLine_eq_text hl
    rw [List.map_cons, List.foldr_cons, hcontent]
    exact ih hls

theorem suffix_of_fromLast? {p : List Char} (h : fromLast? p s = some t) : t <:+ s := by
  induction s with
  | nil =>
    rw [fromLast?] at h
    split_ifs at h
    rw [← Option.some.inj h]
  | cons c s ih =>
    rw [fromLast?] at h
    rcases hs : fromLast? p s with _ | u
    · simp only [hs] at h
      split_ifs at h
      rw [← Option.some.inj h]
    · simp only [hs] at h
      exact (ih (hs.trans h)).trans (List.suffix_cons c s)

theorem prefix_of_breakOn? {p : List Char} {x : List Char × List Char} (h : breakOn? p s = some x) :
    x.1 <+: s := by
  induction s generalizing x with
  | nil =>
    rw [breakOn?] at h
    split_ifs at h
    rw [← Option.some.inj h]
  | cons c s ih =>
    rw [breakOn?] at h
    split at h
    · rw [← Option.some.inj h]
      exact List.nil_prefix
    · obtain ⟨y, hy, rfl⟩ := Option.map_eq_some_iff.1 h
      exact List.cons_prefix_cons.2 ⟨rfl, ih hy⟩

/-- Where no at sign stands before a class keyword, no tags are read. -/
theorem scannedTags_eq_nil (h : ∀ g ∈ before, g.raw ≠ '@') : scannedTags before = [] := by
  have hraw : '@' ∉ (before.takeWhile inReach).reverse.map Glyph.raw := by
    intro hmem
    obtain ⟨g, hg, hat⟩ := List.mem_map.1 hmem
    exact h g ((List.takeWhile_prefix _).subset (List.mem_reverse.1 hg)) hat
  rw [scannedTags, docComment?_eq]
  rcases hlast : fromLast? "/**".toList ((before.takeWhile inReach).reverse.map Glyph.raw)
    with _ | t
  · rfl
  · have ht : '@' ∉ t := fun hmem => hraw ((suffix_of_fromLast? hlast).subset hmem)
    rw [Option.bind_some]
    rcases hbreak : breakOn? "*/".toList t with _ | x
    · rfl
    · have hx : '@' ∉ x.1 ++ "*/".toList := fun hmem =>
        (List.mem_append.1 hmem).elim (fun hmem => ht ((prefix_of_breakOn? hbreak).subset hmem))
          (by decide)
      exact docTags_eq_nil hx

end Java.Syntax

end Companion
