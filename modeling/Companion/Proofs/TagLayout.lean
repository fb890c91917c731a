import Companion.Proofs.TagParams
import Mathlib.Data.List.Forall2

/-!
# Tags in any layout

The lines of a documentation comment may be indented, start with a star and end in white space, and
lines may be blank. The tags of the comment are those that start its lines, each with the lines up
to the next tag as its value, and with the parameters that are listed in it (`docTags_of_layout`).
-/

namespace Companion.Java

open Text
open Unicode (isBlank)

/-- White space within a line. -/
structure Margin extends Blanks where
  inline : '\n' ∉ text

/-- A line of a documentation comment: white space, the star that it may start with, and its
content. A content without the star does not start with one. -/
structure CommentLine where
  indent : Margin
  /-- The white space behind the star. -/
  star : Option Margin
  content : List Char
  trail : Margin
  inline : '\n' ∉ content
  first : ∀ c ∈ content.head?, isBlank c = false
  last : ∀ c ∈ content.getLast?, isBlank c = false
  starred : star = none → content.head? ≠ some '*'

namespace CommentLine

def starText : Option Margin → List Char
  | none => []
  | some pad => '*' :: pad.text

def text (l : CommentLine) : List Char :=
  l.indent.text ++ (starText l.star ++ (l.content ++ l.trail.text))

/-- The line starts no tag. -/
def Plain (l : CommentLine) : Prop :=
  l.content.head? ≠ some '@'

end CommentLine

/-- A tag with the lines that belong to it. The first chunk of its value stands on the line of the
tag, the others on lines of their own. -/
structure WrittenTag where
  name : List Char
  gap : Blanks
  /-- The first chunk, if there is one. -/
  first : List Char
  line : CommentLine
  more : List CommentLine
  ne : name ≠ []
  chars : ∀ c ∈ name, isTagNameChar c
  parted : gap.text = [] → first = []
  trimmed : ∀ c ∈ first.head?, isBlank c = false
  spelled : line.content = '@' :: (name ++ (gap.text ++ first))
  plain : ∀ l ∈ more, l.Plain

namespace WrittenTag

def lines (t : WrittenTag) : List CommentLine :=
  t.line :: t.more

/-- The chunks of the value. -/
def chunks (t : WrittenTag) : List (List Char) :=
  (t.first :: t.more.map CommentLine.content).filter (!·.isEmpty)

def value (t : WrittenTag) : List Char :=
  join [' '] t.chunks

end WrittenTag

/-- The text between the delimiters of a comment with these lines. -/
def innerOf (ls : List CommentLine) : List Char :=
  join ['\n'] (ls.map CommentLine.text)

variable {s t p : List Char}

theorem dropPrefixes_append (hne : p ≠ []) (h : ¬p <+: s) : dropPrefixes p (p ++ s) = s := by
  have hpre : p.isPrefixOf (p ++ s) := List.isPrefixOf_iff_prefix.2 (List.prefix_append p s)
  rw [dropPrefixes, dif_pos ⟨hne, hpre⟩, List.drop_left, dropPrefixes,
    dif_neg fun hs => h (List.isPrefixOf_iff_prefix.1 hs.2)]

theorem docInner_comment (hfirst : s.head? ≠ some '/') (hlast : ¬"*/".toList <:+ s) :
    docInner ("/**".toList ++ (s ++ "*/".toList)) = s := by
  have hopen : ¬['/', '*', '*'] <+: s ++ "*/".toList := by
    rintro ⟨t, ht⟩
    rcases s with _ | ⟨c, s⟩
    · simp at ht
    · exact hfirst (congrArg some (List.cons.inj ht).1.symm)
  have hclose : ¬"*/".toList.reverse <+: s.reverse := fun h => hlast (List.reverse_prefix.1 h)
  have hreverse : (s ++ "*/".toList).reverse = "*/".toList.reverse ++ s.reverse :=
    List.reverse_append
  have hprefix : dropPrefixes ['/', '*', '*'] ("/**".toList ++ (s ++ "*/".toList)) =
      s ++ "*/".toList := dropPrefixes_append (by decide) hopen
  have hsuffix : dropSuffixes ['*', '/'] (s ++ "*/".toList) = s := by
    rw [dropSuffixes, hreverse]
    exact (congrArg List.reverse (dropPrefixes_append (by decide) hclose)).trans s.reverse_reverse
  rw [docInner, hprefix, hsuffix]

theorem ofLine_star {u : List Char} (h : trimStart s = '*' :: u) :
    DocLine.ofLine s = DocLine.ofContent (trim u) := by
  rw [DocLine.ofLine, h]
  rfl

theorem ofLine_of_ne (h : (trimStart s).head? ≠ some '*') :
    DocLine.ofLine s = DocLine.ofContent (trim (trimStart s)) := by
  rw [DocLine.ofLine]
  split
  · rename_i heq
    exact absurd (by rw [heq]; rfl) h
  · rfl

theorem ofLine_append_of_blank (ht : ∀ c ∈ t, isBlank c) (s : List Char) :
    DocLine.ofLine (s ++ t) = DocLine.ofLine s := by
  have htrim : trimStart t = [] := List.dropWhile_eq_nil_iff.2 ht
  have hend (s : List Char) : trim (s ++ t) = trim s := (trim_append_of_blank ht s).1
  rcases hs : trimStart s with _ | ⟨c, u⟩
  · have hst : trimStart (s ++ t) = [] := by rw [trimStart_append, if_pos hs, htrim]
    rw [ofLine_of_ne (by simp [hst]), ofLine_of_ne (by simp [hs]), hs, hst]
  · have hst : trimStart (s ++ t) = c :: (u ++ t) := by
      rw [trimStart_append, if_neg (by simp [hs]), hs, List.cons_append]
    by_cases hc : c = '*'
    · subst hc
      rw [ofLine_star hs, ofLine_star hst, hend]
    · rw [ofLine_of_ne (by simp [hst, hc]), ofLine_of_ne (by simp [hs, hc]), hs, hst,
        ← List.cons_append, hend]

/-- A line is read as its content. -/
theorem ofLine_text (l : CommentLine) : DocLine.ofLine l.text = DocLine.ofContent l.content := by
  rcases hstar : l.star with _ | pad
  · have htext : l.text = l.indent.text ++ l.content ++ l.trail.text := by
      simp [CommentLine.text, hstar, CommentLine.starText]
    have hstart : trimStart (l.indent.text ++ l.content) = l.content :=
      trimStart_append_of_blank l.indent.blank l.first
    have hhead : (trimStart (l.indent.text ++ l.content)).head? ≠ some '*' := by
      rw [hstart]
      exact l.starred hstar
    have hcontent : trim l.content = l.content := by
      have := trim_between (a := []) (b := []) (by simp) (by simp) l.first l.last
      rwa [List.nil_append, List.append_nil] at this
    rw [htext, ofLine_append_of_blank l.trail.blank, ofLine_of_ne hhead, hstart, hcontent]
  · have hstart : trimStart l.text = '*' :: (pad.text ++ (l.content ++ l.trail.text)) := by
      rw [CommentLine.text, hstar]
      exact trimStart_append_of_blank l.indent.blank (by
        rintro c ⟨⟩
        decide)
    rw [ofLine_star hstart, trim_between pad.blank l.trail.blank l.first l.last]

theorem ofContent_plain {l : CommentLine} (h : l.Plain) :
    DocLine.ofContent l.content = .text l.content := by
  rw [DocLine.ofContent]
  intro rest heq
  exact h (by rw [heq]; rfl)

theorem isBlank_of_isTagNameChar {c : Char} (h : isTagNameChar c) : isBlank c = false := by
  rw [← Bool.not_eq_true]
  intro hblank
  simp only [isTagNameChar, Unicode.isAlphanumeric_of_isBlank hblank, Bool.false_or,
    Bool.or_eq_true, beq_iff_eq] at h
  rcases h with rfl | rfl <;> exact absurd hblank (by decide)

theorem ofContent_line (t : WrittenTag) :
    DocLine.ofContent t.line.content = .tag t.name t.first := by
  have hname : ∀ c ∈ t.name, !isBlank c := fun c hc => by
    simp [isBlank_of_isTagNameChar (t.chars c hc)]
  have hgap : (t.gap.text ++ t.first).takeWhile (!isBlank ·) = [] ∧
      (t.gap.text ++ t.first).dropWhile (!isBlank ·) = t.gap.text ++ t.first := by
    have hblank := t.gap.blank
    rcases hg : t.gap.text with _ | ⟨c, g⟩
    · rw [t.parted hg]
      exact ⟨rfl, rfl⟩
    · have hc : isBlank c := hblank c (by simp [hg])
      simp [hc]
  have htake : (t.name ++ (t.gap.text ++ t.first)).takeWhile (!isBlank ·) = t.name := by
    rw [List.takeWhile_append_of_pos hname, hgap.1, List.append_nil]
  have hdrop : (t.name ++ (t.gap.text ++ t.first)).dropWhile (!isBlank ·) =
      t.gap.text ++ t.first := by
    rw [List.dropWhile_append_of_pos hname, hgap.2]
  have hlast : ∀ c ∈ t.first.getLast?, isBlank c = false := by
    intro c hc
    have hne : t.first ≠ [] := fun hnil => by simp [hnil] at hc
    refine t.line.last c ?_
    rwa [t.spelled, List.getLast?_cons_of_ne_nil (by simp [hne]),
      List.getLast?_append_of_ne_nil _ (by simp [hne]), List.getLast?_append_of_ne_nil _ hne]
  have htrim : trim (t.gap.text ++ t.first) = t.first := by
    have := trim_between (b := []) t.gap.blank (by simp) t.trimmed hlast
    rwa [List.append_nil] at this
  have hvalid : (!t.name.isEmpty && t.name.all isTagNameChar) = true := by
    simpa [t.ne] using t.chars
  rw [t.spelled, DocLine.ofContent]
  simp only [htake, hdrop, htrim, hvalid, if_true]

/-- Two ways in which the lines below are read, up to blank text lines. -/
def Alike (p q : List (List Char) × List Tag) : Prop :=
  p.1.filter (!·.isEmpty) = q.1.filter (!·.isEmpty) ∧ p.2 = q.2

theorem Alike.above {p q : List (List Char) × List Tag} (h : Alike p q) (l : DocLine) :
    Alike (l.above p) (l.above q) := by
  obtain ⟨ps, pt⟩ := p
  obtain ⟨qs, qt⟩ := q
  obtain ⟨hfilter, htags⟩ := h
  simp only at hfilter htags
  cases l with
  | text s => exact ⟨by simp only [DocLine.above, List.filter_cons, hfilter], htags⟩
  | tag n v => exact ⟨rfl, by simp only [DocLine.above, List.filter_cons, hfilter, htags]⟩

theorem Alike.foldr {p q : List (List Char) × List Tag} (h : Alike p q) (ls : List DocLine) :
    Alike (ls.foldr DocLine.above p) (ls.foldr DocLine.above q) := by
  induction ls with
  | nil => exact h
  | cons l ls ih => exact ih.above l

/-- How a text ends its lines does not matter to its tags. -/
theorem foldr_lines (s : List Char) :
    (((lines s).map DocLine.ofLine).foldr DocLine.above ([], [])).2 =
      (((s.splitOn '\n').map DocLine.ofLine).foldr DocLine.above ([], [])).2 := by
  rcases hs : (s.splitOn '\n').reverse with _ | ⟨last, ended⟩
  · simp [List.splitOn_ne_nil] at hs
  · have hsplit : s.splitOn '\n' = ended.reverse ++ [last] := by
      rw [← List.reverse_reverse (s.splitOn '\n'), hs, List.reverse_cons]
    have hended : (ended.reverse.map fun l => if l.getLast? = some '\r' then l.dropLast else l).map
        DocLine.ofLine = ended.reverse.map DocLine.ofLine := by
      rw [List.map_map]
      refine List.map_congr_left fun l _ => ?_
      by_cases hl : l.getLast? = some '\r'
      · obtain ⟨u, rfl⟩ := List.getLast?_eq_some_iff.1 hl
        have hreturn : ∀ c ∈ ['\r'], isBlank c := by decide
        simp only [Function.comp_apply, if_pos hl, List.dropLast_concat]
        exact (ofLine_append_of_blank hreturn u).symm
      · simp only [Function.comp_apply, if_neg hl]
    have hlast : lines s =
        (ended.reverse.map fun l => if l.getLast? = some '\r' then l.dropLast else l) ++
          if last.isEmpty then [] else [last] := by
      rw [lines, hs]
      rcases last with _ | ⟨c, last⟩ <;> simp
    rw [hlast, hsplit, List.map_append, List.map_append, hended, List.foldr_append,
      List.foldr_append]
    split_ifs with hempty
    · have hblank : Alike ([], []) (DocLine.above (DocLine.ofLine last) ([], [])) := by
        rw [List.isEmpty_iff.1 hempty]
        exact ⟨rfl, rfl⟩
      exact (hblank.foldr _).2
    · rfl

theorem foldr_plain {ls : List CommentLine} (h : ∀ l ∈ ls, l.Plain)
    (p : List (List Char) × List Tag) :
    (ls.map fun l => DocLine.ofContent l.content).foldr DocLine.above p =
      (ls.map CommentLine.content ++ p.1, p.2) := by
  induction ls with
  | nil => rfl
  | cons l ls ih =>
    obtain ⟨hl, hls⟩ := List.forall_mem_cons.1 h
    rw [List.map_cons, List.foldr_cons, ih hls, ofContent_plain hl]
    rfl

/-- The lines of tags are read as the tags. -/
theorem foldr_tags (ts : List WrittenTag) :
    ((ts.flatMap WrittenTag.lines).map fun l => DocLine.ofContent l.content).foldr DocLine.above
      ([], []) = ([], ts.map fun t => tagOf t.name t.value) := by
  induction ts with
  | nil => rfl
  | cons t ts ih =>
    rw [List.flatMap_cons, List.map_append, List.foldr_append, ih, WrittenTag.lines, List.map_cons,
      List.foldr_cons, foldr_plain t.plain, ofContent_line]
    simp only [DocLine.above, List.append_nil, List.map_cons]
    rfl

theorem not_mem_text (l : CommentLine) : '\n' ∉ l.text := by
  have hstar : '\n' ∉ CommentLine.starText l.star := by
    rcases l.star with _ | pad
    · simp [CommentLine.starText]
    · simp [CommentLine.starText, pad.inline]
  simp [CommentLine.text, l.indent.inline, hstar, l.inline, l.trail.inline]

theorem docTags_of_lines (ls : List CommentLine) (hfirst : (innerOf ls).head? ≠ some '/')
    (hlast : ¬"*/".toList <:+ innerOf ls) :
    docTags ("/**".toList ++ (innerOf ls ++ "*/".toList)) =
      ((ls.map fun l => DocLine.ofContent l.content).foldr DocLine.above ([], [])).2 := by
  rw [docTags, docInner_comment hfirst hlast, foldr_lines]
  rcases ls with _ | ⟨l, ls⟩
  · rfl
  · have hsplit : (innerOf (l :: ls)).splitOn '\n' = (l :: ls).map CommentLine.text := by
      refine List.splitOn_intercalate '\n' ?_ (by simp)
      rw [List.forall_mem_map]
      exact fun l _ => not_mem_text l
    rw [hsplit, List.map_map]
    simp only [Function.comp_def, ofLine_text]

/-- The tags of a comment are those written in it, whatever its layout. If the value of a tag is a
list of items, its parameters are those of the items. -/
theorem docTags_of_layout (description : List CommentLine) (ts : List WrittenTag)
    (hplain : ∀ l ∈ description, l.Plain)
    (hfirst : (innerOf (description ++ ts.flatMap WrittenTag.lines)).head? ≠ some '/')
    (hlast : ¬"*/".toList <:+ innerOf (description ++ ts.flatMap WrittenTag.lines)) :
    List.Forall₂ (fun t d => d.name = String.ofList t.name ∧ d.value = String.ofList t.value ∧
        ∀ is, Itemized is t.value → d.params =
          paramsOf (is.map fun i => (String.ofList i.key, String.ofList i.value)))
      ts (docTags ("/**".toList ++
        (innerOf (description ++ ts.flatMap WrittenTag.lines) ++ "*/".toList))) := by
  rw [docTags_of_lines _ hfirst hlast, List.map_append, List.foldr_append, foldr_tags,
    foldr_plain hplain]
  refine List.forall₂_map_right_iff.2 (List.forall₂_same.2 ?_)
  exact fun t _ => ⟨rfl, rfl, fun is h => params_tagOf_itemized h t.name⟩

def Margin.none : Margin :=
  ⟨.none, by decide⟩

def Margin.space : Margin :=
  ⟨.space, by decide⟩

def WrittenTag.request : WrittenTag where
  name := "request".toList
  gap := .space
  first := "superclass=\"Base\"".toList
  line := ⟨.space, none, "@request superclass=\"Base\"".toList, .none, by decide, by decide,
    by decide, by decide⟩
  more := [⟨.space, some .space, "timeout='30".toList, .none, by decide, by decide, by decide,
    by decide⟩, ⟨.space, none, "s'".toList, .space, by decide, by decide, by decide, by decide⟩,
    ⟨.space, none, [], .none, by decide, by decide, by decide, by decide⟩]
  ne := by decide
  chars := by decide
  parted := by decide
  trimmed := by decide
  spelled := by decide
  plain := by simp [CommentLine.Plain]

theorem docTags_of_layout_request : ∃ d : Tag,
    docTags "/** @request superclass=\"Base\"\n * timeout='30\n s' \n */".toList = [d] ∧
      d.name = "request" ∧ d.value = "superclass=\"Base\" timeout='30 s'" ∧
      d.params = [("superclass", "Base"), ("timeout", "30 s")] := by
  have h := docTags_of_layout [] [.request] (by simp) (by decide) (by decide)
  obtain ⟨d, ds, ⟨hname, hvalue, hparams⟩, hds, htags⟩ := List.forall₂_cons_left_iff.1 h
  obtain rfl := List.forall₂_nil_left_iff.1 hds
  have hitems : Itemized [⟨"superclass".toList, "Base".toList, .double, by decide, by decide,
      by decide⟩, ⟨"timeout".toList, "30 s".toList, .single, by decide, by decide, by decide⟩]
      WrittenTag.request.value := .cons _ (by decide) (by decide) (.single _)
  exact ⟨d, htags, hname, hvalue, (hparams _ hitems).trans (by decide)⟩

end Companion.Java
