import Companion.Proofs.DocComment
import Companion.Proofs.MaskedText
import Companion.Proofs.OffsetConstructors

/-!
# When the scan fails

Cutting by offsets finds what the scan of the glyphs finds, class by class (`class?_eq`), because
all offsets are those of parts. The one exception is the text between the type parameters and the
body of a class: it ends before it starts if the type parameter list closes inside the body
(`ClassName.read_eq_crossed_iff`), and then the scan fails. Nothing else makes it fail
(`scan_fails_iff`).
-/

namespace Companion.Java

open Text
open Unicode (isBlank)

namespace OffsetScan

variable {p rest : List Glyph}

def isEnd (c : Char) : Bool :=
  c == ';' || c == '\x7b' || c == '\x7d'

/-- The reach of a documentation comment starts after the last semicolon or brace. -/
theorem start_eq (hf : ∀ g ∈ p, g.Faithful) :
    ((lastAt? startsWithEnd (maskedText p)).map (· + 1)).getD 0 =
      byteCount ((p.reverse.dropWhile fun g => !isEnd g.code).map Glyph.raw) := by
  have hhead (c : Char) (s : List Char) : startsWithEnd (c :: s) = isEnd c := by
    simp [startsWithEnd, startsWith, isEnd]
  have hmem : ∀ g ∈ p.reverse.dropWhile fun g => !isEnd g.code, g.Faithful := fun g hg =>
    hf g (List.mem_reverse.1 ((List.dropWhile_suffix _).subset hg))
  rw [lastAt?_of_head hhead, ← maskedText_reverse, dropWhile_maskedText (!isEnd ·),
    ← byteCount_maskedText hmem]
  obtain ⟨d, hd⟩ : ∃ d, (p.reverse.dropWhile fun g => !isEnd g.code) = d := ⟨_, rfl⟩
  rw [hd]
  rcases d with _ | ⟨g, d⟩
  · rfl
  · have hend : isEnd g.code := by
      have := List.head?_dropWhile_not (fun g : Glyph => !isEnd g.code) p.reverse
      rw [hd] at this
      simpa using this
    have hcode : g.code = ';' ∨ g.code = '\x7b' ∨ g.code = '\x7d' := by
      simpa [isEnd, or_assoc] using hend
    have hspace : g.code ≠ ' ' := by rcases hcode with h | h | h <;> rw [h] <;> decide
    have hunit : g.code.utf8Size = 1 := by rcases hcode with h | h | h <;> rw [h] <;> rfl
    rw [maskedText_cons, text_of_ne hspace, List.singleton_append, byteCount_cons, hunit,
      Nat.add_comm 1]
    rfl

/-- The documentation comment is cut out of the source at offsets of the masked text. -/
theorem docComment?_eq_ok (hf : ∀ g ∈ p, g.Faithful) :
    docComment? ((p ++ rest).map Glyph.raw) (maskedText (p ++ rest)) (byteCount (maskedText p)) =
      .ok (Java.docComment? p.reverse) := by
  have hbefore : sliceTo (maskedText (p ++ rest)) (byteCount (maskedText p)) = .ok (maskedText p) :=
    sliceTo_eq_ok (maskedText_append _ _) rfl
  set near := p.reverse.takeWhile fun g => !isEnd g.code with hnear
  set far := p.reverse.dropWhile fun g => !isEnd g.code with hfar
  have hp : p = far.reverse ++ near.reverse := by
    rw [← List.reverse_append, List.takeWhile_append_dropWhile, List.reverse_reverse]
  have hregion : slice ((p ++ rest).map Glyph.raw) (byteCount (far.map Glyph.raw))
      (byteCount (maskedText p)) = .ok (near.reverse.map Glyph.raw) := by
    refine slice_eq_ok (p := far.reverse.map Glyph.raw) (r := rest.map Glyph.raw) ?_ ?_ ?_
    · rw [← List.map_append, ← List.map_append, ← List.append_assoc, ← hp]
    · rw [List.map_reverse, byteCount_reverse]
    · rw [byteCount_maskedText hf, ← byteCount_append, ← List.map_append, ← hp]
  have hstart := start_eq hf
  rw [← hfar] at hstart
  have hreach : p.reverse.takeWhile inReach = near := rfl
  rw [docComment?_eq, hreach, docComment?]
  simp only [hbefore, hstart, hregion, bind, Except.bind]
  set region := near.reverse.map Glyph.raw
  rcases hlast : fromLast? "/**".toList region with _ | text
  · rw [lastAt?_isPrefixOf_of_none hlast]
    rfl
  · obtain ⟨a, ha, hopening⟩ := lastAt?_isPrefixOf_of_some (by decide) hlast
    have htail : sliceFrom region (byteCount a) = .ok text := sliceFrom_eq_ok ha rfl
    simp only [hopening, htail, Option.bind_some]
    rcases hbreak : breakOn? "*/".toList text with _ | ⟨comment, after⟩
    · rw [firstAt?_isPrefixOf_of_none hbreak]
      rfl
    · obtain ⟨htext, hlength⟩ := firstAt?_isPrefixOf_of_some (by decide) hbreak
      have hdoc : slice region (byteCount a) (byteCount comment + byteCount a + 2) =
          .ok (comment ++ "*/".toList) := by
        refine slice_eq_ok (p := a) (r := after) ?_ rfl ?_
        · rw [ha, htext, List.append_assoc]
        · rw [byteCount_append, show byteCount "*/".toList = 2 from rfl]
          omega
      simp only [hlength, hdoc, Option.map_some]

end OffsetScan

theorem takeWhile_ne_append {c : Char} {s r : List Char} (h : c ∉ s) :
    (s ++ c :: r).takeWhile (· != c) = s := by
  have hall : ∀ x ∈ s, (x != c) = true := fun x hx => bne_iff_ne.2 (ne_of_mem_of_not_mem hx h)
  rw [List.takeWhile_append_of_pos hall]
  simp

theorem dropWhile_ne_append {c : Char} {s r : List Char} (h : c ∉ s) :
    (s ++ c :: r).dropWhile (· != c) = c :: r := by
  have hall : ∀ x ∈ s, (x != c) = true := fun x hx => bne_iff_ne.2 (ne_of_mem_of_not_mem hx h)
  rw [List.dropWhile_append_of_pos hall]
  simp

/-- Of two ways to part a text, one at the first `c` and one at some `d`, either the first is the
earlier one, or nothing before the second is a `c`. -/
theorem parted_cases {c d : Char} (hcd : c ≠ d) {s t u v : List Char} (hs : c ∉ s)
    (h : s ++ c :: t = u ++ d :: v) :
    (∃ a, u = s ++ c :: a) ∨ c ∉ u ∧ ∃ a, s = u ++ d :: a ∧ v = a ++ c :: t := by
  rcases List.append_eq_append_iff.1 h with ⟨a, rfl, ha⟩ | ⟨a, rfl, ha⟩
  · rcases a with _ | ⟨x, a⟩
    · simp [hcd] at ha
    · simp only [List.cons_append, List.cons.injEq] at ha
      exact .inl ⟨a, by rw [ha.1]⟩
  · rcases a with _ | ⟨x, a⟩
    · simp [hcd.symm] at ha
    · simp only [List.cons_append, List.cons.injEq] at ha
      exact .inr ⟨fun hm => hs (List.mem_append_left _ hm), a, by rw [ha.1], ha.2⟩

/-- The first character of a text that is no white space. -/
theorem head?_trimStart_eq_some_iff {c : Char} (hc : isBlank c = false) {s : List Char} :
    (trimStart s).head? = some c ↔
      ∃ blanks r, s = blanks ++ c :: r ∧ ∀ x ∈ blanks, isBlank x := by
  constructor
  · intro h
    obtain ⟨r, hr⟩ := List.head?_eq_some_iff.1 h
    refine ⟨s.takeWhile isBlank, r, ?_, fun x hx => List.all_eq_true.1 List.all_takeWhile x hx⟩
    rw [← hr, trimStart, List.takeWhile_append_dropWhile]
  · rintro ⟨blanks, r, rfl, hb⟩
    rw [trimStart, List.dropWhile_append_of_pos hb]
    simp [hc]

/-- The text after a class name has a body if its first brace is closed. -/
theorem ofAfter?_eq_some_iff {after header body : List Char} :
    ClassText.ofAfter? after = some ⟨header, body⟩ ↔
      ∃ behind, after = header ++ '\x7b' :: (body ++ '\x7d' :: behind) ∧ '\x7b' ∉ header ∧
        Balanced '\x7b' '\x7d' 0 body := by
  constructor
  · intro h
    unfold ClassText.ofAfter? at h
    split at h
    · simp at h
    · rename_i x rest hdrop
      obtain ⟨⟨b, behind⟩, hclosing, heq⟩ := Option.map_eq_some_iff.1 h
      simp only [ClassText.mk.injEq] at heq
      obtain ⟨rfl, rfl⟩ := heq
      obtain ⟨rfl, hb⟩ := (closing?_eq_some_iff (by decide)).1 hclosing
      have hx : x = '\x7b' := by
        have := List.head?_dropWhile_not (· != '\x7b') after
        rw [hdrop] at this
        simpa using this
      subst hx
      refine ⟨behind, ?_, fun hm => ?_, hb⟩
      · rw [← hdrop, List.takeWhile_append_dropWhile]
      · have := List.all_eq_true.1 (List.all_takeWhile (p := (· != '\x7b')) (l := after)) _ hm
        simp at this
  · rintro ⟨behind, rfl, hno, hb⟩
    unfold ClassText.ofAfter?
    rw [dropWhile_ne_append hno, takeWhile_ne_append hno]
    simp only [(closing?_eq_some_iff (by decide)).2 ⟨rfl, hb⟩, Option.map_some]

/-- The type parameter list that the text starts with closes after the first brace of the text, and
that brace is closed too. -/
def Crosses (after : List Char) : Prop :=
  ∃ header body behind blanks inside rest,
    after = header ++ '\x7b' :: (body ++ '\x7d' :: behind) ∧ '\x7b' ∉ header ∧
    Balanced '\x7b' '\x7d' 0 body ∧
    after = blanks ++ '<' :: (inside ++ '>' :: rest) ∧ (∀ c ∈ blanks, isBlank c) ∧
    Balanced '<' '>' 0 inside ∧ header.length < (blanks ++ '<' :: inside).length

/-- A header that starts with a type parameter list. -/
theorem header_eq {header t : List Char} (h : (trimStart header).head? = some '<') :
    ∃ blanks r, header = blanks ++ '<' :: r ∧ (∀ c ∈ blanks, isBlank c) ∧
      (trimStart (header ++ '\x7b' :: t)).drop 1 = r ++ '\x7b' :: t := by
  obtain ⟨blanks, r, rfl, hb⟩ := (head?_trimStart_eq_some_iff rfl).1 h
  refine ⟨blanks, r, rfl, hb, ?_⟩
  rw [List.append_assoc, trimStart, List.dropWhile_append_of_pos hb]
  rfl

theorem crosses_iff {after : List Char} :
    Crosses after ↔ ∃ header body inside rest,
      ClassText.ofAfter? after = some ⟨header, body⟩ ∧ (trimStart header).head? = some '<' ∧
      closing? '<' '>' ((trimStart after).drop 1) = some (inside, rest) ∧ '\x7b' ∈ inside := by
  constructor
  · rintro ⟨header, body, behind, blanks, inside, rest, h₁, hno, hbody, h₂, hblank, hinside, hlen⟩
    obtain ⟨r, rfl, hr⟩ : ∃ r, header = blanks ++ '<' :: r ∧
        inside ++ '>' :: rest = r ++ '\x7b' :: (body ++ '\x7d' :: behind) := by
      rcases parted_cases (by decide) hno (h₁.symm.trans h₂) with ⟨a, rfl⟩ | ⟨-, r, hr, hv⟩
      · exact absurd (hblank '\x7b' (by simp)) (by decide)
      · exact ⟨r, hr, hv⟩
    have hlt : r.length < inside.length := by
      simp only [List.length_append, List.length_cons] at hlen
      omega
    refine ⟨_, body, inside, rest, ofAfter?_eq_some_iff.2 ⟨behind, h₁, hno, hbody⟩,
      (head?_trimStart_eq_some_iff rfl).2 ⟨blanks, r, rfl, hblank⟩, ?_, ?_⟩
    · rw [closing?_eq_some_iff (by decide), h₂, trimStart, List.dropWhile_append_of_pos hblank]
      exact ⟨rfl, hinside⟩
    · have hnor : '\x7b' ∉ r := fun hm => hno (by simp [hm])
      rcases parted_cases (by decide) hnor hr.symm with ⟨a, rfl⟩ | ⟨-, a, rfl, -⟩
      · simp
      · simp only [List.length_append, List.length_cons] at hlt
        omega
  · rintro ⟨header, body, inside, rest, hafter, hhead, hclosing, hmem⟩
    obtain ⟨behind, rfl, hno, hbody⟩ := ofAfter?_eq_some_iff.1 hafter
    obtain ⟨blanks, r, rfl, hblank, hdrop⟩ := header_eq (t := body ++ '\x7d' :: behind) hhead
    obtain ⟨hr, hinside⟩ := (closing?_eq_some_iff (by decide)).1 (hdrop ▸ hclosing)
    refine ⟨_, body, behind, blanks, inside, rest, rfl, hno, hbody, ?_, hblank, hinside, ?_⟩
    · rw [← hr]
      simp
    · have hnor : '\x7b' ∉ r := fun hm => hno (by simp [hm])
      rcases parted_cases (by decide) hnor hr with ⟨a, rfl⟩ | ⟨hnot, -⟩
      · simp
      · exact absurd hmem hnot

/-- A class is crossed exactly if the text after its name is. -/
theorem ClassName.read_eq_crossed_iff {package name : String} {path : Option String}
    {n : ClassName} :
    n.read package path = .crossed name ↔
      name = String.ofList n.name ∧ Crosses (maskedText n.after) := by
  rw [crosses_iff]
  unfold ClassName.read
  dsimp only
  rcases hafter : ClassText.ofAfter? (maskedText n.after) with _ | ⟨header, body⟩
  · simp
  · simp only [Option.some.injEq, ClassText.mk.injEq, and_assoc, exists_eq_left', exists_and_left]
    split_ifs with hhead
    · rcases hclosing : closing? '<' '>' ((trimStart (maskedText n.after)).drop 1) with _ | ⟨i, r⟩
      · simp
      · by_cases hmem : '\x7b' ∈ i
        · simp [hmem, hhead, eq_comm]
        · simp [hmem]
    · simp [hhead]

namespace OffsetScan

variable {pre after header body behind inside rest : List Char}

/-- A header without type parameters is cut out whole. -/
theorem header?_of_ne (pre : List Char) (hafter : after = header ++ '\x7b' :: behind)
    (hhead : (trimStart header).head? ≠ some '<') :
    header? (pre ++ after) (byteCount pre) (byteCount (pre ++ header)) =
      .ok (some ⟨[], header⟩) := by
  have hcut : slice (pre ++ after) (byteCount pre) (byteCount (pre ++ header)) = .ok header :=
    slice_eq_ok (by rw [hafter]) rfl (byteCount_append _ _)
  have hstart : startsWith '<' (trimStart header) = false := by simpa [startsWith] using hhead
  simp only [header?, hcut, hstart, bind, Except.bind]
  rfl

/-- What becomes of a header with type parameters depends on where their list is closed. -/
theorem header?_of_eq (pre : List Char) (hafter : after = header ++ '\x7b' :: behind)
    (hno : '\x7b' ∉ header) (hhead : (trimStart header).head? = some '<')
    (hsize : byteCount (pre ++ after) < 2 ^ 31) :
    match closing? '<' '>' ((trimStart after).drop 1) with
    | none => header? (pre ++ after) (byteCount pre) (byteCount (pre ++ header)) = .ok none
    | some (inside, rest) =>
      if '\x7b' ∈ inside then
        ∃ i j, j < i ∧ header? (pre ++ after) (byteCount pre) (byteCount (pre ++ header)) =
          .error (.slice i j)
      else
        header? (pre ++ after) (byteCount pre) (byteCount (pre ++ header)) =
          .ok (some ⟨Java.typeParameterNames inside, rest.takeWhile (· != '\x7b')⟩) := by
  have hunit : ('<' : Char).utf8Size = 1 := rfl
  have hunit' : ('>' : Char).utf8Size = 1 := rfl
  have hcut : slice (pre ++ after) (byteCount pre) (byteCount (pre ++ header)) = .ok header :=
    slice_eq_ok (by rw [hafter]) rfl (byteCount_append _ _)
  have hstart : startsWith '<' (trimStart header) = true := by simpa [startsWith] using hhead
  have hfrom : sliceFrom (pre ++ after) (byteCount pre) = .ok after := sliceFrom_eq_ok rfl rfl
  obtain ⟨blanks, r, rfl, hblank, hdrop⟩ := header_eq (t := behind) hhead
  have hopen : '<' ∉ blanks := fun hm => absurd (hblank _ hm) (by decide)
  have hafter' : after = blanks ++ '<' :: (r ++ '\x7b' :: behind) := by rw [hafter]; simp
  have hfirst : firstAt? (startsWith '<') after = some (byteCount blanks) := by
    rw [hafter', firstAt?_startsWith hopen]
  have hmatch : matchingForward? (pre ++ after) (byteCount pre + byteCount blanks) '<' '>' =
      (closing? '<' '>' (r ++ '\x7b' :: behind)).map
        fun x => byteCount pre + byteCount blanks + 1 + byteCount x.1 := by
    rw [hafter', ← List.append_assoc, ← byteCount_append]
    exact matchingForward?_eq (pre ++ blanks) (r ++ '\x7b' :: behind)
  rw [← hafter] at hdrop
  rw [hdrop]
  simp only [header?, hcut, hstart, hfrom, hfirst, hmatch, bind, Except.bind, if_true]
  rcases hclosing : closing? '<' '>' (r ++ '\x7b' :: behind) with _ | ⟨inside, rest⟩
  · rfl
  · obtain ⟨hr, -⟩ := (closing?_eq_some_iff (by decide)).1 hclosing
    have hwhole : pre ++ after = pre ++ blanks ++ '<' :: (inside ++ '>' :: rest) := by
      rw [hafter', hr, List.append_assoc]
    have hinside : slice (pre ++ after) (byteCount pre + byteCount blanks + 1)
        (byteCount pre + byteCount blanks + 1 + byteCount inside) = .ok inside :=
      slice_eq_ok (p := pre ++ blanks ++ ['<']) (r := '>' :: rest) (by rw [hwhole]; simp)
        (by simp; omega) (by simp; omega)
    have hnames := typeParameterNames_eq_ok inside (by
      have := congrArg byteCount hwhole
      simp only [byteCount_append, byteCount_cons] at this hsize
      omega)
    simp only [Option.map_some, hinside, hnames]
    have hnor : '\x7b' ∉ r := fun hm => hno (by simp [hm])
    rcases parted_cases (by decide) hnor hr with ⟨a, rfl⟩ | ⟨hmem, clauses, rfl, hrest⟩
    · rw [if_pos (by simp)]
      refine ⟨_, _, ?_, by rw [slice_eq_error]; simp; omega⟩
      simp
      omega
    · rw [if_neg hmem]
      have hnoc : '\x7b' ∉ clauses := fun hm => hnor (by simp [hm])
      have hclauses : slice (pre ++ after)
          (byteCount pre + byteCount blanks + 1 + byteCount inside + 1)
          (byteCount (pre ++ (blanks ++ '<' :: (inside ++ '>' :: clauses)))) = .ok clauses :=
        slice_eq_ok (p := pre ++ blanks ++ '<' :: (inside ++ ['>'])) (r := '\x7b' :: behind)
          (by rw [hwhole, hrest]; simp) (by simp; omega) (by simp; omega)
      rw [hclauses, hrest, takeWhile_ne_append hnoc]

/-! ## Classes -/

variable {package : String} {path : Option String} {glyphs p m : List Glyph} {n : ClassName}

/-- The parts of a class are cut out at the offsets of its keyword and its braces. -/
theorem declarationAt_eq_ok (package : String) (path : Option String) (h : Header)
    (hf : ∀ g ∈ glyphs, g.Faithful) (hn : n.Parts glyphs p m)
    (hsize : byteCount (maskedText glyphs) < 2 ^ 31)
    (hmasked : maskedText glyphs = pre ++ '\x7b' :: (body ++ '\x7d' :: behind))
    (hclauses : byteCount h.clauses < 2 ^ 31) :
    declarationAt package path (glyphs.map Glyph.raw) (maskedText glyphs) (String.ofList n.name)
      (byteCount (maskedText p)) (byteCount pre) (byteCount pre + 1 + byteCount body) h =
      .ok (declarationOf package path n h body) := by
  have hunit : ('\x7b' : Char).utf8Size = 1 := rfl
  have hcut : slice (maskedText glyphs) (byteCount pre + 1) (byteCount pre + 1 + byteCount body) =
      .ok body :=
    slice_eq_ok (p := pre ++ ['\x7b']) (r := '\x7d' :: behind) (by rw [hmasked]; simp)
      (by simp; omega) (by simp; omega)
  have hdoc : docComment? (glyphs.map Glyph.raw) (maskedText glyphs) (byteCount (maskedText p)) =
      .ok (Java.docComment? n.before) := by
    have hp : ∀ g ∈ p, g.Faithful := fun g hg =>
      hf g (by rw [hn.eq_append]; exact List.mem_append_left _ hg)
    rw [hn.eq_append, hn.before_eq]
    exact docComment?_eq_ok hp
  have hbrace {c : Char} (hc : isNameChar c = false) : c ∉ (String.ofList n.name).toList := by
    rw [String.toList_ofList]
    exact fun hm => by simp [hn.name_chars c hm] at hc
  have hsmall : byteCount body < 2 ^ 31 := by
    rw [hmasked] at hsize
    simp only [byteCount_append, byteCount_cons] at hsize
    omega
  have hconstructors := constructors_eq_ok h.typeParameters body
    (hbrace (c := '\x7b') (by decide)) (hbrace (c := '\x7d') (by decide)) hsmall
  simp only [declarationAt, superclass?_eq_ok _ hclauses, hdoc, hcut, hconstructors, bind,
    Except.bind]
  rfl

theorem class?_of_none {source : List Char} {name : String} {keyword : Nat}
    (h : ClassText.ofAfter? after = none) :
    class? package path source (pre ++ after) name keyword (byteCount pre) = .ok none := by
  have hfrom : sliceFrom (pre ++ after) (byteCount pre) = .ok after := sliceFrom_eq_ok rfl rfl
  by_cases hm : '\x7b' ∈ after
  · obtain ⟨header, t, hafter, hno⟩ := List.eq_append_cons_of_mem hm
    have hfirst : firstAt? (startsWith '\x7b') after = some (byteCount header) := by
      rw [hafter, firstAt?_startsWith hno]
    have hclose : matchingForward? (pre ++ after) (byteCount pre + byteCount header)
        '\x7b' '\x7d' = none := by
      rw [ClassText.ofAfter?, hafter, dropWhile_ne_append hno, Option.map_eq_none_iff] at h
      rw [hafter, ← List.append_assoc, ← byteCount_append, matchingForward?_eq, h]
      rfl
    simp [class?, hfrom, hfirst, hclose, bind, Except.bind]
  · simp [class?, hfrom, firstAt?_startsWith_of_not_mem hm, bind, Except.bind]

/-- A class name with a body is read on from its header. -/
theorem class?_of_some (package : String) (path : Option String) (pre source : List Char)
    (name : String) (keyword : Nat)
    (hafter : after = header ++ '\x7b' :: (body ++ '\x7d' :: behind)) (hno : '\x7b' ∉ header)
    (hbody : Balanced '\x7b' '\x7d' 0 body) :
    class? package path source (pre ++ after) name keyword (byteCount pre) =
      header? (pre ++ after) (byteCount pre) (byteCount (pre ++ header)) >>= fun
        | none => .ok none
        | some h => (declarationAt package path source (pre ++ after) name keyword
            (byteCount (pre ++ header)) (byteCount (pre ++ header) + 1 + byteCount body) h).map
              some := by
  have hfrom : sliceFrom (pre ++ after) (byteCount pre) = .ok after := sliceFrom_eq_ok rfl rfl
  have hfirst : firstAt? (startsWith '\x7b') after = some (byteCount header) := by
    rw [hafter, firstAt?_startsWith hno]
  have hclose : matchingForward? (pre ++ after) (byteCount (pre ++ header)) '\x7b' '\x7d' =
      some (byteCount (pre ++ header) + 1 + byteCount body) := by
    rw [hafter, ← List.append_assoc, matchingForward?_eq,
      (closing?_eq_some_iff (by decide)).2 ⟨rfl, hbody⟩]
    rfl
  rw [byteCount_append] at hclose ⊢
  rcases hh : header? (pre ++ after) (byteCount pre) (byteCount pre + byteCount header) with
    e | _ | h
  · simp [class?, hfrom, hfirst, hclose, hh, bind, Except.bind]
  · simp [class?, hfrom, hfirst, hclose, hh, bind, Except.bind]
  · simp [class?, hfrom, hfirst, hclose, hh, bind, Except.bind]

/-- What is found at the offsets of a class name is what the scan of the glyphs finds. -/
theorem class?_eq (package : String) (path : Option String) (hf : ∀ g ∈ glyphs, g.Faithful)
    (hn : n.Parts glyphs p m) (hsize : byteCount (maskedText glyphs) < 2 ^ 31)
    {result : Except Panic (Option Declaration)}
    (hr : class? package path (glyphs.map Glyph.raw) (maskedText glyphs) (String.ofList n.name)
      (byteCount (maskedText p)) (byteCount (maskedText (p ++ m))) = result) :
    match n.read package path with
    | .declared d => result = .ok (some d)
    | .bodiless _ => result = .ok none
    | .crossed _ => ∃ i j, j < i ∧ result = .error (.slice i j) := by
  have hmasked := hn.maskedText_eq
  unfold ClassName.read
  dsimp only
  rcases hof : ClassText.ofAfter? (maskedText n.after) with _ | ⟨header, body⟩
  · rw [← hr, hmasked]
    exact class?_of_none hof
  · obtain ⟨behind, hafter, hno, hbody⟩ := ofAfter?_eq_some_iff.1 hof
    have hclass := class?_of_some package path (maskedText (p ++ m)) (glyphs.map Glyph.raw)
      (String.ofList n.name) (byteCount (maskedText p)) hafter hno hbody
    have hpre : maskedText glyphs =
        (maskedText (p ++ m) ++ header) ++ '\x7b' :: (body ++ '\x7d' :: behind) := by
      rw [hmasked, hafter, List.append_assoc]
    have hdeclared (h : Header) (hclauses : h.clauses.Sublist (maskedText n.after)) :=
      declarationAt_eq_ok package path h hf hn hsize hpre (by
        have := byteCount_le_of_sublist hclauses
        rw [hmasked, byteCount_append] at hsize
        omega)
    rw [← hmasked, hr] at hclass
    by_cases hhead : (trimStart header).head? = some '<'
    · have hh := header?_of_eq (maskedText (p ++ m)) hafter hno hhead (by rwa [← hmasked])
      rw [← hmasked] at hh
      simp only [if_pos hhead]
      rcases hclosing : closing? '<' '>' ((trimStart (maskedText n.after)).drop 1) with
        _ | ⟨inside, rest⟩
      · simp only [hclosing] at hh
        rw [hclass, hh]
        rfl
      · simp only [hclosing] at hh ⊢
        split_ifs at hh ⊢ with hmem
        · obtain ⟨i, j, hij, hh⟩ := hh
          exact ⟨i, j, hij, by rw [hclass, hh]; rfl⟩
        · obtain ⟨ht, -⟩ := (closing?_eq_some_iff (by decide)).1 hclosing
          have hrest : rest.Sublist (inside ++ '>' :: rest) :=
            (List.sublist_cons_self _ _).trans (List.sublist_append_right _ _)
          rw [← ht] at hrest
          have hclauses := (List.takeWhile_sublist (· != '\x7b')).trans (hrest.trans
            ((List.drop_sublist _ _).trans (List.dropWhile_sublist _)))
          rw [hclass, hh]
          simp only [bind, Except.bind, hdeclared ⟨_, _⟩ hclauses, Except.map]
    · have hh := header?_of_ne (maskedText (p ++ m)) hafter hhead
      have hclauses : header.Sublist (maskedText n.after) := by
        rw [hafter]
        exact List.sublist_append_left _ _
      rw [← hmasked] at hh
      simp only [if_neg hhead]
      rw [hclass, hh]
      simp only [bind, Except.bind, hdeclared ⟨[], header⟩ hclauses, Except.map]

theorem getLast?_trimEnd (s : List Char) :
    (trimEnd s).getLast? = (trimStart s.reverse).head? := by
  rw [← List.head?_reverse, reverse_trimEnd]

theorem isLiteral_eq_ok (hn : n.Parts glyphs p m) :
    isLiteral (maskedText glyphs) (byteCount (maskedText p)) = .ok n.isLiteral := by
  have hcut : sliceTo (maskedText glyphs) (byteCount (maskedText p)) = .ok (maskedText p) :=
    sliceTo_eq_ok (by rw [hn.eq_append, maskedText_append]) rfl
  have hlast : ((trimEnd (maskedText p)).getLast? == some '.') = n.isLiteral := by
    rw [getLast?_trimEnd, ← maskedText_reverse, ← hn.before_eq, trimStart, dropWhile_maskedText,
      head?_maskedText, ClassName.isLiteral]
    generalize (n.before.dropWhile fun g => isBlank g.code).head? = last
    cases last <;> rfl
  simp only [isLiteral, hcut, hlast, bind, Except.bind]

/-- What is found by offsets is what is wanted, and where nothing is wanted, a cut that ends before
it starts has failed. -/
def Agrees {ε α : Type} (found : Except Panic α) : Except ε α → Prop
  | .ok a => found = .ok a
  | .error _ => ∃ i j, j < i ∧ found = .error (.slice i j)

theorem Agrees.map {ε α β : Type} {found : Except Panic α} {wanted : Except ε α}
    (h : Agrees found wanted) (f : α → β) : Agrees (found.map f) (wanted.map f) := by
  rcases wanted with e | a
  · obtain ⟨i, j, hij, rfl⟩ := h
    exact ⟨i, j, hij, rfl⟩
  · rw [show found = .ok a from h]
    rfl

/-- The scan by offsets and the scan of the glyphs agree, one class name after the other. -/
theorem classesAt_agrees (package : String) (path : Option String) (ns : List ClassName)
    (hf : ∀ g ∈ glyphs, g.Faithful) (hsize : byteCount (maskedText glyphs) < 2 ^ 31)
    (hns : ∀ n ∈ ns, ∃ p m, n.Parts glyphs p m) :
    Agrees (classesAt package path (glyphs.map Glyph.raw) (maskedText glyphs)
      (ns.map ClassName.masked))
      (declarations ((ns.filter (!·.isLiteral)).map (ClassName.read package path))) := by
  induction ns with
  | nil => exact rfl
  | cons n ns ih =>
    obtain ⟨p, m, hn⟩ := hns n List.mem_cons_self
    have hkeyword : byteCount ((n.masked.before).map Glyph.code) = byteCount (maskedText p) := by
      rw [ClassName.masked, map_code_seen, hn.before_eq, maskedText_reverse, byteCount_reverse]
    have hend : byteCount (maskedText glyphs) - byteCount ((n.masked.after).map Glyph.code) =
        byteCount (maskedText (p ++ m)) := by
      rw [ClassName.masked, map_code_seen, hn.maskedText_eq, byteCount_append,
        Nat.add_sub_cancel]
    have hclass := class?_eq package path hf hn hsize rfl
    have hrest := ih fun x hx => hns x (List.mem_cons_of_mem _ hx)
    rw [List.map_cons, classesAt, hkeyword, hend]
    simp only [isLiteral_eq_ok hn, ClassName.masked, bind, Except.bind]
    generalize classesAt package path (glyphs.map Glyph.raw) (maskedText glyphs)
      (ns.map ClassName.masked) = found at hrest ⊢
    rcases hlit : n.isLiteral with _ | _
    · rw [List.filter_cons_of_pos (by simp [hlit]), List.map_cons]
      simp only [Bool.false_eq_true, if_false]
      rcases hread : n.read package path with d | name | name
      · rw [hread] at hclass
        rw [hclass, declarations]
        have := hrest.map (d :: ·)
        rcases found with e | ds <;> exact this
      · rw [hread] at hclass
        rw [hclass, declarations]
        rcases found with e | ds <;> exact hrest
      · rw [hread] at hclass
        obtain ⟨i, j, hij, hclass⟩ := hclass
        exact ⟨i, j, hij, by rw [hclass]⟩
    · rw [List.filter_cons_of_neg (by simp [hlit])]
      rcases found with e | ds <;> exact hrest

end OffsetScan

/-! ## Scans -/

theorem declarations_eq_error_iff {fs : List Finding} :
    (∃ e, declarations fs = .error e) ↔ ∃ name, .crossed name ∈ fs := by
  induction fs with
  | nil => simp [declarations]
  | cons f fs ih =>
    cases f with
    | declared d =>
      rcases hfs : declarations fs with e | ds
      · simpa [declarations, hfs, Except.map] using ih.1 ⟨e, hfs⟩
      · simpa [declarations, hfs, Except.map] using ih
    | bodiless name => simpa [declarations] using ih
    | crossed name => simp [declarations]

theorem isLiteral_masked (n : ClassName) : n.masked.isLiteral = n.isLiteral := by
  have hany (o : Option Glyph) : o.any (·.code == '.') = (o.map Glyph.code).any (· == '.') := by
    cases o <;> rfl
  rw [ClassName.isLiteral, ClassName.isLiteral, ClassName.masked, dropWhile_seen isBlank, hany,
    head?_seen, ← hany]

theorem scan_agrees (path : Option String) {text : String} (h : text.utf8ByteSize < 2 ^ 31) :
    OffsetScan.Agrees (OffsetScan.scan path text) (scan path text) := by
  have hf := faithful_maskFrom .code text.toList
  have hsize : byteCount (maskedText (mask text.toList)) < 2 ^ 31 := by
    rw [mask, byteCount_maskedText hf, map_raw_maskFrom, byteCount_toList]
    exact h
  have hagrees := OffsetScan.classesAt_agrees
    (String.ofList ((findPackage? (maskedText (mask text.toList))).getD [])) path
    (classNamesFrom [] (mask text.toList)) hf hsize fun n hn => exists_parts hn
  rw [← namesIn_maskedText, map_raw_maskFrom] at hagrees
  exact hagrees

theorem scan_eq_error_iff (path : Option String) (text : String) :
    (∃ e, scan path text = .error e) ↔
      ∃ n ∈ OffsetScan.namesIn (maskedText (mask text.toList)),
        n.isLiteral = false ∧ Crosses (n.after.map Glyph.code) := by
  rw [scan, declarations_eq_error_iff, namesIn_maskedText]
  simp only [findings, List.mem_map, ClassName.read_eq_crossed_iff, classNames, List.mem_filter,
    Bool.not_eq_true']
  have hafter (n : ClassName) : n.masked.after.map Glyph.code = maskedText n.after :=
    map_code_seen _
  constructor
  · rintro ⟨name, n, ⟨hn, hl⟩, -, hc⟩
    exact ⟨n.masked, ⟨n, hn, rfl⟩, by rwa [isLiteral_masked], by rwa [hafter]⟩
  · rintro ⟨_, ⟨n, hn, rfl⟩, hl, hc⟩
    rw [isLiteral_masked] at hl
    rw [hafter] at hc
    exact ⟨_, n, ⟨hn, hl⟩, rfl, hc⟩

/-- The scan by offsets fails exactly if a class has type parameters that close behind its first
brace. Then a cut ends before it starts; all else that is cut, looked up and counted is in range. -/
theorem scan_fails_iff (path : Option String) (text : String) (h : text.utf8ByteSize < 2 ^ 31) :
    ((∃ p, OffsetScan.scan path text = .error p) ↔
      ∃ n ∈ OffsetScan.namesIn (maskedText (mask text.toList)),
        n.isLiteral = false ∧ Crosses (n.after.map Glyph.code)) ∧
    (∀ p, OffsetScan.scan path text = .error p → ∃ i j, j < i ∧ p = .slice i j) ∧
    ∀ ds, OffsetScan.scan path text = .ok ds ↔ scan path text = .ok ds := by
  have hagrees := scan_agrees path h
  rw [← scan_eq_error_iff path]
  rcases hscan : scan path text with e | ds
  · rw [hscan] at hagrees
    obtain ⟨i, j, hij, hfound⟩ := hagrees
    rw [hfound]
    exact ⟨by simp, by rintro p ⟨⟩; exact ⟨i, j, hij, rfl⟩, by simp⟩
  · rw [hscan] at hagrees
    rw [show OffsetScan.scan path text = .ok ds from hagrees]
    simp

theorem scan_fails_of_crossed :
    "class A<\x7b>\x7d".utf8ByteSize < 2 ^ 31 ∧
      ∃ p, OffsetScan.scan none "class A<\x7b>\x7d" = .error p := by
  refine ⟨by decide, (scan_fails_iff none "class A<\x7b>\x7d" (by decide)).1.2
    ⟨⟨[], ['A'], "<\x7b>\x7d".toList.map .keep⟩, ?_, rfl, ?_⟩⟩
  · have hmasked : (maskedText (mask "class A<\x7b>\x7d".toList)).map Glyph.keep =
        .keep 'c' :: "lass A<\x7b>\x7d".toList.map .keep := by decide
    have hname : nameAfterClass? (.keep 'c' :: "lass A<\x7b>\x7d".toList.map .keep) =
        some ['A'] := by decide
    have hpassed : .keep 'c' :: "lass A<\x7b>\x7d".toList.map Glyph.keep =
        "class A".toList.map .keep ++
          glyphsAfterName (.keep 'c' :: "lass A<\x7b>\x7d".toList.map .keep) := by decide
    rw [OffsetScan.namesIn, hmasked, classNamesFrom_cons_of_some (by decide) hname hpassed]
    exact List.mem_cons_self
  · exact ⟨['<'], ['>'], [], [], ['\x7b'], ['\x7d'], by decide, by decide,
      balanced_of_not_mem (by decide) (by decide), by decide, by simp,
      balanced_of_not_mem (by decide) (by decide), by decide⟩

end Companion.Java
