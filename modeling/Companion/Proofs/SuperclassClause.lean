import Companion.Proofs.ScanPanic
import Companion.Proofs.ScannedNames
import Companion.Proofs.Segments
import Companion.Proofs.TypeText

/-!
# The superclass that a header names

After the type parameters of a class the scanner takes the first `extends` of the header for the
clause of the class (`FirstExtends`), wherever it stands. The clause of the class comes first if
there is one, and then its type is read whole (`readType_append`). Without one, the bound of a
wildcard among the interfaces is taken for the superclass (`superclass_of_header`,
`superclass_of_wildcard`).
-/

namespace Companion.Java

open Text
open Syntax (Bracketed typeSpan_append)
open Unicode (isBlank isWordChar)

variable {s t rest before gap : List Char}

/-- The text parts at the keyword `extends`, a word of its own with white space after it. -/
structure ExtendsAt (text before rest : List Char) : Prop where
  parts : ∃ gap, text = before ++ ("extends".toList ++ (gap ++ rest)) ∧ gap ≠ [] ∧
    ∀ c ∈ gap, isBlank c
  word : ∀ c ∈ before.getLast?, isWordChar c = false
  start : ∀ c ∈ rest.head?, isBlank c = false

/-- The text parts at its first keyword `extends`. -/
def FirstExtends (text before rest : List Char) : Prop :=
  ExtendsAt text before rest ∧ ∀ p r, ExtendsAt text p r → before.length ≤ p.length

theorem afterBlank?_eq_some_iff : afterBlank? s = some rest ↔
    ∃ gap, s = gap ++ rest ∧ gap ≠ [] ∧ (∀ c ∈ gap, isBlank c) ∧
      ∀ c ∈ rest.head?, isBlank c = false := by
  unfold afterBlank?
  constructor
  · intro h
    split_ifs at h with hblank
    obtain rfl := Option.some.inj h
    refine ⟨s.takeWhile isBlank, List.takeWhile_append_dropWhile.symm, ?_,
      fun c hc => List.mem_takeWhile_imp hc, ?_⟩
    · rcases s with _ | ⟨c, s⟩
      · simp at hblank
      · simp only [List.head?_cons, Option.any_some] at hblank
        simp [hblank]
    · intro c hc
      have hstop := List.head?_dropWhile_not isBlank s
      rw [← trimStart, Option.mem_def.1 hc] at hstop
      exact hstop
  · rintro ⟨gap, rfl, hne, hgap, hrest⟩
    rw [trimStart_append_of_blank hgap hrest, if_pos]
    obtain ⟨c, gap, rfl⟩ := List.exists_cons_of_ne_nil hne
    simpa using hgap c List.mem_cons_self

theorem extendsAt_iff : ExtendsAt t before rest ↔ ∃ q, t = before ++ q ∧ q ≠ [] ∧
    isBoundary (before.getLast?.or none) q.head? ∧ extendsClause? q = some rest := by
  have hclause (q : List Char) : extendsClause? q = some rest ↔
      ∃ r, q = "extends".toList ++ r ∧ afterBlank? r = some rest := by
    rw [extendsClause?, Option.bind_eq_some_iff]
    exact exists_congr fun r => and_congr_left fun _ => afterPiece?_eq_some_iff
  have hword : isBoundary (before.getLast?.or none) (some 'e') ↔
      ∀ c ∈ before.getLast?, isWordChar c = false := by
    have he : isWordChar 'e' := by decide
    rcases before.getLast? with _ | c
    · simp [isBoundary, he]
    · simp [isBoundary, he]
  constructor
  · rintro ⟨⟨gap, ht, hne, hgap⟩, hbefore, hrest⟩
    exact ⟨_, ht, by simp, hword.2 hbefore,
      (hclause _).2 ⟨_, rfl, afterBlank?_eq_some_iff.2 ⟨gap, rfl, hne, hgap, hrest⟩⟩⟩
  · rintro ⟨q, ht, -, hboundary, hq⟩
    obtain ⟨r, rfl, hr⟩ := (hclause q).1 hq
    obtain ⟨gap, rfl, hne, hgap, hrest⟩ := afterBlank?_eq_some_iff.1 hr
    exact ⟨⟨gap, ht, hne, hgap⟩, hword.1 hboundary, hrest⟩

theorem findExtends?_eq_some_iff :
    findExtends? t = some rest ↔ ∃ before, FirstExtends t before rest := by
  rw [findExtends?, readFirst?_eq_some_iff]
  constructor
  · rintro ⟨p, q, ht, hq, hboundary, hread, hfirst⟩
    refine ⟨p, extendsAt_iff.2 ⟨q, ht, hq, hboundary, hread⟩, fun p' r h => ?_⟩
    obtain ⟨q', ht', hq', hboundary', hread'⟩ := extendsAt_iff.1 h
    by_contra hlt
    rw [hfirst p' q' ht' (by omega) hboundary'] at hread'
    cases hread'
  · rintro ⟨p, hp, hfirst⟩
    obtain ⟨q, ht, hq, hboundary, hread⟩ := extendsAt_iff.1 hp
    refine ⟨p, q, ht, hq, hboundary, hread, fun p' q' ht' hlt hboundary' => ?_⟩
    by_contra hsome
    obtain ⟨r, hr⟩ := Option.ne_none_iff_exists'.1 hsome
    have hq' : q' ≠ [] := by
      rintro rfl
      cases hr
    have := hfirst p' r (extendsAt_iff.2 ⟨q', ht', hq', hboundary', hr⟩)
    omega

/-- If the keyword stands anywhere in a text, it stands somewhere first. -/
theorem exists_firstExtends (h : ExtendsAt t before rest) : ∃ p r, FirstExtends t p r := by
  rcases hfind : findExtends? t with _ | r
  · obtain ⟨q, ht, hq, hboundary, hread⟩ := extendsAt_iff.1 h
    rw [readFirst?_eq_none_iff.1 hfind before q ht hq hboundary] at hread
    cases hread
  · obtain ⟨p, hp⟩ := findExtends?_eq_some_iff.1 hfind
    exact ⟨p, r, hp⟩

/-- No keyword starts in white space. -/
theorem ExtendsAt.firstExtends (h : ExtendsAt t before rest) (hblank : ∀ c ∈ before, isBlank c) :
    FirstExtends t before rest := by
  refine ⟨h, fun p r hp => ?_⟩
  obtain ⟨gap, hparts, -⟩ := h.parts
  obtain ⟨gap', hparts', -⟩ := hp.parts
  by_contra hlt
  obtain ⟨m, rfl⟩ : p <+: before :=
    List.prefix_of_prefix_length_le ⟨_, hparts'.symm⟩ ⟨_, hparts.symm⟩ (by omega)
  rw [hparts, List.append_assoc, List.append_cancel_left_eq] at hparts'
  rcases m with _ | ⟨e, m⟩
  · simp at hlt
  · obtain rfl : e = 'e' := by simpa using congrArg List.head? hparts'
    exact absurd (hblank 'e' (by simp)) (by decide)

/-- A class type as it may be written: identifiers and dots without white space between them, and
type arguments in angle brackets, before which white space may stand. -/
inductive Spelled : List Char → Prop where
  | nil : Spelled []
  | cons {c : Char} {s : List Char} (hc : isIdentChar c ∨ c = '.') (hs : Spelled s) :
    Spelled (c :: s)
  | args {g a s : List Char} (hg : ∀ c ∈ g, isBlank c) (ha : Balanced '<' '>' 0 a)
    (hs : Spelled s) : Spelled (g ++ '<' :: (a ++ '>' :: s))

/-- What a type goes on with. -/
def isTypePart (c : Char) : Prop :=
  isIdentChar c ∨ c ∈ ['.', '<', '>']

/-- A type does not go on with the text. -/
def EndsType (rest : List Char) : Prop :=
  ∀ c ∈ rest.head?, ¬isTypePart c ∧ (isBlank c → (trimStart rest).head? ≠ some '<')

theorem typeSpan_gap {d : Int} (hgap : ∀ c ∈ gap, isBlank c)
    (hrest : (trimStart rest).head? = some '<') :
    typeSpan d (gap ++ rest) = gap ++ typeSpan d rest := by
  induction gap with
  | nil => rfl
  | cons c gap ih =>
    obtain ⟨hc, hgap⟩ := List.forall_mem_cons.1 hgap
    have hne : c ≠ '<' ∧ c ≠ '>' := by
      constructor <;>
      · rintro rfl
        exact absurd hc (by decide)
    have hnext : (trimStart (gap ++ rest)).head? = some '<' := by
      rw [trimStart, List.dropWhile_append_of_pos hgap]
      exact hrest
    rw [List.cons_append, typeSpan, if_neg hne.1, if_neg hne.2,
      if_pos (.inr (.inr (.inr ⟨hc, hnext⟩))), ih hgap]
    rfl

theorem typeSpan_spelled (hs : Spelled s) (rest : List Char) :
    typeSpan 0 (s ++ rest) = s ++ typeSpan 0 rest := by
  have hpart (c : Char) (hc : isIdentChar c ∨ c = '.') : isIdentChar c ∨ c = '.' := hc
  induction hs with
  | nil => rfl
  | @cons c s hc _ ih =>
    have hone : typeSpan 0 ([c] ++ (s ++ rest)) = [c] ++ typeSpan 0 (s ++ rest) :=
      typeSpan_append (.cons hc .nil) hpart
    rw [List.singleton_append, ih] at hone
    exact hone
  | @args gap a s hgap ha _ ih =>
    have hangle : typeSpan 0 ('<' :: (a ++ ['>']) ++ (s ++ rest)) =
        '<' :: (a ++ ['>']) ++ typeSpan 0 (s ++ rest) := typeSpan_append (.angle ha .nil) hpart
    rw [ih] at hangle
    have hopen : (trimStart ('<' :: (a ++ ['>']) ++ (s ++ rest))).head? = some '<' := rfl
    have hspan := typeSpan_gap (d := 0) hgap hopen
    rw [hangle] at hspan
    simpa using hspan

theorem typeSpan_eq_nil (h : EndsType rest) : typeSpan 0 rest = [] := by
  rcases rest with _ | ⟨c, rest⟩
  · rfl
  · obtain ⟨hpart, hangle⟩ := h c rfl
    simp only [isTypePart, List.mem_cons, List.not_mem_nil, or_false, not_or] at hpart
    obtain ⟨hident, hdot, hopen, hclose⟩ := hpart
    rw [typeSpan, if_neg hopen, if_neg hclose, if_neg]
    rintro (hd | hc | hc | ⟨hc, hnext⟩)
    · omega
    · exact hident hc
    · exact hdot hc
    · refine hangle hc ?_
      rw [trimStart, List.dropWhile_cons_of_pos hc]
      exact hnext

/-- A type is read whole off the front of a text that it ends in. -/
theorem readType_append (hs : Spelled s) (hfirst : ∀ c ∈ (s ++ rest).head?, isBlank c = false)
    (hlast : ∀ c ∈ s.getLast?, isBlank c = false) (hrest : EndsType rest) :
    readType (s ++ rest) = s := by
  have htrim : trimStart (s ++ rest) = s ++ rest :=
    trimStart_append_of_blank (s := []) (by simp) hfirst
  rw [readType, htrim, typeSpan_spelled hs, typeSpan_eq_nil hrest, List.append_nil,
    trimEnd_eq_self hlast]

/-- A type that starts the text is not empty. -/
def StartsType (rest : List Char) : Prop :=
  ∃ c ∈ rest.head?, isTypePart c

theorem trimEnd_cons_of_not {c : Char} (hc : isBlank c = false) :
    trimEnd (c :: s) = c :: trimEnd s := by
  rw [trimEnd, List.reverse_cons, dropWhile_append_cons isBlank hc, List.reverse_append]
  rfl

theorem typeSpan_cons {c : Char} (hc : isTypePart c) (rest : List Char) :
    ∃ d, typeSpan 0 (c :: rest) = c :: typeSpan d rest := by
  simp only [isTypePart, List.mem_cons, List.not_mem_nil, or_false] at hc
  rw [typeSpan]
  split_ifs with hopen hclose hother
  · exact ⟨_, rfl⟩
  · exact ⟨_, rfl⟩
  · exact ⟨_, rfl⟩
  · rcases hc with hident | hdot | hangle | hangle
    · exact absurd (.inr (.inl hident)) hother
    · exact absurd (.inr (.inr (.inl hdot))) hother
    · exact absurd hangle hopen
    · exact absurd hangle hclose

theorem normalizeType_ne_nil {c : Char} (hmem : c ∈ s) (hc : isBlank c = false) :
    normalizeType s ≠ [] := by
  intro hnil
  have hfilter : c ∈ s.filter (!isBlank ·) := List.mem_filter.2 ⟨hmem, by simp [hc]⟩
  rw [← filter_normalizeType, hnil] at hfilter
  cases hfilter

theorem normalizeType_readType_ne_nil_iff (h : ∀ c ∈ rest.head?, isBlank c = false) :
    normalizeType (readType rest) ≠ [] ↔ StartsType rest := by
  have htrim : trimStart rest = rest := trimStart_append_of_blank (s := []) (by simp) h
  constructor
  · intro hne
    by_contra hnot
    refine hne ?_
    have hends : EndsType rest := fun c hc => ⟨fun hpart => hnot ⟨c, hc, hpart⟩, fun hblank => by
      rw [h c hc] at hblank
      cases hblank⟩
    rw [readType, htrim, typeSpan_eq_nil hends]
    rfl
  · rintro ⟨c, hc, hpart⟩
    have hblank := h c hc
    obtain ⟨rest, rfl⟩ := List.head?_eq_some_iff.1 hc
    obtain ⟨d, hspan⟩ := typeSpan_cons hpart rest
    have hread : readType (c :: rest) = c :: trimEnd (typeSpan d rest) := by
      rw [readType, htrim, hspan, trimEnd_cons_of_not hblank]
    rw [hread]
    exact normalizeType_ne_nil List.mem_cons_self hblank

/-- A header in its parts: the names of the type parameters and the text after their list. -/
inductive HeaderParts : List Char → List String → List Char → Prop where
  | plain {header : List Char} (h : (trimStart header).head? ≠ some '<') :
    HeaderParts header [] header
  | generic {g inside clauses : List Char} (hg : ∀ c ∈ g, isBlank c)
    (hinside : Balanced '<' '>' 0 inside) :
    HeaderParts (g ++ '<' :: (inside ++ '>' :: clauses)) (typeParameterNames inside) clauses

/-- The clauses of a header start with the extends clause of the class, which names the type. -/
structure OwnClause (clauses type : List Char) : Prop where
  parts : ∃ lead gap tail, clauses = lead ++ ("extends".toList ++ (gap ++ (type ++ tail))) ∧
    (∀ c ∈ lead, isBlank c) ∧ (∀ c ∈ lead.getLast?, isWordChar c = false) ∧
    gap ≠ [] ∧ (∀ c ∈ gap, isBlank c) ∧ EndsType tail
  spelled : Spelled type
  ne : type ≠ []
  first : ∀ c ∈ type.head?, isBlank c = false
  last : ∀ c ∈ type.getLast?, isBlank c = false

/-- The keyword `extends` stands outside of angle brackets. -/
def ExtendsOutside (clauses before rest : List Char) : Prop :=
  ExtendsAt clauses before rest ∧ Balanced '<' '>' 0 before

/-- A type as the superclass of a class with the type parameters. -/
def superclassRef (typeParameters : List String) (type : List Char) : TypeRef where
  text := String.ofList (normalizeType type)
  resolved := !typeParameters.contains (String.ofList (TypeRef.erase (normalizeType type)))

variable {clauses type header body behind : List Char} {names : List String}

theorem superclass?_eq_some_iff {r : TypeRef} : superclass? names clauses = some r ↔
    ∃ before rest, FirstExtends clauses before rest ∧ StartsType rest ∧
      r = superclassRef names (readType rest) := by
  have hread {before rest : List Char} (h : FirstExtends clauses before rest) :
      superclass? names clauses = some r ↔
        StartsType rest ∧ r = superclassRef names (readType rest) := by
    rw [superclass?, findExtends?_eq_some_iff.2 ⟨before, h⟩,
      ← normalizeType_readType_ne_nil_iff h.1.start]
    dsimp only
    split_ifs with hempty
    · simp [List.isEmpty_iff.1 hempty]
    · rw [List.isEmpty_iff] at hempty
      simp [hempty, superclassRef, eq_comm]
  constructor
  · intro h
    rcases hfind : findExtends? clauses with _ | rest
    · rw [superclass?, hfind] at h
      cases h
    · obtain ⟨before, hfirst⟩ := findExtends?_eq_some_iff.1 hfind
      exact ⟨before, rest, hfirst, (hread hfirst).1 h⟩
  · rintro ⟨before, rest, hfirst, h⟩
    exact (hread hfirst).2 h

/-- The clause of the class comes first and names its type whole. -/
theorem OwnClause.superclass? (h : OwnClause clauses type) :
    Java.superclass? names clauses = some (superclassRef names type) := by
  obtain ⟨⟨lead, gap, tail, rfl, hlead, hword, hne, hgap, htail⟩, hspelled, htype, hfirst, hlast⟩ :=
    h
  have hhead : ∀ c ∈ (type ++ tail).head?, c ∈ type.head? := by
    obtain ⟨c, type, rfl⟩ := List.exists_cons_of_ne_nil htype
    exact fun x hx => hx
  have hstart : ∀ c ∈ (type ++ tail).head?, isBlank c = false := fun c hc => hfirst c (hhead c hc)
  have hat : ExtendsAt (lead ++ ("extends".toList ++ (gap ++ (type ++ tail)))) lead
      (type ++ tail) := ⟨⟨gap, rfl, hne, hgap⟩, hword, hstart⟩
  have hread := readType_append hspelled hstart hlast htail
  refine superclass?_eq_some_iff.2 ⟨lead, type ++ tail, hat.firstExtends hlead, ?_, by rw [hread]⟩
  rw [← normalizeType_readType_ne_nil_iff hstart, hread]
  obtain ⟨c, type, rfl⟩ := List.exists_cons_of_ne_nil htype
  exact normalizeType_ne_nil List.mem_cons_self (hfirst c rfl)

/-- A class whose name has a header with these parts behind it is declared with them. -/
theorem ClassName.read_of_parts {package : String} {source : Option String} {n : ClassName}
    (hafter : maskedText n.after = header ++ '\x7b' :: (body ++ '\x7d' :: behind))
    (hheader : '\x7b' ∉ header) (hbody : Balanced '\x7b' '\x7d' 0 body)
    (hparts : HeaderParts header names clauses) :
    n.read package source = .declared (declarationOf package source n ⟨names, clauses⟩ body) := by
  have htext := ofAfter?_eq_some_iff.2 ⟨behind, hafter, hheader, hbody⟩
  unfold ClassName.read
  simp only [htext]
  cases hparts with
  | plain h => rw [if_neg h]
  | @generic gap inside clauses hgap hinside =>
    have hopen : isBlank '<' = false := by decide
    have hhead : (trimStart (gap ++ '<' :: (inside ++ '>' :: clauses))).head? = some '<' :=
      (head?_trimStart_eq_some_iff hopen).2 ⟨gap, _, rfl, hgap⟩
    simp only [List.mem_append, List.mem_cons, not_or] at hheader
    obtain ⟨-, -, hinner, -, hrest⟩ := hheader
    have hdrop : (trimStart (maskedText n.after)).drop 1 =
        inside ++ '>' :: (clauses ++ '\x7b' :: (body ++ '\x7d' :: behind)) := by
      rw [hafter, List.append_assoc, trimStart, List.dropWhile_append_of_pos hgap]
      simp [hopen]
    have hclosing := (closing?_eq_some_iff (by decide)).2 ⟨hdrop, hinside⟩
    simp only [if_pos hhead, hclosing, if_neg hinner, takeWhile_ne_append hrest]

/-- The superclass of a class is the type after the first `extends` that stands behind its type
parameters, in brackets or not: that of the class if it has such a clause, else the first bound of
a wildcard among its interfaces. -/
theorem superclass_of_header (source : Option String) {text : List Char} {n : ClassName}
    (hn : n ∈ classNames (mask text))
    (hafter : maskedText n.after = header ++ '\x7b' :: (body ++ '\x7d' :: behind))
    (hheader : '\x7b' ∉ header) (hbody : Balanced '\x7b' '\x7d' 0 body)
    (hparts : HeaderParts header names clauses) :
    ∃ d, .declared d ∈ findings source text ∧ (∃ package, n.read package source = .declared d) ∧
      d.name = String.ofList n.name ∧ d.typeParameters = names ∧
      (∀ r, d.superclass = some r ↔ ∃ before rest, FirstExtends clauses before rest ∧
        StartsType rest ∧ r = superclassRef names (readType rest)) ∧
      (∀ type, OwnClause clauses type → d.superclass = some (superclassRef names type)) ∧
      ((∀ before rest, ExtendsAt clauses before rest → StartsType rest) →
        (d.superclass ≠ none ↔ ∃ before rest, ExtendsAt clauses before rest)) ∧
      ((∀ before rest, ExtendsAt clauses before rest →
          StartsType rest ∧ Balanced '<' '>' 0 before) →
        (d.superclass ≠ none ↔ ∃ before rest, ExtendsOutside clauses before rest)) := by
  let package := String.ofList ((findPackage? (maskedText (mask text))).getD [])
  let d := declarationOf package source n ⟨names, clauses⟩ body
  have hread : n.read package source = .declared d :=
    ClassName.read_of_parts hafter hheader hbody hparts
  have hsome (htypes : ∀ before rest, ExtendsAt clauses before rest → StartsType rest) :
      d.superclass ≠ none ↔ ∃ before rest, ExtendsAt clauses before rest := by
    rw [Option.ne_none_iff_exists']
    constructor
    · rintro ⟨r, hr⟩
      obtain ⟨before, rest, hfirst, -⟩ := superclass?_eq_some_iff.1 hr
      exact ⟨before, rest, hfirst.1⟩
    · rintro ⟨before, rest, hat⟩
      obtain ⟨p, r, hfirst⟩ := exists_firstExtends hat
      exact ⟨_, superclass?_eq_some_iff.2 ⟨p, r, hfirst, htypes p r hfirst.1, rfl⟩⟩
  refine ⟨d, ?_, ⟨package, hread⟩, rfl, rfl, fun r => superclass?_eq_some_iff,
    fun type h => h.superclass?, hsome, fun houter => ?_⟩
  · rw [← hread]
    exact List.mem_map_of_mem hn
  · rw [hsome fun before rest h => (houter before rest h).1]
    exact exists_congr fun before => exists_congr fun rest =>
      ⟨fun h => ⟨h, (houter before rest h).2⟩, And.left⟩

/-- The class names its superclass before an interface with a wildcard. -/
theorem superclass_of_header_generic :
    ∃ d, .declared d ∈ findings none
        "class A<T> extends Base<T> implements List<? extends T> \x7b\x7d\n".toList ∧
      d.name = "A" ∧ d.superclass = some ⟨"Base<T>", true⟩ := by
  let clauses : List Char := " extends Base<T> implements List<? extends T> ".toList
  let text : List Char :=
    "class A<T> extends Base<T> implements List<? extends T> \x7b\x7d\n".toList
  let n : ClassName :=
    ⟨[], ['A'], "<T> extends Base<T> implements List<? extends T> \x7b\x7d\n".toList.map .keep⟩
  have hspelled : Spelled "Base<T>".toList :=
    .cons (by decide) (.cons (by decide) (.cons (by decide) (.cons (by decide)
      (.args (g := []) (a := ['T']) (by simp) (balanced_of_not_mem (by decide) (by decide)) .nil))))
  have hends : EndsType " implements List<? extends T> ".toList := by
    rintro c ⟨⟩
    exact ⟨by unfold isTypePart; decide, fun _ => by decide⟩
  have hown : OwnClause clauses "Base<T>".toList :=
    ⟨⟨[' '], [' '], " implements List<? extends T> ".toList, rfl, by decide, by decide, by simp,
      by decide, hends⟩, hspelled, by simp, by decide, by decide⟩
  have hparts : HeaderParts ('<' :: (['T'] ++ '>' :: clauses)) (typeParameterNames ['T']) clauses :=
    .generic (g := []) (by simp) (balanced_of_not_mem (by decide) (by decide))
  have hn : n ∈ classNames (mask text) := by decide +kernel
  have hafter : maskedText n.after =
      '<' :: (['T'] ++ '>' :: clauses) ++ '\x7b' :: ([] ++ '\x7d' :: ['\n']) := by decide +kernel
  obtain ⟨d, hd, -, hname, -, -, hclause, -⟩ := superclass_of_header none hn hafter (by decide)
    (balanced_of_not_mem (by simp) (by simp)) hparts
  refine ⟨d, hd, hname, ?_⟩
  rw [hclause _ hown]
  decide +kernel

/-- A class without an extends clause takes the bound of a wildcard, brackets and all, for its
superclass. -/
theorem superclass_of_wildcard :
    scan none "class A implements Comparable<List<? extends Foo>> \x7b\x7d\n" =
        .ok [⟨"", "A", some ⟨"Foo>>", true⟩, [], [], [], none⟩] ∧
      HeaderParts " implements Comparable<List<? extends Foo>> ".toList []
        " implements Comparable<List<? extends Foo>> ".toList ∧
      ∀ before rest,
        ¬ExtendsOutside " implements Comparable<List<? extends Foo>> ".toList before rest := by
  refine ⟨by decide +kernel, .plain (by decide), fun before rest h => ?_⟩
  obtain ⟨hat, houter⟩ := h
  obtain ⟨q, hparts, hq, -, hread⟩ := extendsAt_iff.1 hat
  generalize hclauses : " implements Comparable<List<? extends Foo>> ".toList = clauses at hparts
  have hall : ∀ k < clauses.length, extendsClause? (clauses.drop k) ≠ none →
      (clauses.take k).count '<' ≠ (clauses.take k).count '>' := by
    rw [← hclauses]
    decide +kernel
  have hlt : before.length < clauses.length := by
    rw [hparts, List.length_append]
    have := List.length_pos_iff.2 hq
    omega
  refine hall before.length hlt ?_ ?_
  · rw [hparts, List.drop_left, hread]
    simp
  · rw [hparts, List.take_left]
    simpa using houter.settled.symm

end Companion.Java
