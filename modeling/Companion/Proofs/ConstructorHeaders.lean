import Companion.Proofs.ConstructorScan
import Companion.Proofs.ScanPanic

/-!
# Headers of constructors

The header of a constructor is read from its name back (`IsHeader`). All constructors are found but
two kinds (`constructors_of_headers`): those of a class whose name starts with a dollar sign, since
no word starts there, and those with a qualified annotation without arguments right before the name
or the type parameters (`Overlooked`), since an annotation is known by an at sign before its last
word (`constructors_overlooked`).
-/

namespace Companion.Java

open Text
open Unicode (isBlank isWordChar)

variable {name before text body s t n w a gap : List Char} {depth : Nat} {call : NameCall}

/-- The name of a class as the scanner reads it. No white space belongs to a word. -/
structure IsClassName (name : List Char) : Prop where
  start : ∃ c ∈ name.head?, isNameStart c
  chars : ∀ c ∈ name, isNameChar c ∧ isBlank c = false

theorem IsClassName.not_mem (hname : IsClassName name) {c : Char} (hc : isNameChar c = false) :
    c ∉ name := by
  intro hmem
  rw [(hname.chars c hmem).1] at hc
  cases hc

theorem afterCall?_eq_some_iff {after : List Char} : afterCall? name text = some after ↔
    ∃ gap, text = name ++ (gap ++ '(' :: after) ∧ ∀ c ∈ gap, isBlank c := by
  constructor
  · exact suffix_of_afterCall?
  · rintro ⟨gap, rfl, hgap⟩
    have hround : isBlank '(' = false := by decide
    have htrim : trimStart (gap ++ '(' :: after) = '(' :: after :=
      trimStart_append_of_blank hgap (by simpa using hround)
    rw [afterCall?, afterPiece?_eq_some_iff.2 rfl]
    simp only [htrim]

/-- The call is an occurrence of the name in the text, which stands behind `before` with so many
braces open. -/
def CallIn (name before : List Char) (depth : Nat) (text : List Char) (call : NameCall) : Prop :=
  ∃ p gap, text = p ++ (name ++ (gap ++ '(' :: call.after)) ∧ (∀ c ∈ gap, isBlank c) ∧
    isBoundary (p.reverse ++ before).head? name.head? ∧ call.before = p.reverse ++ before ∧
    call.depth = p.foldl braceDepth depth

theorem callIn_cons {c : Char}
    (h : isBoundary before.head? name.head? → afterCall? name (c :: s) = none) :
    CallIn name before depth (c :: s) call ↔
      CallIn name (c :: before) (braceDepth depth c) s call := by
  constructor
  · rintro ⟨p, gap, htext, hgap, hb, hbefore, hdepth⟩
    rcases p with _ | ⟨d, p⟩
    · rw [afterCall?_eq_some_iff.2 ⟨gap, htext, hgap⟩] at h
      cases h hb
    · obtain ⟨rfl, hs⟩ : c = d ∧ s = p ++ (name ++ (gap ++ '(' :: call.after)) := by
        simpa using htext
      exact ⟨p, gap, hs, hgap, by simpa using hb, by simpa using hbefore, hdepth⟩
  · rintro ⟨p, gap, htext, hgap, hb, hbefore, hdepth⟩
    exact ⟨c :: p, gap, congrArg (c :: ·) htext, hgap, by simpa using hb, by simpa using hbefore,
      hdepth⟩

theorem IsClassName.ne_nil (hname : IsClassName name) : name ≠ [] := by
  rintro rfl
  obtain ⟨c, hc, -⟩ := hname.start
  cases hc

/-- A name does not end in white space, so behind a name and white space no name ends later. -/
theorem IsClassName.eq_nil_of_append (hname : IsClassName name) {gap gap' p : List Char}
    (hgap : ∀ c ∈ gap, isBlank c) (h : name ++ gap = p ++ name ++ gap') : p = [] := by
  by_contra hp
  have hlt := List.length_pos_iff.2 hp
  obtain ⟨m, hm, hgapm⟩ : ∃ m, p ++ name = name ++ m ∧ gap = m ++ gap' := by
    rcases List.append_eq_append_iff.1 h with h | ⟨m, hm, -⟩
    · exact h
    · have := congrArg List.length hm
      simp only [List.length_append] at this
      omega
  have hmne : m ≠ [] := by
    rintro rfl
    have := congrArg List.length hm
    simp only [List.length_append, List.length_nil] at this
    omega
  have hlast := congrArg List.getLast? hm
  rw [List.getLast?_append_of_ne_nil _ hmne, List.getLast?_append_of_ne_nil _ hname.ne_nil,
    List.getLast?_eq_some_getLast hmne] at hlast
  have hblank := hgap (m.getLast hmne) (hgapm ▸ List.mem_append_left _ (List.getLast_mem hmne))
  rw [(hname.chars _ (List.mem_of_getLast? hlast)).2] at hblank
  cases hblank

/-- Two occurrences do not overlap. -/
theorem exists_of_later (hname : IsClassName name) {gap gap' after after' p : List Char}
    (hgap : ∀ c ∈ gap, isBlank c) (hgap' : ∀ c ∈ gap', isBlank c)
    (h : name ++ (gap ++ '(' :: after) = p ++ (name ++ (gap' ++ '(' :: after'))) (hp : p ≠ []) :
    ∃ q, p = name ++ (gap ++ '(' :: q) ∧ after = q ++ (name ++ (gap' ++ '(' :: after')) := by
  have hround : isBlank '(' = false := by decide
  have hnot {g : List Char} (hg : ∀ c ∈ g, isBlank c) : '(' ∉ name ++ g := by
    rw [List.mem_append, not_or]
    refine ⟨hname.not_mem (by decide), fun hmem => ?_⟩
    rw [hg _ hmem] at hround
    cases hround
  obtain ⟨d, tail, hcons⟩ := List.exists_cons_of_ne_nil hname.ne_nil
  have hd : '(' ≠ d := by
    rintro rfl
    exact hnot hgap (by simp [hcons])
  have heq : (name ++ gap) ++ '(' :: after = p ++ d :: (tail ++ (gap' ++ '(' :: after')) := by
    rw [List.append_assoc, h, hcons]
    simp
  rcases parted_cases hd (hnot hgap) heq with ⟨q, rfl⟩ | ⟨-, q, hq, hrest⟩
  · refine ⟨q, by simp, ?_⟩
    simpa using h
  · -- Both occurrences end at the same bracket.
    have hq' : '(' ∉ q := fun hmem => hnot hgap (hq ▸ by simp [hmem])
    have htail : '(' ∉ tail ++ gap' := fun hmem => hnot hgap' (hcons ▸ List.mem_cons_of_mem d hmem)
    have hsplit := congrArg (List.takeWhile (· != '(')) hrest
    rw [takeWhile_ne_append hq', ← List.append_assoc, takeWhile_ne_append htail] at hsplit
    have hoverlap : name ++ gap = p ++ name ++ gap' := by
      rw [hq, ← hsplit, hcons]
      simp
    exact absurd (hname.eq_nil_of_append hgap hoverlap) hp

theorem callIn_of_some (hname : IsClassName name) {after : List Char}
    (hb : isBoundary before.head? name.head?) (h : afterCall? name text = some after) :
    CallIn name before depth text call ↔ call = ⟨before, depth, after⟩ ∨
      CallIn name ((text.take (text.length - after.length)).reverse ++ before) depth after
        call := by
  obtain ⟨gap, htext, hgap⟩ := afterCall?_eq_some_iff.1 h
  have hpassed : text.take (text.length - after.length) = name ++ (gap ++ ['(']) := by
    have hparts : text = name ++ (gap ++ ['(']) ++ after := by simpa using htext
    rw [hparts, List.length_append, Nat.add_sub_cancel, List.take_left]
  rw [hpassed]
  have hkeep : (name ++ (gap ++ ['('])).foldl braceDepth depth = depth := by
    have hopen : isBlank '\x7b' = false := by decide
    have hclose : isBlank '\x7d' = false := by decide
    have hmem {c : Char} (hc : isNameChar c = false) (hblank : isBlank c = false) (hne : c ≠ '(') :
        c ∉ name ++ (gap ++ ['(']) := by
      simp only [List.mem_append, List.mem_singleton, not_or]
      refine ⟨hname.not_mem hc, fun hmem => ?_, hne⟩
      rw [hgap c hmem] at hblank
      cases hblank
    exact foldl_braceDepth_of_not_mem (hmem (by decide) hopen (by decide))
      (hmem (by decide) hclose (by decide))
  constructor
  · rintro ⟨p, gap', hparts, hgap', hb', hbefore, hdepth⟩
    by_cases hp : p = []
    · subst hp
      have hsame := afterCall?_eq_some_iff.2 ⟨gap', hparts, hgap'⟩
      obtain rfl := Option.some.inj (h.symm.trans hsame)
      left
      rcases call with ⟨b, d, after⟩
      simp only [List.reverse_nil, List.nil_append, List.foldl_nil] at hbefore hdepth
      rw [hbefore, hdepth]
    · obtain ⟨q, rfl, hafter⟩ := exists_of_later hname hgap hgap' (htext.symm.trans hparts) hp
      refine .inr ⟨q, gap', hafter, hgap', by simpa using hb', by simpa using hbefore, ?_⟩
      rw [hdepth, show name ++ (gap ++ '(' :: q) = name ++ (gap ++ ['(']) ++ q by simp,
        List.foldl_append, hkeep]
  · rintro (rfl | ⟨q, gap', hafter, hgap', hb', hbefore, hdepth⟩)
    · exact ⟨[], gap, htext, hgap, hb, rfl, rfl⟩
    · refine ⟨name ++ (gap ++ ['(']) ++ q, gap', ?_, hgap', by simpa using hb',
        by simpa using hbefore, ?_⟩
      · rw [htext, hafter]
        simp
      · rw [List.foldl_append, hkeep, hdepth]

theorem mem_nameCalls_iff (hname : IsClassName name) :
    call ∈ nameCalls name before depth text ↔ CallIn name before depth text call := by
  fun_induction nameCalls name before depth text with
  | case1 before depth =>
    constructor
    · intro h
      cases h
    · rintro ⟨p, gap, htext, -⟩
      simp at htext
  | case2 before depth c s hb after hafter passed ih =>
    rw [callIn_of_some hname hb hafter, List.mem_cons, ih]
  | case3 before depth c s hb hnone ih => rw [callIn_cons fun _ => hnone, ih]
  | case4 before depth c s hb ih => rw [callIn_cons fun h => absurd h hb, ih]

theorem pairwise_nameCalls (hname : IsClassName name) :
    (nameCalls name before depth text).Pairwise fun x y => x.before.length < y.before.length := by
  fun_induction nameCalls name before depth text with
  | case1 before depth => exact .nil
  | case2 before depth c s hb after hafter passed ih =>
    refine List.pairwise_cons.2 ⟨fun call hcall => ?_, ih⟩
    obtain ⟨p, -, -, -, -, hbefore, -⟩ := (mem_nameCalls_iff hname).1 hcall
    have hlt := length_lt_of_afterCall? hafter
    have hpassed : 0 < passed.length := by
      simp only [passed, List.length_take]
      omega
    rw [hbefore]
    simp only [List.length_append, List.length_reverse]
    omega
  | case3 before depth c s hb hnone ih => exact ih
  | case4 before depth c s hb ih => exact ih

/-- In a body all of whose braces match, the number of open braces is the difference of the
numbers of opening and closing ones. -/
theorem foldl_braceDepth (h : Balanced '\x7b' '\x7d' 0 (s ++ t)) :
    s.foldl braceDepth 0 + s.count '\x7d' = s.count '\x7b' := by
  induction s using List.reverseRecOn generalizing t with
  | nil => rfl
  | append_singleton s c ih =>
    have hs := ih (t := c :: t) (by simpa using h)
    have hsane := h.sane (s ++ [c]) (List.prefix_append _ _)
    simp only [List.foldl_append, List.foldl_cons, List.foldl_nil, List.count_append] at hsane ⊢
    generalize s.foldl braceDepth 0 = d at *
    unfold braceDepth
    split_ifs with hopen hclose
    · subst hopen
      simp
      omega
    · subst hclose
      simp at hsane ⊢
      omega
    · simpa [List.count_singleton, hopen, hclose] using hs

/-- White space. None of it belongs to an identifier. -/
def IsGap (gap : List Char) : Prop :=
  ∀ c ∈ gap, isBlank c ∧ isIdentChar c = false

instance (gap : List Char) : Decidable (IsGap gap) :=
  inferInstanceAs (Decidable (∀ c ∈ gap, isBlank c ∧ isIdentChar c = false))

/-- An identifier, which is no access modifier. -/
structure IsIdentifier (w : List Char) : Prop where
  ne : w ≠ []
  chars : ∀ c ∈ w, isIdentChar c ∧ isBlank c = false
  free : w ∉ accessModifiers

/-- A name as it stands in an annotation: identifiers with dots between them. -/
inductive QualifiedName : List Char → Prop where
  | simple {w : List Char} (hw : IsIdentifier w) : QualifiedName w
  | member {n g h w : List Char} (hn : QualifiedName n) (hg : IsGap g) (hh : IsGap h)
    (hw : IsIdentifier w) : QualifiedName (n ++ (g ++ '.' :: (h ++ w)))

/-- What may stand before the type parameters or the name of a constructor: the end of a member,
and behind it annotations and access modifiers. -/
inductive Front : List Char → Prop where
  | start {s : List Char} (h : ∀ c ∈ (trimEnd s).getLast?, c = ';' ∨ c = '\x7d') : Front s
  | modifier {s m g : List Char} (hs : Front s) (hm : m ∈ accessModifiers)
    (hstart : ∀ c ∈ s.getLast?, isIdentChar c = false) (hg : IsGap g) : Front (s ++ (m ++ g))
  | annotated {s g n h : List Char} (hs : Front s) (hg : IsGap g) (hn : QualifiedName n)
    (hh : IsGap h) : Front (s ++ '@' :: (g ++ (n ++ h)))
  | called {s g n h a i : List Char} (hs : Front s) (hg : IsGap g) (hn : QualifiedName n)
    (hh : IsGap h) (ha : Balanced '(' ')' 0 a) (hi : IsGap i) :
    Front (s ++ '@' :: (g ++ (n ++ (h ++ '(' :: (a ++ ')' :: i)))))

/-- The text ends in the header of a constructor up to its name, with these names of type
parameters. -/
inductive IsHeader : List Char → List String → Prop where
  | plain {s : List Char} (hs : Front s) : IsHeader s []
  | generic {s a g : List Char} (hs : Front s) (ha : Balanced '<' '>' 0 a) (hg : IsGap g) :
    IsHeader (s ++ '<' :: (a ++ '>' :: g)) (typeParameterNames a)

/-- The text ends in an annotation without arguments whose name is not one identifier right behind
the at sign. -/
def EndsQualified (s : List Char) : Prop :=
  ∃ p gap n gap', s = p ++ '@' :: (gap ++ (n ++ gap')) ∧ IsGap gap ∧ QualifiedName n ∧
    IsGap gap' ∧ (gap ≠ [] ∨ '.' ∈ n)

/-- Such an annotation stands right before the name or the type parameters. -/
def QualifiedLast (before : List Char) : Prop :=
  EndsQualified before ∨ ∃ s a gap, before = s ++ '<' :: (a ++ '>' :: gap) ∧
    Balanced '<' '>' 0 a ∧ IsGap gap ∧ EndsQualified s

/-- The scanner does not know the text before a name for the header of a constructor, or finds no
name behind it. -/
def Overlooked (name before : List Char) : Prop :=
  name.head? = some '$' ∨ QualifiedLast before

/-- The text ends in the result type of a method, or in another word that is no modifier. -/
inductive AfterType : List Char → Prop where
  | word {s w g : List Char} (hs : ∀ c ∈ s.getLast?, isIdentChar c = false ∧ c ≠ '@')
    (hw : IsIdentifier w) (hg : IsGap g) : AfterType (s ++ (w ++ g))
  | angle {s w g a h : List Char} (hs : ∀ c ∈ s.getLast?, isIdentChar c = false ∧ c ≠ '@')
    (hw : IsIdentifier w) (hg : IsGap g) (ha : Balanced '<' '>' 0 a) (hh : IsGap h) :
    AfterType (s ++ (w ++ g) ++ '<' :: (a ++ '>' :: h))
  | array {s g : List Char} (hg : IsGap g) : AfterType (s ++ ']' :: g)

/-! ## Reading headers -/

theorem trimStart_reverse_append (hgap : IsGap gap) :
    trimStart (s ++ gap).reverse = trimStart s.reverse := by
  rw [List.reverse_append, trimStart, List.dropWhile_append_of_pos fun c hc =>
    (hgap c (List.mem_reverse.1 hc)).1]
  rfl

theorem trimStart_reverse_cons {c : Char} (hc : isBlank c = false) (hgap : IsGap gap) :
    trimStart (s ++ c :: gap).reverse = c :: s.reverse := by
  have hparts : s ++ c :: gap = (s ++ [c]) ++ gap := by simp
  rw [hparts, trimStart_reverse_append hgap, List.reverse_append]
  exact trimStart_cons_of_not hc

/-- A text, given with its last character first, ends like the front of a constructor. -/
def EndsFront (t : List Char) : Prop :=
  (∀ c ∈ t.head?, c ∈ [';', '\x7d', ')']) ∨ lastWord t ≠ [] ∧ endsInModifier t

/-- A text, given with its last character first, ends in a word that is no modifier. -/
def EndsWord (t : List Char) : Prop :=
  lastWord t ≠ [] ∧ endsInModifier t = false

theorem exists_cons_of_lastWord (h : lastWord t ≠ []) :
    ∃ c s, t = c :: s ∧ isIdentChar c := by
  rcases t with _ | ⟨c, s⟩
  · exact absurd rfl h
  · refine ⟨c, s, rfl, ?_⟩
    by_contra hc
    exact h (by rw [lastWord, List.takeWhile_cons_of_neg hc, List.reverse_nil])

theorem lastWord_cons_of_not {c : Char} (hc : isIdentChar c = false) : lastWord (c :: s) = [] := by
  rw [lastWord, List.takeWhile_cons_of_neg (by simp [hc]), List.reverse_nil]

theorem ne_of_isIdentChar {c d : Char} (hc : isIdentChar c) (hd : isIdentChar d = false) :
    c ≠ d := by
  rintro rfl
  rw [hc] at hd
  cases hd

/-- Behind a word only modifiers and annotations let a constructor follow. -/
theorem constructorTypeParameters?_of_lastWord (h : lastWord (trimStart before) ≠ []) :
    constructorTypeParameters? before =
      if endsInModifier (trimStart before) then some [] else none := by
  obtain ⟨c, s, hcons, hc⟩ := exists_cons_of_lastWord h
  have hends : ¬(c = ';' ∨ c = '\x7b' ∨ c = '\x7d' ∨ c = ')') := by
    simp only [not_or]
    exact ⟨ne_of_isIdentChar hc (by decide), ne_of_isIdentChar hc (by decide),
      ne_of_isIdentChar hc (by decide), ne_of_isIdentChar hc (by decide)⟩
  have hangle : c ≠ '>' := ne_of_isIdentChar hc (by decide)
  rw [hcons] at h
  rw [constructorTypeParameters?, hcons]
  simp only [if_neg hends, if_neg hangle, ne_eq, h, not_false_eq_true, true_and]

theorem EndsFront.constructorTypeParameters? (h : EndsFront (trimStart before)) :
    constructorTypeParameters? before = some [] := by
  rcases h with hend | ⟨hword, hmodifier⟩
  · rw [Java.constructorTypeParameters?]
    rcases htrim : trimStart before with _ | ⟨c, s⟩
    · rfl
    · have hc := hend c (by rw [htrim]; rfl)
      simp only [List.mem_cons, List.not_mem_nil, or_false] at hc
      exact if_pos (by tauto)
  · rw [constructorTypeParameters?_of_lastWord hword, if_pos hmodifier]

theorem EndsWord.constructorTypeParameters? (h : EndsWord (trimStart before)) :
    constructorTypeParameters? before = none := by
  rw [constructorTypeParameters?_of_lastWord h.1, h.2]
  rfl

/-- What stands behind a text in angle brackets are type parameters, unless it ends in a word that
is no modifier. -/
theorem constructorTypeParameters?_generic (ha : Balanced '<' '>' 0 a) (hgap : IsGap gap) :
    constructorTypeParameters? (s ++ '<' :: (a ++ '>' :: gap)).reverse =
      if lastWord (trimStart s.reverse) = [] ∨ endsInModifier (trimStart s.reverse) then
        some (typeParameterNames a) else none := by
  have hparts : s ++ '<' :: (a ++ '>' :: gap) = (s ++ '<' :: a) ++ '>' :: gap := by simp
  have hclose : isBlank '>' = false := by decide
  refine Syntax.constructorTypeParameters?_angle ha ?_
  rw [hparts, trimStart_reverse_cons hclose hgap, List.reverse_append, List.reverse_cons,
    List.append_assoc]
  rfl

theorem trimStart_reverse_word (hne : w ≠ []) (hw : ∀ c ∈ w, isIdentChar c ∧ isBlank c = false)
    (hgap : IsGap gap) : trimStart (s ++ (w ++ gap)).reverse = w.reverse ++ s.reverse := by
  obtain ⟨v, c, rfl⟩ := (List.eq_nil_or_concat w).resolve_left hne
  have hparts : s ++ (v.concat c ++ gap) = (s ++ v) ++ c :: gap := by simp
  rw [hparts, trimStart_reverse_cons (hw c (by simp)).2 hgap]
  simp

theorem endsWord_of_word (hs : ∀ c ∈ s.getLast?, isIdentChar c = false ∧ c ≠ '@')
    (hw : IsIdentifier w) (hgap : IsGap gap) : EndsWord (trimStart (s ++ (w ++ gap)).reverse) := by
  have hstop : ∀ c ∈ s.reverse.head?, isIdentChar c = false := by
    rw [List.head?_reverse]
    exact fun c hc => (hs c hc).1
  have hident : ∀ c ∈ w, isIdentChar c := fun c hc => (hw.chars c hc).1
  have hat : (s.getLast? == some '@') = false := by
    rw [beq_eq_false_iff_ne]
    exact fun h => (hs '@' h).2 rfl
  have hfree : accessModifiers.contains w = false := by
    simpa using hw.free
  rw [EndsWord, trimStart_reverse_word hw.ne hw.chars hgap, lastWord_append hident hstop,
    endsInModifier_append hident hstop, List.head?_reverse, hat, hfree]
  exact ⟨hw.ne, rfl⟩

theorem endsFront_of_word (hne : w ≠ []) (hw : ∀ c ∈ w, isIdentChar c ∧ isBlank c = false)
    (hs : ∀ c ∈ s.getLast?, isIdentChar c = false) (hgap : IsGap gap)
    (h : w ∈ accessModifiers ∨ s.getLast? = some '@') :
    EndsFront (trimStart (s ++ (w ++ gap)).reverse) := by
  have hstop : ∀ c ∈ s.reverse.head?, isIdentChar c = false := by
    rw [List.head?_reverse]
    exact hs
  have hident : ∀ c ∈ w, isIdentChar c := fun c hc => (hw c hc).1
  right
  rw [trimStart_reverse_word hne hw hgap, lastWord_append hident hstop,
    endsInModifier_append hident hstop, List.head?_reverse]
  refine ⟨hne, ?_⟩
  rcases h with hm | hat
  · rw [List.contains_iff_mem.2 hm, Bool.true_or]
  · simp [hat]

theorem getLast?_append_cons {c d : Char} (h : d ∈ (s ++ c :: gap).getLast?) : d = c ∨ d ∈ gap := by
  have hmem : d ∈ (c :: gap).getLast? := by
    rwa [List.getLast?_append_of_ne_nil _ (List.cons_ne_nil c gap)] at h
  exact List.mem_cons.1 (List.mem_of_getLast? hmem)

theorem not_dot_of_isIdentifier (hw : IsIdentifier w) : '.' ∉ w := by
  have hdot : isIdentChar '.' = false := by decide
  intro hmem
  rw [(hw.chars _ hmem).1] at hdot
  cases hdot

/-- The scanner sees a word without an at sign before it. -/
theorem EndsQualified.endsWord (h : EndsQualified s) : EndsWord (trimStart s.reverse) := by
  have hblank {c : Char} {g : List Char} (hg : IsGap g) (hc : c ∈ g) :
      isIdentChar c = false ∧ c ≠ '@' := by
    refine ⟨(hg c hc).2, ?_⟩
    rintro rfl
    exact absurd (hg '@' hc).1 (by decide)
  obtain ⟨p, gap, n, gap', rfl, hgap, hn, hgap', hqualified⟩ := h
  cases hn with
  | simple hw =>
    have hne : gap ≠ [] := hqualified.resolve_right (not_dot_of_isIdentifier hw)
    have hparts : p ++ '@' :: (gap ++ (n ++ gap')) = (p ++ '@' :: gap) ++ (n ++ gap') := by simp
    rw [hparts]
    refine endsWord_of_word (fun c hc => ?_) hw hgap'
    obtain ⟨g, d, rfl⟩ := (List.eq_nil_or_concat gap).resolve_left hne
    obtain rfl : d = c := by simpa [List.getLast?_cons] using hc
    exact hblank hgap (by simp)
  | @member n g g' w hn hg hg' hw =>
    have hparts : p ++ '@' :: (gap ++ (n ++ (g ++ '.' :: (g' ++ w)) ++ gap')) =
        (p ++ '@' :: (gap ++ (n ++ g)) ++ '.' :: g') ++ (w ++ gap') := by simp
    rw [hparts]
    refine endsWord_of_word (fun c hc => ?_) hw hgap'
    rcases getLast?_append_cons hc with rfl | hc
    · decide
    · exact hblank hg' hc

/-- All other fronts of constructors are known. -/
theorem Front.endsFront (h : Front s) : EndsQualified s ∨ EndsFront (trimStart s.reverse) := by
  cases h with
  | start h =>
    refine .inr (.inl fun c hc => ?_)
    rw [← OffsetScan.reverse_trimEnd, List.head?_reverse] at hc
    rcases h c hc with rfl | rfl <;> simp
  | @modifier s m gap hs hm hstart hgap =>
    have hall : ∀ m ∈ accessModifiers, m ≠ [] ∧ ∀ c ∈ m, isIdentChar c ∧ isBlank c = false := by
      decide
    exact .inr (endsFront_of_word (hall m hm).1 (hall m hm).2 hstart hgap (.inl hm))
  | @annotated s gap n gap' hs hgap hn hgap' =>
    by_cases hqualified : gap ≠ [] ∨ '.' ∈ n
    · exact .inl ⟨s, gap, n, gap', rfl, hgap, hn, hgap', hqualified⟩
    · obtain ⟨hnil, hdot⟩ := not_or.1 hqualified
      obtain rfl := not_not.1 hnil
      cases hn with
      | simple hw =>
        have hparts : s ++ '@' :: ([] ++ (n ++ gap')) = (s ++ ['@']) ++ (n ++ gap') := by simp
        rw [hparts]
        have hat : ∀ c ∈ (s ++ ['@']).getLast?, isIdentChar c = false := by
          simp only [List.getLast?_append, List.getLast?_singleton, Option.some_or]
          rintro c ⟨⟩
          decide
        exact .inr (endsFront_of_word hw.ne hw.chars hat hgap' (.inr (by simp)))
      | member => exact absurd (by simp) hdot
  | @called s gap n gap' arguments gap'' hs hgap hn hgap' ha hgap'' =>
    have hround : isBlank ')' = false := by decide
    have hparts : s ++ '@' :: (gap ++ (n ++ (gap' ++ '(' :: (arguments ++ ')' :: gap'')))) =
        (s ++ '@' :: (gap ++ (n ++ (gap' ++ '(' :: arguments)))) ++ ')' :: gap'' := by simp
    rw [hparts, trimStart_reverse_cons hround hgap'']
    refine .inr (.inl ?_)
    rintro c ⟨⟩
    simp

theorem lastWord_eq_nil (h : ∀ c ∈ t.head?, c ∈ [';', '\x7d', ')']) : lastWord t = [] := by
  have hall : ∀ c ∈ [';', '\x7d', ')'], isIdentChar c = false := by decide
  rcases t with _ | ⟨c, s⟩
  · rfl
  · exact lastWord_cons_of_not (hall c (h c rfl))

theorem constructorTypeParameters?_of_qualifiedLast (h : QualifiedLast before) :
    constructorTypeParameters? before.reverse = none := by
  rcases h with h | ⟨s, a, gap, rfl, ha, hgap, h⟩
  · exact h.endsWord.constructorTypeParameters?
  · rw [constructorTypeParameters?_generic ha hgap, h.endsWord.2, if_neg]
    simpa using h.endsWord.1

/-- Headers without such an annotation at their end are read. -/
theorem IsHeader.constructorTypeParameters? {own : List String} (h : IsHeader before own)
    (hlast : ¬QualifiedLast before) :
    constructorTypeParameters? before.reverse = some own := by
  rw [QualifiedLast, not_or] at hlast
  cases h with
  | plain hs => exact (hs.endsFront.resolve_left hlast.1).constructorTypeParameters?
  | @generic s a gap hs ha hgap =>
    rw [constructorTypeParameters?_generic ha hgap, if_pos]
    rcases hs.endsFront with h | h | h
    · exact absurd ⟨s, a, gap, rfl, ha, hgap, h⟩ hlast.2
    · exact .inl (lastWord_eq_nil h)
    · exact .inr h.2

theorem AfterType.constructorTypeParameters? (h : AfterType before) :
    constructorTypeParameters? before.reverse = none := by
  cases h with
  | word hs hw hgap => exact (endsWord_of_word hs hw hgap).constructorTypeParameters?
  | @angle s w gap a gap' hs hw hgap ha hgap' =>
    have hends := endsWord_of_word hs hw hgap
    rw [constructorTypeParameters?_generic ha hgap', hends.2, if_neg]
    simpa using hends.1
  | @array s gap hgap =>
    have hsquare : isBlank ']' = false := by decide
    have hident : isIdentChar ']' = false := by decide
    rw [Java.constructorTypeParameters?, trimStart_reverse_cons hsquare hgap]
    simp [lastWord_cons_of_not hident]

/-! ## Constructors of a body -/

/-- A place in the body of a class at which a list in round brackets follows a name. -/
structure Place where
  before : List Char
  inside : List Char
  after : List Char
  deriving DecidableEq

/-- The name stands at the place outside of all braces, and a body or a throws clause follows the
list. -/
structure Place.StandsIn (name body : List Char) (p : Place) : Prop where
  parts : ∃ gap, body = p.before ++ (name ++ (gap ++ '(' :: (p.inside ++ ')' :: p.after))) ∧
    ∀ c ∈ gap, isBlank c
  closed : Balanced '(' ')' 0 p.inside
  outer : p.before.count '\x7b' = p.before.count '\x7d'
  goesOn : ∃ gap rest, p.after = gap ++ rest ∧ (∀ c ∈ gap, isBlank c) ∧
    (rest.head? = some '\x7b' ∨ "throws".toList <+: rest)

/-- A constructor with these names of type parameters is declared at the place. -/
structure Declares (name body : List Char) (p : Place) (own : List String) : Prop where
  stands : p.StandsIn name body
  start : ∀ c ∈ p.before.getLast?, isNameChar c = false
  header : IsHeader p.before own

/-- The constructor found at a call, and its place. -/
def NameCall.found? (name : String) (scope : List String) (call : NameCall) :
    Option (Place × Constructor) :=
  (call.constructor? name scope).bind fun c =>
    (closing? '(' ')' call.after).map fun (inside, after) =>
      (⟨call.before.reverse, inside, after⟩, c)

variable {scope own : List String} {p : Place} {c : Constructor}

theorem startsBody_iff {after : List Char} : startsBody after ↔
    ∃ gap rest, after = gap ++ rest ∧ (∀ c ∈ gap, isBlank c) ∧
      (rest.head? = some '\x7b' ∨ "throws".toList <+: rest) := by
  rw [startsBody, Bool.or_eq_true, beq_iff_eq, List.isPrefixOf_iff_prefix]
  constructor
  · intro h
    exact ⟨after.takeWhile isBlank, trimStart after, List.takeWhile_append_dropWhile.symm,
      fun c hc => List.all_eq_true.1 List.all_takeWhile c hc, h⟩
  · rintro ⟨gap, rest, rfl, hgap, hrest⟩
    have hblank : ∀ c ∈ rest.head?, isBlank c = false := by
      intro c hc
      rcases hrest with h | ⟨r, rfl⟩
      · obtain rfl := Option.some.inj (h.symm.trans hc)
        decide
      · obtain rfl : 't' = c := by simpa using hc
        decide
    rwa [trimStart_append_of_blank hgap hblank]

theorem constructor?_eq_some_iff {nm : String} : call.constructor? nm scope = some c ↔
    call.depth = 0 ∧ ∃ own inside after, constructorTypeParameters? call.before = some own ∧
      closing? '(' ')' call.after = some (inside, after) ∧ startsBody after ∧
      c = ⟨nm, parameters (scope ++ own) inside⟩ := by
  unfold NameCall.constructor?
  by_cases hdepth : call.depth = 0
  · rw [if_neg (by simpa using hdepth)]
    rcases constructorTypeParameters? call.before with _ | own
    · simp
    · rcases closing? '(' ')' call.after with _ | ⟨inside, after⟩
      · simp
      · by_cases hbody : startsBody after
        · simp [hdepth, hbody, eq_comm (a := c)]
        · simp [hbody]
  · simp [hdepth]

theorem found?_eq_some_iff {nm : String} : call.found? nm scope = some (p, c) ↔
    call.depth = 0 ∧ call.before = p.before.reverse ∧ call.after = p.inside ++ ')' :: p.after ∧
      Balanced '(' ')' 0 p.inside ∧ startsBody p.after ∧
      ∃ own, constructorTypeParameters? p.before.reverse = some own ∧
        c = ⟨nm, parameters (scope ++ own) p.inside⟩ := by
  unfold NameCall.found?
  rw [Option.bind_eq_some_iff]
  constructor
  · rintro ⟨c', hc, hplace⟩
    obtain ⟨hdepth, own, inside, after, hown, hclosing, hbody, rfl⟩ := constructor?_eq_some_iff.1 hc
    rw [hclosing] at hplace
    obtain ⟨rfl, rfl⟩ := Prod.mk.inj (Option.some.inj hplace)
    obtain ⟨hafter, hclosed⟩ := (closing?_eq_some_iff (by decide)).1 hclosing
    simp only [List.reverse_reverse]
    exact ⟨hdepth, trivial, hafter, hclosed, hbody, own, hown, rfl⟩
  · rintro ⟨hdepth, hbefore, hafter, hclosed, hbody, own, hown, rfl⟩
    have hclosing := (closing?_eq_some_iff (by decide)).2 ⟨hafter, hclosed⟩
    refine ⟨_, constructor?_eq_some_iff.2 ⟨hdepth, own, _, _, hbefore ▸ hown, hclosing, hbody, rfl⟩,
      ?_⟩
    rw [hclosing, hbefore, List.reverse_reverse]
    rfl

/-- The constructors that are found in a body, with their places. -/
def foundIn (name : String) (scope : List String) (body : List Char) : List (Place × Constructor) :=
  (nameCalls name.toList [] 0 body).filterMap (NameCall.found? name scope)

theorem map_foundIn (nm : String) (scope : List String) (body : List Char) :
    (foundIn nm scope body).map Prod.snd = constructors nm scope body := by
  rw [foundIn, List.map_filterMap, constructors]
  refine List.filterMap_congr fun call _ => ?_
  unfold NameCall.found?
  rcases hc : call.constructor? nm scope with _ | c
  · rfl
  · obtain ⟨-, -, inside, after, -, hclosing, -⟩ := constructor?_eq_some_iff.1 hc
    rw [Option.bind_some, hclosing]
    rfl

/-- A constructor is found where the class name starts a word and the text before it is read as a
header. -/
theorem mem_foundIn_iff (hname : IsClassName name) (hbody : Balanced '\x7b' '\x7d' 0 body) :
    (p, c) ∈ foundIn (String.ofList name) scope body ↔
      p.StandsIn name body ∧ isBoundary p.before.getLast? name.head? ∧
      ∃ own, constructorTypeParameters? p.before.reverse = some own ∧
        c = ⟨String.ofList name, parameters (scope ++ own) p.inside⟩ := by
  have hdepth {s t : List Char} (h : body = s ++ t) :
      s.foldl braceDepth 0 = 0 ↔ s.count '\x7b' = s.count '\x7d' := by
    have := foldl_braceDepth (h ▸ hbody)
    omega
  rw [foundIn, List.mem_filterMap, String.toList_ofList]
  constructor
  · rintro ⟨call, hcall, hfound⟩
    obtain ⟨hd, hbefore, hafter, hclosed, hstarts, hown⟩ := found?_eq_some_iff.1 hfound
    obtain ⟨s, gap, hparts, hgap, hb, hbefore', hd'⟩ := (mem_nameCalls_iff hname).1 hcall
    obtain rfl : s = p.before := by
      rw [hbefore, List.append_nil] at hbefore'
      exact (List.reverse_inj.1 hbefore').symm
    rw [hafter] at hparts
    rw [List.append_nil, List.head?_reverse] at hb
    exact ⟨⟨⟨gap, hparts, hgap⟩, hclosed, (hdepth hparts).1 (hd'.symm.trans hd),
      startsBody_iff.1 hstarts⟩, hb, hown⟩
  · rintro ⟨⟨⟨gap, hparts, hgap⟩, hclosed, houter, hgoesOn⟩, hb, hown⟩
    refine ⟨⟨p.before.reverse, 0, p.inside ++ ')' :: p.after⟩, (mem_nameCalls_iff hname).2 ?_,
      found?_eq_some_iff.2 ⟨rfl, rfl, rfl, hclosed, startsBody_iff.2 hgoesOn, hown⟩⟩
    exact ⟨p.before, gap, hparts, hgap, by simpa using hb, by simp, ((hdepth hparts).2 houter).symm⟩

/-- Where a name starts, a word starts unless the name begins with a dollar sign. -/
theorem isBoundary_iff (hname : IsClassName name)
    (hbefore : ∀ c ∈ before.getLast?, isNameChar c = false) :
    isBoundary before.getLast? name.head? ↔ name.head? ≠ some '$' := by
  obtain ⟨d, hd, hstart⟩ := hname.start
  have hword : before.getLast?.any isWordChar = false := by
    rcases hlast : before.getLast? with _ | c
    · rfl
    · have hc := hbefore c hlast
      rw [isNameChar, Bool.or_eq_false_iff] at hc
      exact hc.1
  have hdollar : isWordChar '$' = false := by decide
  have hnameChar := isNameChar_of_isNameStart hstart
  rw [isNameChar, Bool.or_eq_true, beq_iff_eq] at hnameChar
  rw [isBoundary, hword, Option.mem_def.1 hd, Option.any_some]
  constructor
  · intro h hsome
    obtain rfl := Option.some.inj hsome
    rw [hdollar] at h
    cases h
  · intro h
    rw [hnameChar.resolve_right fun hd => h (by rw [hd])]
    rfl

theorem Declares.mem_foundIn_iff (hname : IsClassName name)
    (hbody : Balanced '\x7b' '\x7d' 0 body) (h : Declares name body p own) :
    (p, c) ∈ foundIn (String.ofList name) scope body ↔
      c = ⟨String.ofList name, parameters (scope ++ own) p.inside⟩ ∧ ¬Overlooked name p.before := by
  rw [Java.mem_foundIn_iff hname hbody, isBoundary_iff hname h.start, Overlooked, not_or]
  constructor
  · rintro ⟨-, hdollar, own', hown, rfl⟩
    have hlast : ¬QualifiedLast p.before := fun hlast => by
      rw [constructorTypeParameters?_of_qualifiedLast hlast] at hown
      cases hown
    rw [h.header.constructorTypeParameters? hlast, Option.some.injEq] at hown
    subst hown
    exact ⟨rfl, hdollar, hlast⟩
  · rintro ⟨rfl, hdollar, hlast⟩
    exact ⟨h.stands, hdollar, own, h.header.constructorTypeParameters? hlast, rfl⟩

theorem pairwise_foundIn (hname : IsClassName name) (scope : List String) (body : List Char) :
    (foundIn (String.ofList name) scope body).Pairwise
      fun x y => x.1.before.length < y.1.before.length := by
  rw [foundIn, List.pairwise_filterMap, String.toList_ofList]
  refine (pairwise_nameCalls hname).imp fun hlt x hx y hy => ?_
  obtain ⟨-, hx, -⟩ := found?_eq_some_iff.1 hx
  obtain ⟨-, hy, -⟩ := found?_eq_some_iff.1 hy
  rw [hx, hy, List.length_reverse, List.length_reverse] at hlt
  exact hlt

/-- The constructors of a body are reported in order, and a constructor that is declared is among
them unless it is overlooked. If all other occurrences of the name are those of methods and
expressions, nothing else is reported. -/
theorem constructors_of_headers (hname : IsClassName name)
    (hbody : Balanced '\x7b' '\x7d' 0 body) (scope : List String) :
    ∃ found : List (Place × Constructor),
      constructors (String.ofList name) scope body = found.map Prod.snd ∧
      found.Pairwise (fun x y => x.1.before.length < y.1.before.length) ∧
      (∀ x ∈ found, x.1.StandsIn name body) ∧
      (∀ p own, Declares name body p own → ∀ c, (p, c) ∈ found ↔
        c = ⟨String.ofList name, parameters (scope ++ own) p.inside⟩ ∧
          ¬Overlooked name p.before) ∧
      ((∀ p : Place, p.StandsIn name body → isBoundary p.before.getLast? name.head? →
          (∃ own, Declares name body p own) ∨ AfterType p.before) →
        ∀ declared : List Place, declared.Nodup →
          (∀ p, p ∈ declared ↔ (∃ own, Declares name body p own) ∧ ¬Overlooked name p.before) →
          (constructors (String.ofList name) scope body).length = declared.length) := by
  let found := foundIn (String.ofList name) scope body
  have hpairwise : found.Pairwise fun x y => x.1.before.length < y.1.before.length :=
    pairwise_foundIn hname scope body
  refine ⟨found, (map_foundIn _ _ _).symm, hpairwise,
    fun x hx => ((mem_foundIn_iff hname hbody).1 hx).1,
    fun p own hp c => hp.mem_foundIn_iff hname hbody, fun hothers declared hnodup hdeclared => ?_⟩
  have hplaces : (found.map Prod.fst).Nodup := by
    rw [List.Nodup, List.pairwise_map]
    exact hpairwise.imp fun hlt heq => by simp [heq] at hlt
  have hmem (p : Place) : p ∈ found.map Prod.fst ↔ p ∈ declared := by
    rw [hdeclared, List.mem_map]
    constructor
    · rintro ⟨⟨p, c⟩, hfound, rfl⟩
      obtain ⟨hstands, hb, own', hown, -⟩ := (mem_foundIn_iff hname hbody).1 hfound
      rcases hothers p hstands hb with ⟨own, hp⟩ | htype
      · exact ⟨⟨own, hp⟩, ((hp.mem_foundIn_iff hname hbody).1 hfound).2⟩
      · rw [htype.constructorTypeParameters?] at hown
        cases hown
    · rintro ⟨⟨own, hp⟩, hseen⟩
      exact ⟨(p, _), (hp.mem_foundIn_iff hname hbody).2 ⟨rfl, hseen⟩, rfl⟩
  rw [← map_foundIn, List.length_map, ← List.length_map Prod.fst]
  exact ((List.perm_ext_iff_of_nodup hplaces hnodup).2 hmem).length_eq

def namesakes : List Char :=
  "@Inject public <T> A(T t) throws E \x7b \x7d void A() \x7b \x7d".toList

def namesakePlace : Place :=
  ⟨"@Inject public <T> ".toList, "T t".toList, " throws E \x7b \x7d void A() \x7b \x7d".toList⟩

theorem isHeader_namesake : IsHeader namesakePlace.before ["T"] := by
  have hinject : Front "@Inject ".toList :=
    .annotated (s := []) (g := []) (n := "Inject".toList) (h := [' ']) (.start (by decide))
      (by decide) (.simple ⟨by simp, by decide, by decide⟩) (by decide)
  have hpublic : Front "@Inject public ".toList :=
    .modifier (s := "@Inject ".toList) (m := "public".toList) (g := [' ']) hinject (by decide)
      (by decide) (by decide)
  have hnames : typeParameterNames ['T'] = ["T"] := by decide +kernel
  rw [← hnames]
  exact .generic (s := "@Inject public ".toList) (a := ['T']) (g := [' ']) hpublic
    (balanced_of_not_mem (by decide) (by decide)) (by decide)

theorem declares_namesake {p : Place} (h : p.StandsIn ['A'] namesakes)
    (hbefore : p.before = namesakePlace.before) : Declares ['A'] namesakes p ["T"] where
  stands := h
  start := by
    rw [hbefore]
    decide
  header := hbefore ▸ isHeader_namesake

/-- The constructor is reported and the method is not. -/
theorem constructors_of_headers_namesakes :
    ∃ found : List (Place × Constructor),
      constructors "A" [] namesakes = found.map Prod.snd ∧
      (namesakePlace, ⟨"A", parameters ["T"] "T t".toList⟩) ∈ found ∧
      (constructors "A" [] namesakes).length = 1 := by
  have hname : IsClassName ['A'] := ⟨⟨'A', rfl, by decide⟩, by decide⟩
  have hclosing : closing? '\x7b' '\x7d' (namesakes ++ ['\x7d']) = some (namesakes, []) := by
    decide +kernel
  have hbody := ((closing?_eq_some_iff (by decide)).1 hclosing).2
  have hstands : namesakePlace.StandsIn ['A'] namesakes :=
    ⟨⟨[], by decide, by simp⟩, balanced_of_not_mem (by decide) (by decide), by decide,
      [' '], "throws E \x7b \x7d void A() \x7b \x7d".toList, by decide, by decide, .inr (by decide)⟩
  have hdeclares := declares_namesake hstands rfl
  have hfound : foundIn "A" [] namesakes =
      [(namesakePlace, ⟨"A", parameters ["T"] "T t".toList⟩)] := by decide +kernel
  have hmember : (namesakePlace, ⟨"A", parameters ["T"] "T t".toList⟩) ∈
      foundIn "A" [] namesakes := by
    rw [hfound]
    exact List.mem_cons_self
  have hseen : ¬Overlooked ['A'] namesakePlace.before :=
    ((hdeclares.mem_foundIn_iff hname hbody).1 hmember).2
  have hcalls : ∀ call ∈ nameCalls ['A'] [] 0 namesakes,
      call.before = namesakePlace.before.reverse ∨
        call.before = "@Inject public <T> A(T t) throws E \x7b \x7d void ".toList.reverse := by
    decide +kernel
  obtain ⟨found, hmap, -, -, hmem, hcount⟩ := constructors_of_headers hname hbody []
  refine ⟨found, hmap, (hmem _ _ hdeclares _).2 ⟨rfl, hseen⟩,
    hcount (fun p hp hb => ?_) [namesakePlace] (by simp) fun p => ?_⟩
  · obtain ⟨gap, hparts, hgap⟩ := hp.parts
    rcases hcalls ⟨p.before.reverse, _, p.inside ++ ')' :: p.after⟩ ((mem_nameCalls_iff hname).2
      ⟨p.before, gap, hparts, hgap, by simpa using hb, by simp, rfl⟩) with h | h
    · exact .inl ⟨_, declares_namesake hp (List.reverse_inj.1 h)⟩
    · rw [List.reverse_inj.1 h]
      exact .inr (.word (s := "@Inject public <T> A(T t) throws E \x7b \x7d ".toList)
        (w := "void".toList) (g := [' ']) (by decide) ⟨by simp, by decide, by decide⟩ (by decide))
  · rw [List.mem_singleton]
    constructor
    · rintro rfl
      exact ⟨⟨_, hdeclares⟩, hseen⟩
    · rintro ⟨⟨own, hp⟩, hnot⟩
      have hplace : (p, ⟨"A", parameters own p.inside⟩) ∈ foundIn "A" [] namesakes :=
        (hp.mem_foundIn_iff hname hbody).2 ⟨rfl, hnot⟩
      exact congrArg Prod.fst (List.mem_singleton.1 (hfound ▸ hplace))

/-- A qualified annotation without arguments, or a name that begins with a dollar sign, keeps a
constructor from being reported. -/
theorem constructors_overlooked :
    (IsClassName "A".toList ∧
      Declares "A".toList "@javax.inject.Inject A(String s) \x7b \x7d".toList
        ⟨"@javax.inject.Inject ".toList, "String s".toList, " \x7b \x7d".toList⟩ [] ∧
      constructors "A" [] "@javax.inject.Inject A(String s) \x7b \x7d".toList = []) ∧
    (IsClassName "$A".toList ∧
      Declares "$A".toList "$A(String s) \x7b \x7d".toList
        ⟨[], "String s".toList, " \x7b \x7d".toList⟩ [] ∧
      constructors "$A" [] "$A(String s) \x7b \x7d".toList = []) := by
  have hinside : Balanced '(' ')' 0 "String s".toList :=
    balanced_of_not_mem (by decide) (by decide)
  have hname : QualifiedName "javax.inject.Inject".toList :=
    .member (n := "javax.inject".toList) (g := []) (h := []) (w := "Inject".toList)
      (.member (n := "javax".toList) (g := []) (h := []) (w := "inject".toList)
        (.simple ⟨by simp, by decide, by decide⟩) (by decide) (by decide)
        ⟨by simp, by decide, by decide⟩) (by decide) (by decide) ⟨by simp, by decide, by decide⟩
  have hfront : Front "@javax.inject.Inject ".toList :=
    .annotated (s := []) (g := []) (h := [' ']) (.start (by decide)) (by decide) hname
      (by decide)
  refine ⟨⟨⟨⟨'A', rfl, by decide⟩, by decide⟩, ⟨⟨⟨[], by decide, by simp⟩, hinside, by decide, ?_⟩,
    by decide, .plain hfront⟩, by decide +kernel⟩, ⟨⟨'$', rfl, by decide⟩, by decide⟩,
    ⟨⟨⟨[], by decide, by simp⟩, hinside, rfl, ?_⟩, by simp, .plain (.start (by decide))⟩,
    by decide +kernel⟩
  all_goals exact ⟨[' '], "\x7b \x7d".toList, by decide, by decide, .inl (by decide)⟩

end Companion.Java
