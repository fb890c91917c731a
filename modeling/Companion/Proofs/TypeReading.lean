import Companion.Proofs.TypeText

/-!
# Types as they are read

What the scanner makes of the types, type parameters and parameters that the syntax writes: the
erasure of a type (`erase_print`), the superclass that a header names (`superclass?_clauses`), the
names of type parameters (`typeParameterNames_listed`) and the parameters of a parameter list
(`parameters_listed`).
-/

namespace Companion.Java.Syntax

open Text
open Unicode (isBlank isWordChar)

variable {s t rest : List Char} {c : Char}

/-- What ends the erasure of a type. -/
def endsErasure (c : Char) : Bool :=
  c == '<' || c == '[' || isBlank c

theorem takeWhile_word (hs : ∀ c ∈ s, isLetterOrDigit c ∨ c = '.') (rest : List Char) :
    (s ++ rest).takeWhile (!endsErasure ·) = s ++ rest.takeWhile (!endsErasure ·) := by
  refine List.takeWhile_append_of_pos fun c hc => ?_
  rcases hs c hc with h | rfl
  · exact forall_isLetterOrDigit (p := fun c => (!endsErasure c) = true) (by decide) h
  · decide

theorem takeWhile_angled {ps : List (List Char)} (hps : ps ≠ []) (rest : List Char) :
    (angled ps ++ rest).takeWhile (!endsErasure ·) = [] := by
  rw [angled, if_neg hps]
  rfl

/-- The erasure of a class type ends at its first type arguments. -/
theorem ClassType.takeWhile_print (t : ClassType) (rest : List Char) :
    (t.print ++ rest).takeWhile (!endsErasure ·) =
      t.erasure ++ if t.isRaw then rest.takeWhile (!endsErasure ·) else [] := by
  cases t with
  | simple name args =>
    rw [ClassType.print, ClassType.erasure, ClassType.isRaw, List.append_assoc,
      takeWhile_word fun c hc => .inl (name.isLetterOrDigit c hc)]
    rcases hargs : args.prints with _ | ⟨s, ps⟩
    · rfl
    · rw [takeWhile_angled (by simp)]
      rfl
  | member outer name args =>
    have hname : ∀ c ∈ '.' :: name.text, isLetterOrDigit c ∨ c = '.' :=
      List.forall_mem_cons.2 ⟨.inr rfl, fun c hc => .inl (name.isLetterOrDigit c hc)⟩
    rw [ClassType.print, List.append_assoc, outer.takeWhile_print, ClassType.erasure,
      ClassType.isRaw]
    by_cases houter : outer.isRaw
    · rw [if_pos houter, if_pos houter, houter, ← List.cons_append, List.append_assoc,
        takeWhile_word hname]
      rcases hargs : args.prints with _ | ⟨s, ps⟩
      · simp [angled]
      · rw [takeWhile_angled (by simp)]
        simp
    · rw [if_neg houter, if_neg houter, if_neg (by simp [houter])]

theorem JavaType.takeWhile_print (t : JavaType) (rest : List Char) :
    (t.print ++ rest).takeWhile (!endsErasure ·) = t.erasure ∨
      (t.print ++ rest).takeWhile (!endsErasure ·) =
        t.erasure ++ rest.takeWhile (!endsErasure ·) := by
  cases t with
  | primitive p =>
    refine .inr (takeWhile_word (fun c hc => .inl ?_) rest)
    revert c
    cases p <;> decide
  | named t =>
    have hprint := t.takeWhile_print rest
    split_ifs at hprint
    · exact .inr hprint
    · rw [List.append_nil] at hprint
      exact .inl hprint
  | array t =>
    have hstop : (['[', ']'] ++ rest).takeWhile (!endsErasure ·) = [] := rfl
    have helement := t.takeWhile_print (['[', ']'] ++ rest)
    rw [hstop, List.append_nil, or_self, ← List.append_assoc] at helement
    exact .inl helement

theorem dropPrefixes_of_not {p : List Char} (h : ¬p.isPrefixOf s) : dropPrefixes p s = s := by
  rw [dropPrefixes, dif_neg fun hp => h hp.2]

/-- An erasure ends in a letter or digit, not in a dot. -/
theorem ClassType.getLast?_erasure (t : ClassType) :
    ∃ c, t.erasure.getLast? = some c ∧ isLetterOrDigit c := by
  cases t with
  | simple name args =>
    rw [ClassType.erasure]
    exact ⟨_, List.getLast?_eq_some_getLast name.ne_nil,
      name.isLetterOrDigit _ (List.getLast_mem name.ne_nil)⟩
  | member outer name args =>
    rw [ClassType.erasure]
    split_ifs
    · refine ⟨_, ?_, name.isLetterOrDigit _ (List.getLast_mem name.ne_nil)⟩
      rw [List.getLast?_append_of_ne_nil _ (List.cons_ne_nil _ _), List.getLast?_cons,
        List.getLast?_eq_some_getLast name.ne_nil]
      rfl
    · exact outer.getLast?_erasure

theorem JavaType.getLast?_erasure (t : JavaType) :
    ∃ c, t.erasure.getLast? = some c ∧ isLetterOrDigit c := by
  cases t with
  | primitive p =>
    rw [JavaType.erasure]
    cases p <;> exact ⟨_, rfl, by decide⟩
  | named t => exact t.getLast?_erasure
  | array t => exact t.getLast?_erasure

/-- The dots of a variadic parameter go where the text before them ends in at most
one dot. -/
theorem dropSuffixes_dots_of_ne {u : List Char} (hc : c ≠ '.')
    (hs : s = u ++ [c] ∨ s = u ++ [c, '.']) :
    dropSuffixes ['.', '.', '.'] s = s ∧
      dropSuffixes ['.', '.', '.'] (s ++ ['.', '.', '.']) = s := by
  have hdrop : dropPrefixes ['.', '.', '.'] s.reverse = s.reverse := by
    refine dropPrefixes_of_not ?_
    rcases hs with rfl | rfl <;> simp [Ne.symm hc]
  have hdots : ['.', '.', '.'].reverse = ['.', '.', '.'] := rfl
  have hcopy : dropPrefixes ['.', '.', '.'] (['.', '.', '.'] ++ s.reverse) =
      dropPrefixes ['.', '.', '.'] s.reverse := by
    rw [dropPrefixes, dif_pos ⟨by simp, by simp⟩]
    rfl
  constructor
  · rw [dropSuffixes, hdots, hdrop, List.reverse_reverse]
  · rw [dropSuffixes, hdots, List.reverse_append, hdots, hcopy, hdrop, List.reverse_reverse]

theorem dropSuffixes_dots (h : ∃ c, s.getLast? = some c ∧ isLetterOrDigit c) :
    dropSuffixes ['.', '.', '.'] s = s ∧
      dropSuffixes ['.', '.', '.'] (s ++ ['.', '.', '.']) = s := by
  obtain ⟨c, hc, hletter⟩ := h
  obtain ⟨u, rfl⟩ := List.getLast?_eq_some_iff.1 hc
  have hne : c ≠ '.' := by
    rintro rfl
    exact absurd hletter (by decide)
  exact dropSuffixes_dots_of_ne hne (.inl rfl)

theorem ClassType.erase_print (t : ClassType) : TypeRef.erase t.print = t.erasure := by
  have hprint := t.takeWhile_print []
  rw [List.append_nil, List.takeWhile_nil, ite_self, List.append_nil] at hprint
  exact (congrArg _ hprint).trans (dropSuffixes_dots t.getLast?_erasure).1

theorem Param.erase_typeText (p : Param) : TypeRef.erase p.typeText = p.type.erasure := by
  obtain ⟨hkeep, hdrop⟩ := dropSuffixes_dots p.type.getLast?_erasure
  have hend : (if p.variadic then ['.', '.', '.'] else []).takeWhile (!endsErasure ·) =
      if p.variadic then ['.', '.', '.'] else [] := by
    split_ifs <;> decide
  rcases p.type.takeWhile_print (if p.variadic then ['.', '.', '.'] else []) with h | h
  · exact (congrArg _ h).trans hkeep
  · rw [hend] at h
    refine (congrArg _ h).trans ?_
    split_ifs
    · exact hdrop
    · rw [List.append_nil]
      exact hkeep

theorem contains_ofList (scope : List Ident) (e : List Char) :
    (scope.map fun i => String.ofList i.text).contains (String.ofList e) =
      decide (e ∈ scope.map Ident.text) := by
  rw [List.contains_eq_mem]
  congr 1
  simp [String.ofList_inj]

/-- A reference as the scanner makes it, from the names in scope. -/
theorem typeRef_eq (scope : List Ident) {e : List Char} (h : TypeRef.erase s = e) :
    ⟨String.ofList s, !(scope.map fun i => String.ofList i.text).contains
      (String.ofList (TypeRef.erase s))⟩ = typeRef scope s e := by
  rw [h, contains_ofList, typeRef, decide_not]

theorem ClassType.bracketed (t : ClassType) :
    Bracketed (fun c => isIdentChar c ∨ c = '.') t.print := by
  have hword (i : Ident) : Bracketed (fun c => isIdentChar c ∨ c = '.') i.text :=
    bracketed_of_forall fun c hc => .inl (isIdentChar_of_isLetterOrDigit (i.isLetterOrDigit c hc))
  have hangled (args : TypeArgs) :
      Bracketed (fun c => isIdentChar c ∨ c = '.') (angled args.prints) := by
    unfold angled
    split_ifs with h
    · exact .nil
    · exact .angle (listText_listed h args.typeText).balanced .nil
  cases t with
  | simple name args => exact (hword name).append (hangled args)
  | member outer name args =>
    exact outer.bracketed.append (.cons (.inr rfl) ((hword name).append (hangled args)))

theorem trimStart_eq (h : Laid s) (rest : List Char) : trimStart (s ++ rest) = s ++ rest := by
  obtain ⟨c, s, rfl⟩ := List.exists_cons_of_ne_nil h.ne
  exact List.dropWhile_cons_of_neg (by simp [isBlank_of_opensLayout (h.first c rfl)])

/-- A class type is read off the front of a text where no type arguments follow. -/
theorem readType_print (t : ClassType) (h : (trimStart rest).head? ≠ some '<') :
    readType (t.print ++ ' ' :: rest) = t.print := by
  have hlaid := t.typeText.laid
  have hspan : typeSpan 0 (' ' :: rest) = [] := by
    rw [typeSpan, if_neg (by decide), if_neg (by decide), if_neg]
    simp [h, show isIdentChar ' ' = false by decide]
  rw [readType, trimStart_eq hlaid, typeSpan_append t.bracketed fun c hc => hc, hspan,
    List.append_nil]
  have htrim := trim_eq hlaid
  rw [trim] at htrim
  rwa [← List.append_nil t.print, trimStart_eq hlaid, List.append_nil] at htrim

variable {k : List Char}

theorem lacks_listed {ps : List (List Char)} (hk : k ≠ []) (h : ∀ s ∈ ps, Lacks k s) :
    Lacks k (listed ps) := by
  induction ps with
  | nil => exact lacks_nil hk
  | cons s ps ih =>
    rcases ps with _ | ⟨r, ps⟩
    · rw [show listed [s] = s by simp [listed, join]]
      exact h s List.mem_cons_self
    · rw [listed_cons_cons, lacks_append_cons (by decide), lacks_cons hk (by decide)]
      exact ⟨h s List.mem_cons_self, ih fun t ht => h t (List.mem_cons_of_mem _ ht)⟩

theorem DottedName.lacks (n : DottedName) (hk : k ∈ keywords) : Lacks k n.print := by
  obtain ⟨first, rest⟩ := n
  have hrest (s : List Char) (hs : Lacks k s) :
      Lacks k (s ++ rest.flatMap fun i => '.' :: i.text) := by
    induction rest generalizing s with
    | nil => simpa using hs
    | cons i rest ih =>
      have := ih (s ++ '.' :: i.text) ((lacks_append_cons (by decide)).2 ⟨hs, i.lacks hk⟩)
      simpa using this
  exact hrest _ (first.lacks hk)

theorem ClassHead.interfaceClause_eq_cons (h : ClassHead) :
    ∃ r, h.interfaceClause = ' ' :: r ∧ (trimStart r).head? ≠ some '<' := by
  unfold interfaceClause
  split_ifs with hnil
  · exact ⟨[], rfl, by decide⟩
  · refine ⟨"implements ".toList ++ (listed (h.interfaces.map DottedName.print) ++ [' ']), ?_, ?_⟩
    · rw [List.append_assoc]
      rfl
    · have htrim (r : List Char) : trimStart ('i' :: r) = 'i' :: r :=
        List.dropWhile_cons_of_neg (by decide)
      refine fun h => absurd ((congrArg List.head? (htrim _)).symm.trans h) ?_
      simp

/-- No superclass is found among interfaces. -/
theorem ClassHead.findExtends?_interfaceClause (h : ClassHead) :
    findExtends? h.interfaceClause = none := by
  have hlacks : Lacks "extends".toList h.interfaceClause := by
    unfold interfaceClause
    rw [lacks_append_cons (by decide)]
    refine ⟨?_, lacks_nil (by decide)⟩
    split_ifs
    · exact lacks_nil (by decide)
    · have hall : Lacks "extends".toList (listed (h.interfaces.map DottedName.print)) :=
        lacks_listed (by decide) fun s hs => by
          obtain ⟨n, -, rfl⟩ := List.mem_map.1 hs
          exact n.lacks (by decide)
      have hword : Lacks "extends".toList "implements".toList :=
        (lacks_word (by decide)).2 (by decide)
      exact (lacks_cons (by decide) (by decide)).2 ((lacks_append_cons (by decide)).2 ⟨hword, hall⟩)
  have hend : EndsWords h.interfaceClause := by
    intro c hc
    unfold interfaceClause at hc
    rw [List.getLast?_append_of_ne_nil _ (by simp)] at hc
    obtain rfl : ' ' = c := by simpa using hc
    decide
  have hskip : readFirst? extendsClause? none (h.interfaceClause ++ []) = _ :=
    readFirst?_append_of_lacks readsAfter_extendsClause? (by decide) (by decide) hlacks hend
  rw [List.append_nil] at hskip
  exact hskip

theorem findExtends?_extends (hs : Laid s) (rest : List Char) :
    findExtends? (" extends ".toList ++ (s ++ rest)) = some (s ++ rest) := by
  have hclause : extendsClause? ("extends".toList ++ ' ' :: (s ++ rest)) = some (s ++ rest) := by
    have hblank : isBlank ' ' := by decide
    rw [extendsClause?, afterPiece?_eq_some_iff.2 rfl, Option.bind_some, afterBlank?,
      if_pos (by simp [hblank]), trimStart, List.dropWhile_cons_of_pos hblank, ← trimStart,
      trimStart_eq hs]
  have hboundary : ¬isBoundary none (some ' ') := by decide
  have hword : isBoundary (some ' ') (some 'e') := by decide
  have hstep : readFirst? extendsClause? none (' ' :: ("extends".toList ++ ' ' :: (s ++ rest))) =
      readFirst? extendsClause? (some ' ') ("extends".toList ++ ' ' :: (s ++ rest)) := by
    rw [readFirst?, if_neg hboundary]
  refine hstep.trans ?_
  have hfound :
      readFirst? extendsClause? (some ' ') ('e' :: ("xtends".toList ++ ' ' :: (s ++ rest))) =
      (extendsClause? ("extends".toList ++ ' ' :: (s ++ rest))).or
        (readFirst? extendsClause? (some 'e') ("xtends".toList ++ ' ' :: (s ++ rest))) := by
    rw [readFirst?, if_pos hword]
    rfl
  refine hfound.trans ?_
  rw [hclause, Option.some_or]

theorem superclass?_clauses (h : ClassHead) :
    superclass? (h.scope.map fun i => String.ofList i.text) h.clauses =
      h.superclass.map fun s => typeRef h.scope s.print s.erasure := by
  obtain ⟨r, hr, hangle⟩ := h.interfaceClause_eq_cons
  rcases hsuper : h.superclass with _ | s
  · have hclauses : h.clauses = h.interfaceClause := by
      rw [ClassHead.clauses, hsuper]
      rfl
    rw [superclass?, hclauses, h.findExtends?_interfaceClause]
    rfl
  · have hclauses : h.clauses = " extends ".toList ++ (s.print ++ h.interfaceClause) := by
      rw [ClassHead.clauses, hsuper]
      exact List.append_assoc _ _ _
    have hlaid := s.typeText.laid
    have hempty : ¬s.print.isEmpty := by simpa using hlaid.ne
    rw [superclass?, hclauses, findExtends?_extends hlaid]
    simp only [hr, readType_print s hangle, normalizeType_eq hlaid, Option.map_some]
    rw [if_neg hempty, typeRef_eq h.scope s.erase_print]

/-- The first word of a text. -/
theorem head?_words (hne : s ≠ []) (hs : ∀ c ∈ s, isBlank c = false)
    (hrest : ∀ c ∈ rest.head?, isBlank c) : (words (s ++ rest)).head? = some s := by
  induction s with
  | nil => exact absurd rfl hne
  | cons c s ih =>
    have hc := hs c List.mem_cons_self
    rcases s with _ | ⟨d, s⟩
    · rcases rest with _ | ⟨z, r⟩
      · simp [words, hc]
      · simp [words, hc, hrest z rfl]
    · have hd := hs d (by simp)
      have hwords := ih (by simp) fun x hx => hs x (List.mem_cons_of_mem _ hx)
      simp only [List.cons_append, words, hc, hd, if_false, Bool.false_eq_true] at hwords ⊢
      obtain ⟨ps, hps⟩ := List.head?_eq_some_iff.1 hwords
      rw [hps]
      rfl

theorem TypeParam.head?_words_print (p : TypeParam) :
    (words p.print).head? = some p.name.text := by
  refine head?_words p.name.ne_nil
    (fun c hc => isBlank_of_isLetterOrDigit (p.name.isLetterOrDigit c hc)) fun c hc => ?_
  split_ifs at hc
  · simp at hc
  · obtain rfl : ' ' = c := by simpa using hc
    decide

theorem typeParameterNames_listed (ps : List TypeParam) :
    typeParameterNames (listed (ps.map TypeParam.print)) =
      (ps.map TypeParam.name).map fun i => String.ofList i.text := by
  rw [typeParameterNames, splitTopLevel_listed fun s hs => ?_]
  · induction ps with
    | nil => rfl
    | cons p ps ih => simp [p.head?_words_print, ih]
  · obtain ⟨p, -, rfl⟩ := List.mem_map.1 hs
    exact p.typeText

theorem dropAnnotations_eq (h : '@' ∉ s) : dropAnnotations s = s := by
  induction s with
  | nil => rw [dropAnnotations]
  | cons c s ih =>
    simp only [List.mem_cons, not_or] at h
    rw [dropAnnotations, if_neg fun hc => h.1 hc.1.symm, ih h.2]

theorem splitAtLastSpace?_append (hs : ' ' ∉ s) (t : List Char) :
    splitAtLastSpace? (t ++ ' ' :: s) = some (t, s) := by
  have hall : ∀ c ∈ s.reverse, c != ' ' := by
    intro c hc
    rw [bne_iff_ne]
    rintro rfl
    exact hs (List.mem_reverse.1 hc)
  have hreverse : (t ++ ' ' :: s).reverse = s.reverse ++ ' ' :: t.reverse := by simp
  rw [splitAtLastSpace?, hreverse, List.dropWhile_append_of_pos hall,
    List.takeWhile_append_of_pos hall]
  simp

/-- The text of a type does not start with a modifier. -/
theorem afterPiece?_final (p : Param) : afterPiece? "final ".toList p.print = none := by
  rcases hpiece : afterPiece? "final ".toList p.print with _ | r
  · rfl
  · have hprint : p.print = "final".toList ++ ' ' :: r :=
      (afterPiece?_eq_some_iff.1 hpiece).trans rfl
    have hlacks := p.typeText_print.lacks "final".toList (by decide)
    rw [hprint, lacks_append_cons (by decide), lacks_word (by decide)] at hlacks
    exact absurd rfl hlacks.1

theorem parameter?_print (scope : List Ident) (p : Param) :
    parameter? (scope.map fun i => String.ofList i.text) p.print = some (p.parameter scope) := by
  have hlaid := p.typeText_print.laid
  have hannotation : '@' ∉ p.print := fun h =>
    absurd (p.typeText_print.chars _ h) (by decide)
  have hname : ' ' ∉ p.name.text := fun h => absurd (p.name.isLetterOrDigit _ h) (by decide)
  have hlayout : parameterLayout p.print = p.print := by
    simp only [parameterLayout, dropAnnotations_eq hannotation, normalizeType_eq hlaid,
      afterPiece?_final, Option.getD_none]
  rw [parameter?, hlayout, Param.print, splitAtLastSpace?_append hname, Option.map_some,
    Param.parameter, ← typeRef_eq scope p.erase_typeText]

theorem parameters_listed (scope : List Ident) (ps : List Param) :
    parameters (scope.map fun i => String.ofList i.text) (listed (ps.map Param.print)) =
      ps.map (Param.parameter scope) := by
  rw [parameters, splitTopLevel_listed fun s hs => ?_]
  · induction ps with
    | nil => rfl
    | cons p ps ih => simp [parameter?_print, ih]
  · obtain ⟨p, -, rfl⟩ := List.mem_map.1 hs
    exact p.typeText_print

end Companion.Java.Syntax
