import Companion.Proofs.Brackets
import Companion.Proofs.OffsetTypes

/-!
# Constructors are found at offsets

An occurrence of the class name parts the body (`nameCalls_spec`), so the text before it, its
parameter list and the text after it are cut out between parts (`constructorAt?_eq_ok`). The table
of brace depths has an entry for every byte, and the one at the occurrence is the depth that is
counted along the way (`braceDepths_eq_ok`).
-/

namespace Companion.Java

open Text

theorem suffix_of_afterCall? {name text after : List Char} (h : afterCall? name text = some after) :
    ∃ blanks, text = name ++ (blanks ++ '(' :: after) ∧ ∀ c ∈ blanks, Unicode.isBlank c := by
  unfold afterCall? at h
  split at h
  · simp at h
  · rename_i rest hrest
    split at h
    · rename_i after' hafter
      simp only [Option.some.injEq] at h
      subst h
      refine ⟨rest.takeWhile Unicode.isBlank, ?_, fun c hc => ?_⟩
      · rw [afterPiece?_eq_some_iff.1 hrest, ← hafter, trimStart, List.takeWhile_append_dropWhile]
      · exact List.all_eq_true.1 List.all_takeWhile c hc
    · simp at h

theorem foldl_braceDepth_of_not_mem {depth : Nat} {s : List Char} (ho : '\x7b' ∉ s)
    (hc : '\x7d' ∉ s) : s.foldl braceDepth depth = depth := by
  induction s with
  | nil => rfl
  | cons c s ih =>
    simp only [List.mem_cons, not_or] at ho hc
    rw [List.foldl_cons, braceDepth, if_neg (Ne.symm ho.1), if_neg (Ne.symm hc.1), ih ho.2 hc.2]

/-- An occurrence of a name without braces parts the text, and knows what is open before it. -/
theorem nameCalls_spec {name : List Char} (ho : '\x7b' ∉ name) (hc : '\x7d' ∉ name)
    {before text : List Char} {depth : Nat} {call : NameCall}
    (h : call ∈ nameCalls name before depth text) :
    ∃ p m, text = p ++ (m ++ '(' :: call.after) ∧ call.before = p.reverse ++ before ∧
      call.depth = p.foldl braceDepth depth := by
  have hstep {before cs : List Char} {c : Char} {depth : Nat}
      (h : ∃ p m, cs = p ++ (m ++ '(' :: call.after) ∧ call.before = p.reverse ++ c :: before ∧
        call.depth = p.foldl braceDepth (braceDepth depth c)) :
      ∃ p m, c :: cs = p ++ (m ++ '(' :: call.after) ∧ call.before = p.reverse ++ before ∧
        call.depth = p.foldl braceDepth depth := by
    obtain ⟨p, m, rfl, hb, hd⟩ := h
    exact ⟨c :: p, m, rfl, by simpa using hb, by simpa using hd⟩
  fun_induction nameCalls name before depth text with
  | case1 => simp at h
  | case2 before depth c cs hb after hafter passed ih =>
    obtain ⟨blanks, htext, hblanks⟩ := suffix_of_afterCall? hafter
    rcases List.mem_cons.1 h with rfl | h
    · exact ⟨[], name ++ blanks, by simp [htext], rfl, rfl⟩
    · obtain ⟨p, m, hp, hbefore, hd⟩ := ih h
      have hpassed : passed = name ++ (blanks ++ ['(']) := by
        have : c :: cs = name ++ (blanks ++ ['(']) ++ after := by simpa using htext
        simp only [passed]
        rw [this, List.length_append, Nat.add_sub_cancel, List.take_left]
      have hbrace {x : Char} (hx : x ∉ name) (hblank : Unicode.isBlank x = false) (hne : x ≠ '(') :
          x ∉ passed := by
        simp only [hpassed, List.mem_append, List.mem_singleton, not_or]
        exact ⟨hx, fun hm => by simp [hblanks x hm] at hblank, hne⟩
      refine ⟨passed ++ p, m, ?_, by simpa using hbefore, ?_⟩
      · rw [List.append_assoc, ← hp, hpassed]
        simpa using htext
      · rw [List.foldl_append,
          foldl_braceDepth_of_not_mem (hbrace ho rfl (by decide)) (hbrace hc rfl (by decide)), hd]
  | case3 before depth c cs hb hnone ih => exact hstep (ih h)
  | case4 before depth c cs hb ih => exact hstep (ih h)

namespace OffsetScan

/-- The offset of the first of the characters at the end of a text that `p` holds of. -/
theorem getLast?_takeWhile_charIndices (p : Char → Bool) (s : List Char) :
    (((charIndices s).reverse.takeWhile fun x => p x.2).getLast?).map Prod.fst =
      if s.reverse.takeWhile p = [] then none else some (byteCount (s.reverse.dropWhile p)) := by
  induction s using List.reverseRecOn with
  | nil => rfl
  | append_singleton s c ih =>
    have hrev : (charIndices (s ++ [c])).reverse = (byteCount s, c) :: (charIndices s).reverse := by
      simp [charIndices, charIndicesFrom_append, charIndicesFrom]
    rw [hrev, List.reverse_append, List.reverse_singleton, List.singleton_append]
    by_cases hc : p c
    · simp only [List.takeWhile_cons, List.dropWhile_cons, hc, if_true, List.getLast?_cons]
      rw [if_neg (List.cons_ne_nil _ _)]
      by_cases hnil : s.reverse.takeWhile p = []
      · rw [if_pos hnil, Option.map_eq_none_iff] at ih
        have hall : s.reverse.dropWhile p = s.reverse := by
          have := List.takeWhile_append_dropWhile (p := p) (l := s.reverse)
          rwa [hnil, List.nil_append] at this
        simp [ih, hall]
      · rw [if_neg hnil] at ih
        obtain ⟨x, hx, hsize⟩ := Option.map_eq_some_iff.1 ih
        simp [hx, hsize]
    · simp [hc]

/-- A text ends in its last word, which stands after what is left of it. -/
theorem append_lastWord (s : List Char) :
    s = (s.reverse.dropWhile isIdentChar).reverse ++ lastWord s.reverse := by
  rw [lastWord, ← List.reverse_append, List.takeWhile_append_dropWhile, List.reverse_reverse]

theorem lastWord?_eq_ok (s : List Char) :
    lastWord? s = .ok (if lastWord s.reverse = [] then none else some (lastWord s.reverse)) := by
  have h := getLast?_takeWhile_charIndices isIdentChar s
  have hcut : sliceFrom s (byteCount (s.reverse.dropWhile isIdentChar)) =
      .ok (lastWord s.reverse) :=
    sliceFrom_eq_ok (append_lastWord s) (byteCount_reverse _).symm
  unfold lastWord?
  by_cases hnil : s.reverse.takeWhile isIdentChar = []
  · rw [if_pos hnil, Option.map_eq_none_iff] at h
    rw [h, if_pos (by rw [lastWord, hnil, List.reverse_nil])]
  · rw [if_neg hnil] at h
    obtain ⟨x, hx, hsize⟩ := Option.map_eq_some_iff.1 h
    have hword : lastWord s.reverse ≠ [] := by simpa [lastWord] using hnil
    simp only [hx, hsize, hcut, if_neg hword, Except.map]

theorem backBy_eq_ok {n m k : Nat} (h : n = k + m) : backBy n m = .ok k := by
  unfold backBy
  rw [if_pos (by omega), h, Nat.add_sub_cancel]

theorem endsInModifier_eq_ok (s : List Char) :
    endsInModifier s (lastWord s.reverse) = .ok (Java.endsInModifier s.reverse) := by
  have hs := append_lastWord s
  have hsize : byteCount s =
      byteCount (s.reverse.dropWhile isIdentChar) + byteCount (lastWord s.reverse) := by
    rw [← byteCount_reverse (s.reverse.dropWhile isIdentChar), ← byteCount_append, ← hs]
  have hcut : sliceTo s (byteCount (s.reverse.dropWhile isIdentChar)) =
      .ok (s.reverse.dropWhile isIdentChar).reverse := sliceTo_eq_ok hs (byteCount_reverse _).symm
  unfold endsInModifier Java.endsInModifier
  split_ifs with hm
  · rw [hm, Bool.true_or]
  · simp only [Bool.not_eq_true] at hm
    rw [hm, Bool.false_or]
    simp [hasAtSign, backBy_eq_ok hsize, hcut, bind, Except.bind]

theorem reverse_trimEnd (s : List Char) : (trimEnd s).reverse = trimStart s.reverse := by
  rw [trimEnd, List.reverse_reverse, trimStart]

theorem byteCount_trimEnd_le (s : List Char) : byteCount (trimEnd s) ≤ byteCount s := by
  obtain ⟨blanks, h⟩ := List.dropWhile_suffix (l := s.reverse) Unicode.isBlank
  have := congrArg byteCount h
  rw [byteCount_append, byteCount_reverse] at this
  rw [← byteCount_reverse, reverse_trimEnd, trimStart]
  omega

theorem eq_of_closing?_reverse {s inside head : List Char}
    (h : closing? '>' '<' s.reverse = some (inside, head)) :
    s = head.reverse ++ '<' :: inside.reverse := by
  obtain ⟨hs, -⟩ := (closing?_eq_some_iff (by decide)).1 h
  rw [← List.reverse_reverse s, hs]
  simp

/-- The cuts before and between the angle brackets that a text ends in. -/
theorem slices_of_eq {s inside head : List Char} (h : s = head.reverse ++ '<' :: inside.reverse) :
    sliceTo (s ++ ['>']) (byteCount head) = .ok head.reverse ∧
      slice (s ++ ['>']) (byteCount head + 1) (byteCount s) = .ok inside.reverse :=
  ⟨sliceTo_eq_ok (r := '<' :: inside.reverse ++ ['>']) (by simp [h]) (byteCount_reverse _).symm,
    slice_eq_ok (p := head.reverse ++ ['<']) (r := ['>']) (by simp [h]) (by simp; rfl)
      (by simp [h, Nat.add_assoc])⟩

theorem constructorTypeParameters?_eq_ok (before : List Char) (h : byteCount before < 2 ^ 31) :
    constructorTypeParameters? before = .ok (Java.constructorTypeParameters? before.reverse) := by
  unfold constructorTypeParameters? Java.constructorTypeParameters?
  have hle := byteCount_trimEnd_le before
  rw [← reverse_trimEnd]
  set front := trimEnd before with hfront
  rcases List.eq_nil_or_concat front with hnil | ⟨f, c, hf⟩
  · rw [hnil]
    rfl
  · have hlast : front.getLast? = some c := by rw [hf, List.concat_eq_append, List.getLast?_concat]
    have hrev : front.reverse = c :: f.reverse := by simp [hf]
    have hword := lastWord?_eq_ok front
    have hmodifier := endsInModifier_eq_ok front
    rw [hrev] at hword hmodifier ⊢
    simp only [hlast]
    by_cases hfree : c = ';' ∨ c = '\x7b' ∨ c = '\x7d' ∨ c = ')'
    · rw [if_pos hfree, if_pos hfree]
    · rw [if_neg hfree, if_neg hfree]
      by_cases hclose : c = '>'
      · subst hclose
        rw [if_pos rfl, if_pos rfl]
        have hsize : byteCount front = byteCount f + 1 := by
          rw [hf, List.concat_eq_append, byteCount_append]
          rfl
        have hback := backBy_eq_ok hsize
        have hmatch : matchingBackward? front (byteCount f) '<' '>' =
            .ok ((closing? '>' '<' f.reverse).map fun x => byteCount x.2) := by
          rw [hf, List.concat_eq_append]
          exact matchingBackward?_eq f []
        rcases hfound : closing? '>' '<' f.reverse with _ | ⟨inside, head⟩
        · simp [hback, hmatch, hfound, bind, Except.bind]
        · have hfeq := eq_of_closing?_reverse hfound
          obtain ⟨hcut, hinside⟩ := slices_of_eq hfeq
          rw [← List.concat_eq_append, ← hf] at hcut hinside
          have hnames : typeParameterNames inside.reverse =
              .ok (Java.typeParameterNames inside.reverse) := by
            refine typeParameterNames_eq_ok _ ?_
            have := congrArg byteCount hfeq
            simp only [byteCount_append, byteCount_cons, byteCount_reverse] at this ⊢
            omega
          have hheadword := lastWord?_eq_ok (trimEnd head.reverse)
          have hheadmodifier := endsInModifier_eq_ok (trimEnd head.reverse)
          rw [reverse_trimEnd, List.reverse_reverse] at hheadword hheadmodifier
          by_cases hnil : lastWord (trimStart head) = []
          · simp [hback, hmatch, hfound, hcut, hheadword, hnil, hinside, hnames, bind, Except.bind,
              Except.map]
          · by_cases hm : Java.endsInModifier (trimStart head)
            · simp [hback, hmatch, hfound, hcut, hheadword, hnil, hheadmodifier, hm, hinside,
                hnames, bind, Except.bind, Except.map]
            · simp [hback, hmatch, hfound, hcut, hheadword, hnil, hheadmodifier, hm, bind,
                Except.bind]
      · rw [if_neg hclose, if_neg hclose, hword]
        by_cases hnil : lastWord (c :: f.reverse) = []
        · simp [hnil, bind, Except.bind]
        · simp [hnil, hmodifier, bind, Except.bind]

theorem braceDepth_le (depth : Nat) (c : Char) : braceDepth depth c ≤ depth + 1 := by
  unfold braceDepth
  split_ifs <;> omega

theorem braceDepths_eq_ok (depth : Nat) (s : List Char) (h : depth + byteCount s < 2 ^ 32) :
    ∃ depths, braceDepths depth s = .ok depths ∧
      ∀ p c r, s = p ++ c :: r → depths[byteCount p]? = some (p.foldl braceDepth depth) := by
  induction s generalizing depth with
  | nil => exact ⟨[], rfl, by simp⟩
  | cons c s ih =>
    have hpos := c.utf8Size_pos
    have hle := braceDepth_le depth c
    rw [byteCount_cons] at h
    obtain ⟨depths, hd, hentry⟩ := ih (braceDepth depth c) (by omega)
    have hcount : countedNat (braceDepth depth c) = .ok (braceDepth depth c) := by
      unfold countedNat
      rw [if_pos (by omega)]
    refine ⟨List.replicate c.utf8Size depth ++ depths, ?_, ?_⟩
    · simp [braceDepths, hcount, hd, bind, Except.bind]
    · intro p x r hs
      rcases p with _ | ⟨y, p⟩
      · rw [byteCount_nil, List.getElem?_append_left (by simpa using hpos), List.getElem?_replicate,
          if_pos hpos]
        rfl
      · simp only [List.cons_append, List.cons.injEq] at hs
        obtain ⟨rfl, hs⟩ := hs
        have hsub : c.utf8Size + byteCount p - c.utf8Size = byteCount p := by omega
        rw [byteCount_cons, List.getElem?_append_right (by simp), List.length_replicate, hsub]
        exact hentry p x r hs

theorem constructorAt?_eq_ok {name : String} {classParameters : List String}
    {body p m : List Char} {depths : List Nat} {call : NameCall}
    (hbody : body = p ++ (m ++ '(' :: call.after)) (hbefore : call.before = p.reverse)
    (hdepth : depths[byteCount p]? = some call.depth) (h : byteCount body < 2 ^ 31) :
    constructorAt? name classParameters body depths (byteCount call.before)
      (byteCount body - byteCount call.after) = .ok (call.constructor? name classParameters) := by
  have hunit : ('(' : Char).utf8Size = 1 := rfl
  have hsize : byteCount body = byteCount p + byteCount m + 1 + byteCount call.after := by
    rw [hbody]
    simp only [byteCount_append, byteCount_cons, hunit]
    omega
  have hcut : sliceTo body (byteCount p) = .ok p := sliceTo_eq_ok hbody rfl
  have hown := constructorTypeParameters?_eq_ok p (by omega)
  have hback : backBy (byteCount body - byteCount call.after) 1 = .ok (byteCount (p ++ m)) :=
    backBy_eq_ok <| by
      rw [byteCount_append]
      omega
  have hmatch : matchingForward? body (byteCount (p ++ m)) '(' ')' =
      (closing? '(' ')' call.after).map fun x => byteCount (p ++ m) + 1 + byteCount x.1 := by
    rw [hbody, ← List.append_assoc]
    exact matchingForward?_eq (p ++ m) call.after
  have hentry : entryAt depths (byteCount p) = .ok call.depth := by rw [entryAt, hdepth]
  unfold constructorAt? NameCall.constructor?
  rw [hbefore, byteCount_reverse]
  simp only [hentry, hcut, hown, bind, Except.bind]
  split_ifs with hd
  · rfl
  · rcases Java.constructorTypeParameters? p.reverse with _ | own
    · rfl
    · simp only [hback, hmatch]
      rcases hfound : closing? '(' ')' call.after with _ | ⟨inside, after⟩
      · rfl
      · obtain ⟨hafter, -⟩ := (closing?_eq_some_iff (by decide)).1 hfound
        have hunit' : (')' : Char).utf8Size = 1 := rfl
        have hclose : sliceFrom body (byteCount (p ++ m) + 1 + byteCount inside + 1) = .ok after :=
          sliceFrom_eq_ok (p := p ++ (m ++ '(' :: inside ++ [')'])) (by rw [hbody, hafter]; simp)
            (by simp; omega)
        have hinside : slice body (byteCount (p ++ m) + 1)
            (byteCount (p ++ m) + 1 + byteCount inside) = .ok inside :=
          slice_eq_ok (p := p ++ (m ++ ['('])) (r := ')' :: after) (by rw [hbody, hafter]; simp)
            (by simp; omega) (by simp; omega)
        have hsmall := congrArg byteCount hafter
        rw [byteCount_append, byteCount_cons] at hsmall
        have hparams := parameters_eq_ok (classParameters ++ own) inside (by omega)
        simp only [Option.map_some, hclose]
        split_ifs with hstart
        · simp only [hinside, hparams]
        · rfl

theorem constructorsAt_eq_ok {name : String} {classParameters : List String} {body : List Char}
    {depths : List Nat} {calls : List NameCall}
    (h : ∀ call ∈ calls, constructorAt? name classParameters body depths (byteCount call.before)
      (byteCount body - byteCount call.after) = .ok (call.constructor? name classParameters)) :
    constructorsAt name classParameters body depths calls =
      .ok (calls.filterMap (NameCall.constructor? name classParameters)) := by
  induction calls with
  | nil => rfl
  | cons call calls ih =>
    have hcall := h call List.mem_cons_self
    have hcalls := ih fun x hx => h x (List.mem_cons_of_mem _ hx)
    rw [constructorsAt, hcall, hcalls]
    rcases hc : call.constructor? name classParameters with _ | x <;>
      simp [hc, bind, Except.bind]

theorem constructors_eq_ok {name : String} (classParameters : List String) (body : List Char)
    (ho : '\x7b' ∉ name.toList) (hc : '\x7d' ∉ name.toList) (h : byteCount body < 2 ^ 31) :
    constructors name classParameters body = .ok (Java.constructors name classParameters body) := by
  obtain ⟨depths, hdepths, hentry⟩ := braceDepths_eq_ok 0 body (by omega)
  simp only [constructors, hdepths, bind, Except.bind]
  refine constructorsAt_eq_ok fun call hcall => ?_
  obtain ⟨p, m, hbody, hbefore, hdepth⟩ := nameCalls_spec ho hc hcall
  rw [List.append_nil] at hbefore
  refine constructorAt?_eq_ok hbody hbefore ?_ h
  rw [hdepth]
  rcases m with _ | ⟨x, m⟩
  · exact hentry p _ _ hbody
  · exact hentry p x _ hbody

end OffsetScan

end Companion.Java
