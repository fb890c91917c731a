import Companion.Text.Slice
import Mathlib.Tactic.SplitIfs

/-!
# Cutting texts at offsets

A text is cut at the offsets between the parts that it is put together from (`slice_eq_ok_iff`). So
whoever shows that two offsets are the sizes of starts of the text, one a start of the other, has
shown that the cut between them does not fail.
-/

namespace Companion.Text

variable {s p m r : List Char} {c : Char} {i j n : Nat}

@[simp] theorem byteCount_append (s t : List Char) :
    byteCount (s ++ t) = byteCount s + byteCount t := by
  induction s with
  | nil => simp [byteCount]
  | cons c s ih => simp only [List.cons_append, byteCount, ih, Nat.add_assoc]

@[simp] theorem byteCount_nil : byteCount [] = 0 := rfl

@[simp] theorem byteCount_cons (c : Char) (s : List Char) :
    byteCount (c :: s) = c.utf8Size + byteCount s := rfl

@[simp] theorem byteCount_reverse (s : List Char) : byteCount s.reverse = byteCount s := by
  induction s with
  | nil => rfl
  | cons c s ih =>
    simp only [List.reverse_cons, byteCount_append, byteCount_cons, byteCount_nil, ih]
    omega

theorem byteCount_toList (s : String) : byteCount s.toList = s.utf8ByteSize := by
  have h (l : List Char) : byteCount l = (String.ofList l).utf8ByteSize := by
    induction l with
    | nil => rfl
    | cons c l ih =>
      have hcons : String.ofList (c :: l) = String.singleton c ++ String.ofList l := by
        rw [← String.toList_inj]
        simp
      rw [hcons, String.utf8ByteSize_append, String.utf8ByteSize_singleton, byteCount_cons, ih]
  rw [h, String.ofList_toList]

theorem byteCount_le_of_sublist {s t : List Char} (h : s.Sublist t) :
    byteCount s ≤ byteCount t := by
  induction h with
  | slnil => exact Nat.le_refl _
  | cons c _ ih =>
    rw [byteCount_cons]
    omega
  | cons_cons c _ ih =>
    rw [byteCount_cons, byteCount_cons]
    omega

theorem byteCount_eq_zero : byteCount s = 0 ↔ s = [] := by
  cases s with
  | nil => simp
  | cons c s =>
    have := c.utf8Size_pos
    simp only [byteCount_cons, reduceCtorEq, iff_false]
    omega

theorem splitAtByte?_zero (s : List Char) : splitAtByte? 0 s = some ([], s) := by
  cases s <;> rfl

theorem splitAtByte?_eq_some_iff :
    splitAtByte? n s = some (p, r) ↔ s = p ++ r ∧ byteCount p = n := by
  induction s generalizing n p with
  | nil =>
    cases n with
    | zero =>
      simp only [splitAtByte?_zero, Option.some.injEq, Prod.mk.injEq, List.nil_eq,
        List.append_eq_nil_iff]
      constructor
      · rintro ⟨rfl, rfl⟩
        exact ⟨⟨rfl, rfl⟩, rfl⟩
      · rintro ⟨⟨rfl, rfl⟩, -⟩
        exact ⟨rfl, rfl⟩
    | succ n =>
      simp only [splitAtByte?, reduceCtorEq, List.nil_eq, List.append_eq_nil_iff, false_iff]
      rintro ⟨⟨rfl, -⟩, h⟩
      simp at h
  | cons c s ih =>
    cases n with
    | zero =>
      simp only [splitAtByte?_zero, Option.some.injEq, Prod.mk.injEq, byteCount_eq_zero]
      constructor
      · rintro ⟨rfl, rfl⟩
        exact ⟨rfl, rfl⟩
      · rintro ⟨h, rfl⟩
        exact ⟨rfl, h⟩
    | succ n =>
      have hpos := c.utf8Size_pos
      unfold splitAtByte?
      constructor
      · intro h
        split_ifs at h with hc
        obtain ⟨⟨q, r'⟩, hq, heq⟩ := Option.map_eq_some_iff.1 h
        simp only [Prod.mk.injEq] at heq
        obtain ⟨rfl, rfl⟩ := heq
        obtain ⟨rfl, hn⟩ := ih.1 hq
        refine ⟨rfl, ?_⟩
        simp only [byteCount_cons]
        omega
      · rintro ⟨h, hn⟩
        rcases List.cons_eq_append_iff.1 h with ⟨rfl, -⟩ | ⟨q, rfl, rfl⟩
        · simp at hn
        · simp only [byteCount_cons] at hn
          rw [if_pos (by omega), ih.2 ⟨rfl, by omega⟩]
          rfl

/-- Cutting succeeds exactly at offsets between parts of the text. -/
theorem slice_eq_ok_iff :
    slice s i j = .ok m ↔
      ∃ p r, s = p ++ (m ++ r) ∧ byteCount p = i ∧ byteCount p + byteCount m = j := by
  unfold slice
  constructor
  · intro h
    split_ifs at h with hij
    rcases hp : splitAtByte? i s with _ | ⟨p, after⟩
    · simp [hp] at h
    · rcases hm : splitAtByte? (j - i) after with _ | ⟨m', r⟩
      · simp [hp, hm] at h
      · simp only [hp, hm, Except.ok.injEq] at h
        obtain ⟨rfl, hi⟩ := splitAtByte?_eq_some_iff.1 hp
        obtain ⟨rfl, hj⟩ := splitAtByte?_eq_some_iff.1 hm
        exact ⟨p, r, by rw [h], hi, by rw [← h]; omega⟩
  · rintro ⟨p, r, rfl, rfl, rfl⟩
    have hp : splitAtByte? (byteCount p) (p ++ (m ++ r)) = some (p, m ++ r) :=
      splitAtByte?_eq_some_iff.2 ⟨rfl, rfl⟩
    have hm : splitAtByte? (byteCount p + byteCount m - byteCount p) (m ++ r) = some (m, r) :=
      splitAtByte?_eq_some_iff.2 ⟨rfl, by omega⟩
    simp only [hp, hm, Nat.le_add_right, if_true]

theorem slice_eq_ok (h : s = p ++ (m ++ r)) (hi : i = byteCount p)
    (hj : j = byteCount p + byteCount m) : slice s i j = .ok m :=
  slice_eq_ok_iff.2 ⟨p, r, h, hi.symm, hj.symm⟩

theorem sliceFrom_eq_ok (h : s = p ++ r) (hi : i = byteCount p) : sliceFrom s i = .ok r :=
  slice_eq_ok (r := []) (by rw [List.append_nil, h]) hi (by rw [h, byteCount_append])

theorem sliceTo_eq_ok (h : s = p ++ r) (hj : j = byteCount p) : sliceTo s j = .ok p :=
  slice_eq_ok (p := []) h rfl (by rw [hj, byteCount_nil, Nat.zero_add])

theorem slice_eq_error (h : j < i) : slice s i j = .error (.slice i j) := by
  unfold slice
  rw [if_neg (by omega)]

theorem charIndicesFrom_append (i : Nat) (p r : List Char) :
    charIndicesFrom i (p ++ r) = charIndicesFrom i p ++ charIndicesFrom (i + byteCount p) r := by
  induction p generalizing i with
  | nil => rfl
  | cons c p ih => simp only [List.cons_append, charIndicesFrom, ih, byteCount_cons, Nat.add_assoc]

theorem fst_lt_of_mem_charIndicesFrom {i : Nat} {x : Nat × Char} (h : x ∈ charIndicesFrom i s) :
    i ≤ x.1 ∧ x.1 < i + byteCount s := by
  induction s generalizing i with
  | nil => simp [charIndicesFrom] at h
  | cons c s ih =>
    have := c.utf8Size_pos
    rcases List.mem_cons.1 h with rfl | h
    · simp only [byteCount_cons]
      omega
    · have := ih h
      simp only [byteCount_cons]
      omega

/-- The characters from the offset between two parts of a text on. -/
theorem dropWhile_charIndices (p r : List Char) :
    (charIndices (p ++ r)).dropWhile (·.1 < byteCount p) = charIndicesFrom (byteCount p) r := by
  rw [charIndices, charIndicesFrom_append, Nat.zero_add,
    List.dropWhile_append_of_pos fun x hx => ?_]
  · cases r with
    | nil => rfl
    | cons c r => simp [charIndicesFrom]
  · have := (fst_lt_of_mem_charIndicesFrom hx).2
    simpa using this

/-- The characters up to the one at the offset between two parts of a text. -/
theorem takeWhile_charIndices (p : List Char) (c : Char) (r : List Char) :
    (charIndices (p ++ c :: r)).takeWhile (·.1 ≤ byteCount p) = charIndices (p ++ [c]) := by
  have hpos := c.utf8Size_pos
  rw [charIndices, charIndicesFrom_append, charIndices, charIndicesFrom_append, Nat.zero_add,
    List.takeWhile_append_of_pos fun x hx => ?_]
  · cases r with
    | nil => simp [charIndicesFrom]
    | cons c' r =>
      have : ¬byteCount p + c.utf8Size ≤ byteCount p := by omega
      simp [charIndicesFrom, this]
  · have := (fst_lt_of_mem_charIndicesFrom hx).2
    simp only [decide_eq_true_eq]
    omega

theorem firstAt?_startsWith (h : c ∉ p) :
    firstAt? (startsWith c) (p ++ c :: r) = some (byteCount p) := by
  induction p with
  | nil => simp [firstAt?, startsWith]
  | cons x p ih =>
    simp only [List.mem_cons, not_or] at h
    have hx : startsWith c (x :: (p ++ c :: r)) = false := by
      simpa [startsWith] using fun he => h.1 he.symm
    simp [firstAt?, hx, ih h.2]

theorem firstAt?_startsWith_of_not_mem (h : c ∉ s) : firstAt? (startsWith c) s = none := by
  induction s with
  | nil => rfl
  | cons x s ih =>
    simp only [List.mem_cons, not_or] at h
    have hx : startsWith c (x :: s) = false := by simpa [startsWith] using fun he => h.1 he.symm
    simp [firstAt?, hx, ih h.2]

/-- The last character that `q` holds of stands at the offset of what comes before it. -/
theorem lastAt?_of_head {f : List Char → Bool} {q : Char → Bool} (hf : ∀ c s, f (c :: s) = q c)
    (s : List Char) :
    lastAt? f s = match s.reverse.dropWhile (!q ·) with
      | [] => none
      | _ :: before => some (byteCount before) := by
  induction s with
  | nil => rfl
  | cons c s ih =>
    rw [lastAt?, ih, List.reverse_cons, List.dropWhile_append]
    rcases s.reverse.dropWhile (!q ·) with _ | ⟨x, before⟩
    · by_cases hq : q c
      · simp [hf, hq]
      · simp [hf, hq]
    · simp [Nat.add_comm]

theorem isPrefixOf_eq_false_of_afterPiece? {piece s : List Char} (h : afterPiece? piece s = none) :
    piece.isPrefixOf s = false := by
  rw [Bool.eq_false_iff]
  intro hp
  obtain ⟨t, rfl⟩ := List.isPrefixOf_iff_prefix.1 hp
  rw [afterPiece?_eq_some_iff.2 rfl] at h
  simp at h

theorem lastAt?_isPrefixOf_of_none {piece s : List Char} (h : fromLast? piece s = none) :
    lastAt? piece.isPrefixOf s = none := by
  induction s with
  | nil => rfl
  | cons c s ih =>
    rw [fromLast?] at h
    rw [lastAt?]
    split at h
    · simp at h
    · rename_i hs
      split_ifs at h with hp
      rw [ih hs]
      simp [hp]

/-- The last copy of a piece stands at the offset of what comes before it. -/
theorem lastAt?_isPrefixOf_of_some {piece s t : List Char} (hne : piece ≠ [])
    (h : fromLast? piece s = some t) :
    ∃ a, s = a ++ t ∧ lastAt? piece.isPrefixOf s = some (byteCount a) := by
  induction s with
  | nil => simp [fromLast?, hne] at h
  | cons c s ih =>
    rw [fromLast?] at h
    rw [lastAt?]
    split at h
    · rename_i rest hs
      simp only [Option.some.injEq] at h
      rw [h] at hs
      obtain ⟨a, hsa, hlast⟩ := ih hs
      exact ⟨c :: a, by rw [hsa]; rfl, by rw [hlast]; rfl⟩
    · rename_i hs
      split_ifs at h with hp
      simp only [Option.some.injEq] at h
      exact ⟨[], h, by rw [lastAt?_isPrefixOf_of_none hs]; simp [hp]⟩

theorem firstAt?_isPrefixOf_of_none {piece s : List Char} (h : breakOn? piece s = none) :
    firstAt? piece.isPrefixOf s = none := by
  induction s with
  | nil => rfl
  | cons c s ih =>
    rw [breakOn?] at h
    rw [firstAt?]
    split at h
    · simp at h
    · rename_i hs
      rw [isPrefixOf_eq_false_of_afterPiece? hs, ih (Option.map_eq_none_iff.1 h)]
      rfl

/-- The first copy of a piece stands at the offset of what comes before it. -/
theorem firstAt?_isPrefixOf_of_some {piece s a r : List Char} (hne : piece ≠ [])
    (h : breakOn? piece s = some (a, r)) :
    s = a ++ (piece ++ r) ∧ firstAt? piece.isPrefixOf s = some (byteCount a) := by
  induction s generalizing a with
  | nil => simp [breakOn?, hne] at h
  | cons c s ih =>
    rw [breakOn?] at h
    rw [firstAt?]
    split at h
    · rename_i rest hs
      simp only [Option.some.injEq, Prod.mk.injEq] at h
      obtain ⟨rfl, rfl⟩ := h
      have hs := afterPiece?_eq_some_iff.1 hs
      have hp : piece.isPrefixOf (c :: s) :=
        List.isPrefixOf_iff_prefix.2 (by rw [hs]; exact List.prefix_append _ _)
      exact ⟨hs, by rw [hp]; rfl⟩
    · rename_i hs
      obtain ⟨⟨a', r'⟩, hb, heq⟩ := Option.map_eq_some_iff.1 h
      simp only [Prod.mk.injEq] at heq
      obtain ⟨rfl, rfl⟩ := heq
      obtain ⟨hsa, hfirst⟩ := ih hb
      refine ⟨by rw [List.cons_append, ← hsa], ?_⟩
      rw [isPrefixOf_eq_false_of_afterPiece? hs, hfirst]
      rfl

end Companion.Text
