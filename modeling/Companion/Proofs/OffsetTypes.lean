import Companion.Java.OffsetScan
import Companion.Proofs.Slices
import Mathlib.Tactic.SplitIfs
import Mathlib.Tactic.Tauto

/-!
# Types and parameters are read at offsets

The searches through the text of a type keep the offset of the character that is next: it is the
size of what was passed (`piecesFrom_eq_ok`, `readTypeFrom_eq_ok`). So the pieces that are cut out
are those of the text, and counters stay in their type as long as the text is shorter than 2³¹
bytes.
-/

namespace Companion.Java.OffsetScan

open Text

variable {text done cur rest : List Char} {depth : Int} {i start : Nat}

theorem counted_eq_ok {n : Int} (h₁ : -2 ^ 31 ≤ n) (h₂ : n < 2 ^ 31) : counted n = .ok n := by
  unfold counted
  rw [if_pos ⟨h₁, h₂⟩]

theorem exists_commaPieces_eq_cons (depth : Int) (text : List Char) :
    ∃ first others, commaPieces depth text = first :: others := by
  induction text generalizing depth with
  | nil => exact ⟨[], [], rfl⟩
  | cons c text ih =>
    have hcons (d : Int) : ∃ first others, consFirst c (commaPieces d text) = first :: others := by
      obtain ⟨first, others, h⟩ := ih d
      exact ⟨c :: first, others, by rw [h, consFirst]⟩
    unfold commaPieces
    split_ifs
    · exact ⟨_, _, rfl⟩
    · exact hcons _
    · exact hcons _
    · exact hcons _

/-- The pieces that are cut out are those between outer commas. -/
theorem piecesFrom_eq_ok (done cur : List Char) (ht : text = done ++ (cur ++ rest))
    (hs : start = byteCount done) (hi : i = byteCount (done ++ cur))
    (hlow : -2 ^ 31 ≤ depth - byteCount rest) (hhigh : depth + byteCount rest < 2 ^ 31)
    {first : List Char} {others : List (List Char)}
    (hp : commaPieces depth rest = first :: others) :
    piecesFrom text depth start (charIndicesFrom i rest) =
      .ok (trim (cur ++ first) :: others.map trim) := by
  induction rest generalizing done cur depth start i first others with
  | nil =>
    simp only [commaPieces, List.cons.injEq] at hp
    obtain ⟨rfl, rfl⟩ := hp
    have hcut : sliceFrom text start = .ok cur := sliceFrom_eq_ok (by simpa using ht) hs
    simp [charIndicesFrom, piecesFrom, hcut, bind, Except.bind]
  | cons c rest ih =>
    have hpos := c.utf8Size_pos
    simp only [byteCount_cons] at hlow hhigh
    have hgo (d : Int) (hd : -1 ≤ d ∧ d ≤ 1)
        (hp : consFirst c (commaPieces (depth + d) rest) = first :: others) :
        piecesFrom text (depth + d) start (charIndicesFrom (i + c.utf8Size) rest) =
          .ok (trim (cur ++ first) :: others.map trim) := by
      obtain ⟨f, os, hf⟩ := exists_commaPieces_eq_cons (depth + d) rest
      simp only [hf, consFirst, List.cons.injEq] at hp
      obtain ⟨rfl, rfl⟩ := hp
      have ht' : text = done ++ ((cur ++ [c]) ++ rest) := by simpa using ht
      have hi' : i + c.utf8Size = byteCount (done ++ (cur ++ [c])) := by
        rw [hi]
        simp only [byteCount_append, byteCount_cons, byteCount_nil]
        omega
      rw [ih done (cur ++ [c]) ht' hs hi' (by omega) (by omega) hf, List.append_assoc,
        List.singleton_append]
    unfold commaPieces at hp
    rw [charIndicesFrom, piecesFrom]
    by_cases hcomma : c = ',' ∧ depth = 0
    · obtain ⟨rfl, rfl⟩ := hcomma
      rw [if_pos ⟨rfl, rfl⟩] at hp
      obtain ⟨f, os, hf⟩ := exists_commaPieces_eq_cons 0 rest
      simp only [hf, List.cons.injEq] at hp
      obtain ⟨rfl, rfl⟩ := hp
      have hcut : slice text start i = .ok cur :=
        slice_eq_ok ht hs (by rw [hi, byteCount_append])
      have ht' : text = (done ++ (cur ++ [','])) ++ ([] ++ rest) := by simpa using ht
      have hsize : i + 1 = byteCount (done ++ (cur ++ [','])) := by
        rw [hi, ← List.append_assoc, byteCount_append (done ++ cur)]
        rfl
      have hsize' : i + 1 = byteCount (done ++ (cur ++ [',']) ++ []) := by rwa [List.append_nil]
      have hnext := ih _ [] ht' hsize hsize' (by omega) (by omega) hf
      have hunit : (',' : Char).utf8Size = 1 := rfl
      simp [hcut, hunit, hnext, bind, Except.bind]
    · rw [if_neg hcomma] at hp
      split_ifs at hp ⊢ with hopen hclose
      · rw [counted_eq_ok (by omega) (by omega)]
        exact hgo 1 (by omega) hp
      · rw [counted_eq_ok (by omega) (by omega)]
        exact hgo (-1) (by omega) hp
      · have := hgo 0 (by omega)
        rw [Int.add_zero] at this
        exact this hp

theorem splitTopLevel_eq_ok (text : List Char) (h : byteCount text < 2 ^ 31) :
    splitTopLevel text = .ok (Java.splitTopLevel text) := by
  obtain ⟨first, others, hp⟩ := exists_commaPieces_eq_cons 0 text
  have hpieces := piecesFrom_eq_ok [] [] rfl rfl rfl (by omega) (by omega) hp
  have : piecesFrom text 0 0 (charIndices text) = .ok ((commaPieces 0 text).map trim) := by
    rw [hp]
    exact hpieces
  simp [splitTopLevel, this, Java.splitTopLevel, bind, Except.bind]

theorem typeParameterNames_eq_ok (text : List Char) (h : byteCount text < 2 ^ 31) :
    typeParameterNames text = .ok (Java.typeParameterNames text) := by
  simp [typeParameterNames, splitTopLevel_eq_ok text h, Java.typeParameterNames, bind, Except.bind]

theorem parameters_eq_ok (scope : List String) (text : List Char) (h : byteCount text < 2 ^ 31) :
    parameters scope text = .ok (Java.parameters scope text) := by
  simp [parameters, splitTopLevel_eq_ok text h, Java.parameters, bind, Except.bind]

theorem readTypeFrom_eq_ok (done : List Char) (ht : text = done ++ rest) (hi : i = byteCount done)
    (hlow : -2 ^ 31 ≤ depth - byteCount rest) (hhigh : depth + byteCount rest < 2 ^ 31) :
    readTypeFrom text depth (charIndicesFrom i rest) =
      .ok (trimEnd (done ++ typeSpan depth rest)) := by
  induction rest generalizing done depth i with
  | nil => simp [charIndicesFrom, readTypeFrom, typeSpan, ht]
  | cons c rest ih =>
    have hpos := c.utf8Size_pos
    simp only [byteCount_cons] at hlow hhigh
    have hgo (d : Int) (hd : -1 ≤ d ∧ d ≤ 1) :
        readTypeFrom text (depth + d) (charIndicesFrom (i + c.utf8Size) rest) =
          .ok (trimEnd (done ++ c :: typeSpan (depth + d) rest)) := by
      have ht' : text = (done ++ [c]) ++ rest := by simpa using ht
      have hi' : i + c.utf8Size = byteCount (done ++ [c]) := by simp [hi]
      rw [ih (done ++ [c]) ht' hi' (by omega) (by omega), List.append_assoc, List.singleton_append]
    have hstay := hgo 0 (by omega)
    rw [Int.add_zero] at hstay
    have hahead : sliceFrom text i = .ok (c :: rest) := sliceFrom_eq_ok ht hi
    have hdone : sliceTo text i = .ok done := sliceTo_eq_ok ht hi
    rw [charIndicesFrom, readTypeFrom, typeSpan]
    by_cases hopen : c = '<'
    · rw [if_pos hopen, if_pos hopen, counted_eq_ok (by omega) (by omega)]
      exact hgo 1 (by omega)
    · rw [if_neg hopen, if_neg hopen]
      by_cases hclose : c = '>'
      · rw [if_pos hclose, if_pos hclose, counted_eq_ok (by omega) (by omega)]
        exact hgo (-1) (by omega)
      · rw [if_neg hclose, if_neg hclose]
        by_cases hpart : depth > 0 ∨ isIdentChar c ∨ c = '.'
        · rw [if_pos hpart, if_pos (by tauto)]
          exact hstay
        · rw [if_neg hpart]
          by_cases hblank : Unicode.isBlank c
          · have htrim : trimStart (c :: rest) = trimStart rest := by
              simp [trimStart, hblank]
            rw [if_pos hblank, hahead]
            by_cases hlt : (trimStart rest).head? = some '<'
            · rw [if_pos (by tauto)]
              simpa [startsWith, htrim, hlt, bind, Except.bind] using hstay
            · rw [if_neg (by tauto)]
              simp [startsWith, htrim, hlt, hdone, bind, Except.bind]
          · rw [if_neg hblank, if_neg (by tauto), hdone]
            simp [bind, Except.bind]

theorem readType_eq_ok (text : List Char) (h : byteCount text < 2 ^ 31) :
    readType text = .ok (Java.readType text) := by
  have hle : byteCount (trimStart text) ≤ byteCount text := by
    obtain ⟨blanks, hb⟩ := List.dropWhile_suffix (l := text) Unicode.isBlank
    have := congrArg byteCount hb
    simp only [byteCount_append] at this
    simp only [trimStart]
    omega
  exact readTypeFrom_eq_ok [] rfl rfl (by omega) (by omega)

theorem suffix_of_afterBlank? {s r : List Char} (h : afterBlank? s = some r) : r <:+ s := by
  unfold afterBlank? at h
  split_ifs at h
  simp only [Option.some.injEq] at h
  rw [← h]
  exact List.dropWhile_suffix _

theorem suffix_of_extendsClause? {s r : List Char} (h : extendsClause? s = some r) : r <:+ s := by
  obtain ⟨t, ht, hr⟩ := Option.bind_eq_some_iff.1 h
  rw [afterPiece?_eq_some_iff.1 ht]
  exact (suffix_of_afterBlank? hr).trans (List.suffix_append _ _)

theorem suffix_of_findExtends? {s r : List Char} (h : findExtends? s = some r) : r <:+ s := by
  unfold findExtends? at h
  generalize (none : Option Char) = before at h
  induction s generalizing before with
  | nil => simp [readFirst?] at h
  | cons c s ih =>
    unfold readFirst? at h
    split_ifs at h
    · rcases Option.or_eq_some_iff.1 h with h | ⟨-, h⟩
      · exact suffix_of_extendsClause? h
      · exact (ih _ h).trans (List.suffix_cons c s)
    · exact (ih _ h).trans (List.suffix_cons c s)

theorem superclass?_eq_ok (typeParameters : List String) (h : byteCount text < 2 ^ 31) :
    superclass? typeParameters text = .ok (Java.superclass? typeParameters text) := by
  unfold superclass? Java.superclass?
  rcases hf : findExtends? text with _ | clause
  · rfl
  · obtain ⟨p, hp⟩ := suffix_of_findExtends? hf
    have hsize : byteCount text = byteCount p + byteCount clause := by rw [← hp, byteCount_append]
    have hcut : sliceFrom text (byteCount text - byteCount clause) = .ok clause :=
      sliceFrom_eq_ok hp.symm (by omega)
    have hread := readType_eq_ok clause (by omega)
    simp only [hcut, hread, bind, Except.bind]
    split_ifs <;> rfl

end Companion.Java.OffsetScan
