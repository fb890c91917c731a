import Companion.Proofs.JsonGrammar
import Mathlib.Tactic.SplitIfs

/-!
# What comes before an item

Readers pass over white space (`dropSpace_gap`). The next item of a list and the next key of an
object come after what may open one, and only after that (`nextItem?_eq_some`, `nextItem?_opens`,
`nextKey?_eq_some`, `nextKey?_opens`).
-/

namespace Companion.Json

variable {first : Bool} {s rest gap : List Char}

theorem dropSpace_gap (h : IsGap gap) (s : List Char) : dropSpace (gap ++ s) = dropSpace s := by
  unfold dropSpace
  rw [List.dropWhile_append_of_pos (List.all_eq_true.1 h)]

theorem dropSpace_cons {c : Char} (h : isSpace c = false) (s : List Char) :
    dropSpace (c :: s) = c :: s := by
  simp [dropSpace, h]

theorem dropSpace_gap_cons (h : IsGap gap) {c : Char} (hc : isSpace c = false) (s : List Char) :
    dropSpace (gap ++ c :: s) = c :: s := by
  rw [dropSpace_gap h, dropSpace_cons hc]

theorem IsGap.nil : IsGap [] := rfl

theorem IsGap.append {more : List Char} (h : IsGap gap) (hmore : IsGap more) :
    IsGap (gap ++ more) := by
  unfold IsGap
  rw [List.all_append, Bool.and_eq_true]
  exact ⟨h, hmore⟩

theorem exists_gap_dropSpace (s : List Char) : ∃ gap, s = gap ++ dropSpace s ∧ IsGap gap :=
  ⟨s.takeWhile isSpace, List.takeWhile_append_dropWhile.symm, by simp [IsGap]⟩

theorem dropSpace_dropSpace (s : List Char) : dropSpace (dropSpace s) = dropSpace s := by
  obtain ⟨gap, hs, hgap⟩ := exists_gap_dropSpace s
  rw [← dropSpace_gap hgap (dropSpace s), ← hs]

theorem Opens.append (h : Opens first s) (hgap : IsGap gap) : Opens first (s ++ gap) := by
  cases first with
  | true => exact IsGap.append h hgap
  | false =>
    obtain ⟨before, after, rfl, hbefore, hafter⟩ := h
    exact ⟨before, after ++ gap, by simp, hbefore, hafter.append hgap⟩

theorem nextItem?_eq_none (h : nextItem? first s = .ok none) :
    ∃ rest, dropSpace s = ']' :: rest := by
  unfold nextItem? at h
  split at h
  · simp at h
  · rename_i rest heq
    exact ⟨rest, heq⟩
  · split_ifs at h
    · simp at h
    · split at h <;> simp at h

theorem nextItem?_eq_some (h : nextItem? first s = .ok (some rest)) :
    ∃ before, s = before ++ rest ∧ Opens first before := by
  obtain ⟨gap, hs, hgap⟩ := exists_gap_dropSpace s
  unfold nextItem? at h
  split at h
  · simp at h
  · simp at h
  · rename_i c u _ heq
    split_ifs at h with hfirst hcomma
    · obtain rfl := Option.some.inj (Except.ok.inj h)
      rw [heq] at hs
      exact ⟨gap, hs, by rw [hfirst]; exact hgap⟩
    · obtain ⟨gap', hu, hgap'⟩ := exists_gap_dropSpace u
      split at h
      · simp at h
      · simp at h
      · obtain rfl := Option.some.inj (Except.ok.inj h)
        rw [heq, hcomma, hu] at hs
        refine ⟨gap ++ ',' :: gap', by simpa using hs, ?_⟩
        rw [Bool.of_not_eq_true hfirst]
        exact ⟨gap, gap', rfl, hgap, hgap'⟩

theorem nextItem?_gap_close (hgap : IsGap gap) (rest : List Char) :
    nextItem? first (gap ++ ']' :: rest) = .ok none := by
  rw [nextItem?, dropSpace_gap_cons hgap rfl]
  rfl

/-- Whatever starts neither with white space nor with a closing bracket is an item. -/
theorem nextItem?_opens (h : Opens first s) {c : Char} (hspace : isSpace c = false)
    (hclose : c ≠ ']') (rest : List Char) :
    nextItem? first (s ++ c :: rest) = .ok (some (c :: rest)) := by
  cases first with
  | true =>
    rw [nextItem?, dropSpace_gap_cons h hspace]
    simp
  | false =>
    obtain ⟨before, after, rfl, hbefore, hafter⟩ := h
    rw [nextItem?, List.append_assoc, List.cons_append, dropSpace_gap_cons hbefore rfl]
    split
    · rename_i heq
      exact absurd heq (List.cons_ne_nil _ _)
    · rename_i heq
      exact absurd (List.cons.inj heq).1 (by decide)
    · rename_i heq
      obtain ⟨rfl, rfl⟩ := List.cons.inj heq
      rw [if_neg Bool.false_ne_true, if_pos rfl, dropSpace_gap_cons hafter hspace]
      split
      · rename_i heq
        exact absurd heq (List.cons_ne_nil _ _)
      · rename_i heq
        exact absurd (List.cons.inj heq).1 hclose
      · rfl

theorem nextKey?_eq_none (h : nextKey? first s = .ok none) :
    ∃ rest, dropSpace s = '\x7d' :: rest := by
  unfold nextKey? at h
  dsimp only at h
  split at h
  · simp at h
  · rename_i rest heq
    exact ⟨rest, heq⟩
  · split_ifs at h
    · split at h <;> simp at h
    · split at h <;> simp at h

theorem nextKey?_eq_some (h : nextKey? first s = .ok (some rest)) :
    ∃ before, s = before ++ '"' :: rest ∧ Opens first before := by
  obtain ⟨gap, hs, hgap⟩ := exists_gap_dropSpace s
  unfold nextKey? at h
  dsimp only at h
  split at h
  · simp at h
  · simp at h
  · rename_i c u _ heq
    split_ifs at h with hfirst hcomma
    · split at h
      · simp at h
      · rename_i rest' hquote
        obtain rfl := Option.some.inj (Except.ok.inj h)
        rw [heq, hquote] at hs
        exact ⟨gap, hs, by rw [hfirst]; exact hgap⟩
      · simp at h
      · simp at h
    · obtain ⟨gap', hu, hgap'⟩ := exists_gap_dropSpace u
      split at h
      · simp at h
      · rename_i rest' hquote
        obtain rfl := Option.some.inj (Except.ok.inj h)
        rw [heq, hcomma, hu, hquote] at hs
        refine ⟨gap ++ ',' :: gap', by simpa using hs, ?_⟩
        rw [Bool.of_not_eq_true hfirst]
        exact ⟨gap, gap', rfl, hgap, hgap'⟩
      · simp at h
      · simp at h

theorem nextKey?_gap_close (hgap : IsGap gap) (rest : List Char) :
    nextKey? first (gap ++ '\x7d' :: rest) = .ok none := by
  rw [nextKey?, dropSpace_gap_cons hgap rfl]
  rfl

theorem nextKey?_opens (h : Opens first s) (rest : List Char) :
    nextKey? first (s ++ '"' :: rest) = .ok (some rest) := by
  cases first with
  | true =>
    rw [nextKey?, dropSpace_gap_cons h rfl]
    rfl
  | false =>
    obtain ⟨before, after, rfl, hbefore, hafter⟩ := h
    have hdrop : dropSpace (after ++ '"' :: rest) = '"' :: rest := dropSpace_gap_cons hafter rfl _
    rw [nextKey?, List.append_assoc, List.cons_append, dropSpace_gap_cons hbefore rfl]
    simp [hdrop]

theorem expectColon_eq_ok_iff :
    expectColon s = .ok rest ↔ ∃ gap, s = gap ++ ':' :: rest ∧ IsGap gap := by
  constructor
  · intro h
    obtain ⟨gap, hs, hgap⟩ := exists_gap_dropSpace s
    unfold expectColon at h
    split at h
    · simp at h
    · rename_i heq
      obtain rfl := Except.ok.inj h
      exact ⟨gap, by rw [hs, heq], hgap⟩
    · simp at h
  · rintro ⟨gap, rfl, hgap⟩
    rw [expectColon, dropSpace_gap_cons hgap rfl]
    rfl

end Companion.Json
