import Companion.Java.Bracket
import Companion.Java.OffsetScan
import Companion.Proofs.Slices
import Mathlib.Data.List.Induction
import Mathlib.Tactic.SplitIfs

/-!
# Brackets that match

A bracket closes the one that was opened last, so what is between them is balanced: it closes as
many brackets as it opens, and no start of it closes more. `closingFrom?_eq_some_iff` says that this
is what the search for a closing bracket finds. The searches by offset find the offsets of the same
brackets (`matchingForward?_eq`, `matchingBackward?_eq`).
-/

namespace Companion.Java

open Text

variable {o c : Char} {d d' e : Nat} {s t : List Char}

/-- The text closes `d` more brackets than it opens, and no start of it closes more than that. -/
structure Balanced (o c : Char) (d : Nat) (s : List Char) : Prop where
  settled : s.count c = s.count o + d
  sane : ∀ p, p <+: s → p.count c ≤ p.count o + d

theorem balanced_nil : Balanced o c 0 [] where
  settled := rfl
  sane := by simp

theorem Balanced.append (hs : Balanced o c d s) (ht : Balanced o c e t) :
    Balanced o c (d + e) (s ++ t) where
  settled := by
    have h₁ := hs.settled
    have h₂ := ht.settled
    simp only [List.count_append]
    omega
  sane := by
    intro p hp
    rcases List.prefix_or_prefix_of_prefix hp (List.prefix_append s t) with h | ⟨q, rfl⟩
    · have := hs.sane p h
      omega
    · have h₁ := hs.settled
      have h₂ := ht.sane q ((List.prefix_append_right_inj s).1 hp)
      simp only [List.count_append]
      omega

theorem balanced_cons_open (h : o ≠ c) :
    Balanced o c d (o :: s) ↔ Balanced o c (d + 1) s := by
  constructor
  · intro hb
    refine ⟨?_, fun p hp => ?_⟩
    · have := hb.settled
      simp only [List.count_cons_self, List.count_cons_of_ne h] at this
      omega
    · have := hb.sane (o :: p) (by simpa using hp)
      simp only [List.count_cons_self, List.count_cons_of_ne h] at this
      omega
  · intro hb
    refine ⟨?_, fun p hp => ?_⟩
    · have := hb.settled
      simp only [List.count_cons_self, List.count_cons_of_ne h]
      omega
    · rcases List.prefix_cons_iff.1 hp with rfl | ⟨q, rfl, hq⟩
      · simp
      · have := hb.sane q hq
        simp only [List.count_cons_self, List.count_cons_of_ne h]
        omega

theorem balanced_cons_close (h : o ≠ c) :
    Balanced o c (d + 1) (c :: s) ↔ Balanced o c d s := by
  constructor
  · intro hb
    refine ⟨?_, fun p hp => ?_⟩
    · have := hb.settled
      simp only [List.count_cons_self, List.count_cons_of_ne h.symm] at this
      omega
    · have := hb.sane (c :: p) (by simpa using hp)
      simp only [List.count_cons_self, List.count_cons_of_ne h.symm] at this
      omega
  · intro hb
    refine ⟨?_, fun p hp => ?_⟩
    · have := hb.settled
      simp only [List.count_cons_self, List.count_cons_of_ne h.symm]
      omega
    · rcases List.prefix_cons_iff.1 hp with rfl | ⟨q, rfl, hq⟩
      · simp
      · have := hb.sane q hq
        simp only [List.count_cons_self, List.count_cons_of_ne h.symm]
        omega

theorem not_balanced_cons_close (h : o ≠ c) : ¬Balanced o c 0 (c :: s) := by
  intro hb
  have := hb.sane [c] (by simp)
  simp [h.symm] at this

theorem balanced_cons_of_ne {x : Char} (ho : x ≠ o) (hc : x ≠ c) :
    Balanced o c d (x :: s) ↔ Balanced o c d s := by
  constructor
  · intro hb
    refine ⟨?_, fun p hp => ?_⟩
    · simpa only [List.count_cons_of_ne ho, List.count_cons_of_ne hc] using hb.settled
    · simpa only [List.count_cons_of_ne ho, List.count_cons_of_ne hc] using
        hb.sane (x :: p) (by simpa using hp)
  · intro hb
    refine ⟨?_, fun p hp => ?_⟩
    · simpa only [List.count_cons_of_ne ho, List.count_cons_of_ne hc] using hb.settled
    · rcases List.prefix_cons_iff.1 hp with rfl | ⟨q, rfl, hq⟩
      · simp
      · simpa only [List.count_cons_of_ne ho, List.count_cons_of_ne hc] using hb.sane q hq

theorem balanced_of_not_mem (ho : o ∉ s) (hc : c ∉ s) : Balanced o c 0 s where
  settled := by rw [List.count_eq_zero.2 ho, List.count_eq_zero.2 hc]
  sane := by
    intro p hp
    rw [List.count_eq_zero.2 fun h => hc (hp.subset h)]
    omega

theorem Balanced.reverse (h : Balanced o c 0 s) : Balanced c o 0 s.reverse where
  settled := by
    have := h.settled
    simp only [List.count_reverse]
    omega
  sane := by
    rintro p ⟨q, hq⟩
    have hs : s = q.reverse ++ p.reverse := by
      rw [← List.reverse_append, hq, List.reverse_reverse]
    have hsettled := h.settled
    have hsane := h.sane q.reverse ⟨p.reverse, hs.symm⟩
    rw [hs] at hsettled
    simp only [List.count_append, List.count_reverse] at hsettled hsane
    omega

theorem map_cons_eq_some_iff {x : Char} {found : Option (List Char × List Char)}
    {inside after : List Char} :
    (found.map fun (i, a) => (x :: i, a)) = some (inside, after) ↔
      ∃ i, inside = x :: i ∧ found = some (i, after) := by
  rcases found with _ | ⟨i, a⟩
  · simp
  · simp only [Option.map_some, Option.some.injEq, Prod.mk.injEq]
    constructor
    · rintro ⟨rfl, rfl⟩
      exact ⟨i, rfl, rfl, rfl⟩
    · rintro ⟨_, rfl, rfl, rfl⟩
      exact ⟨rfl, rfl⟩

/-- A search that goes on behind a character finds what it finds there, with the character in
front. -/
theorem map_cons_eq_some_iff_balanced {x : Char} {found : Option (List Char × List Char)}
    {inside after : List Char}
    (hfound : ∀ i, found = some (i, after) ↔ t = i ++ c :: after ∧ Balanced o c d' i)
    (hbalanced : ∀ i, Balanced o c d (x :: i) ↔ Balanced o c d' i)
    (hnil : x = c → ¬Balanced o c d []) :
    (found.map fun (i, a) => (x :: i, a)) = some (inside, after) ↔
      x :: t = inside ++ c :: after ∧ Balanced o c d inside := by
  rw [map_cons_eq_some_iff]
  constructor
  · rintro ⟨i, rfl, hi⟩
    obtain ⟨rfl, hb⟩ := (hfound i).1 hi
    exact ⟨rfl, (hbalanced i).2 hb⟩
  · rintro ⟨heq, hb⟩
    rcases inside with _ | ⟨y, i⟩
    · exact absurd hb (hnil (List.cons.inj heq).1)
    · obtain ⟨rfl, ht⟩ := List.cons.inj heq
      exact ⟨i, rfl, (hfound i).2 ⟨ht, (hbalanced i).1 hb⟩⟩

/-- The search for a closing bracket finds the end of a balanced text. -/
theorem closingFrom?_eq_some_iff (h : o ≠ c) {inside after : List Char} :
    closingFrom? o c d t = some (inside, after) ↔
      t = inside ++ c :: after ∧ Balanced o c d inside := by
  induction t generalizing d inside with
  | nil => simp [closingFrom?]
  | cons x xs ih =>
    unfold closingFrom?
    split_ifs with ho hc
    · subst ho
      exact map_cons_eq_some_iff_balanced (fun _ => ih) (fun _ => balanced_cons_open h)
        fun heq => absurd heq h
    · subst hc
      cases d with
      | zero =>
        simp only [Option.some.injEq, Prod.mk.injEq]
        constructor
        · rintro ⟨rfl, rfl⟩
          exact ⟨rfl, balanced_nil⟩
        · rintro ⟨heq, hb⟩
          rcases inside with _ | ⟨z, i⟩
          · simpa using heq
          · simp only [List.cons_append, List.cons.injEq] at heq
            rw [← heq.1] at hb
            exact absurd hb (not_balanced_cons_close h)
      | succ d =>
        exact map_cons_eq_some_iff_balanced (fun _ => ih) (fun _ => balanced_cons_close h)
          fun _ hb => by simpa using hb.settled
    · exact map_cons_eq_some_iff_balanced (fun _ => ih) (fun _ => balanced_cons_of_ne ho hc)
        fun heq => absurd heq hc

theorem closing?_eq_some_iff (h : o ≠ c) {inside after : List Char} :
    closing? o c t = some (inside, after) ↔ t = inside ++ c :: after ∧ Balanced o c 0 inside :=
  closingFrom?_eq_some_iff h

namespace OffsetScan

theorem matching?_charIndicesFrom (i : Nat) :
    matching? o c (d + 1) (charIndicesFrom i t) =
      (closingFrom? o c d t).map fun x => i + byteCount x.1 := by
  induction t generalizing d i with
  | nil => rfl
  | cons x t ih =>
    simp only [charIndicesFrom, matching?, closingFrom?]
    split_ifs with ho hc
    · rw [ih, Option.map_map]
      rcases closingFrom? o c (d + 1) t with _ | y
      · rfl
      · simp [Nat.add_assoc]
    · cases d with
      | zero => simp
      | succ d =>
        simp only
        rw [ih, Option.map_map]
        rcases closingFrom? o c d t with _ | y
        · rfl
        · simp [Nat.add_assoc]
    · rw [ih, Option.map_map]
      rcases closingFrom? o c d t with _ | y
      · rfl
      · simp [Nat.add_assoc]

/-- The search from an opening bracket on finds the offset of the bracket that closes it. -/
theorem matchingForward?_eq (p t : List Char) :
    matchingForward? (p ++ o :: t) (byteCount p) o c =
      (closing? o c t).map fun x => byteCount p + o.utf8Size + byteCount x.1 := by
  rw [matchingForward?, dropWhile_charIndices, charIndicesFrom, matching?, if_pos rfl, Nat.zero_add,
    matching?_charIndicesFrom]
  rfl

theorem matching?_charIndices_reverse :
    matching? c o (d + 1) (charIndices s).reverse =
      (closingFrom? c o d s.reverse).map fun x => byteCount x.2 := by
  induction s using List.reverseRecOn generalizing d with
  | nil => rfl
  | append_singleton s x ih =>
    have hx : (charIndices (s ++ [x])).reverse = (byteCount s, x) :: (charIndices s).reverse := by
      simp [charIndices, charIndicesFrom_append, charIndicesFrom]
    simp only [hx, List.reverse_append, List.reverse_cons, List.reverse_nil, List.nil_append,
      List.cons_append, matching?, closingFrom?]
    split_ifs with ho hc
    · rw [ih, Option.map_map]
      rfl
    · cases d with
      | zero => simp
      | succ d =>
        simp only
        rw [ih, Option.map_map]
        rfl
    · rw [ih, Option.map_map]
      rfl

/-- The search from a closing bracket back finds the offset of the bracket that opens it. -/
theorem matchingBackward?_eq (p r : List Char) :
    matchingBackward? (p ++ c :: r) (byteCount p) o c =
      .ok ((closing? c o p.reverse).map fun x => byteCount x.2) := by
  have hpos := c.utf8Size_pos
  have hx : (charIndices (p ++ [c])).reverse = (byteCount p, c) :: (charIndices p).reverse := by
    simp [charIndices, charIndicesFrom_append, charIndicesFrom]
  rw [matchingBackward?, if_pos (by simp only [byteCount_append, byteCount_cons]; omega),
    takeWhile_charIndices, hx, matching?, if_pos rfl, Nat.zero_add, matching?_charIndices_reverse]
  rfl

end OffsetScan

end Companion.Java
