import Companion.Proofs.TypeSpacing
import Mathlib.Logic.Relation

/-!
# Texts of one normal layout

White space does not count before brackets and commas, behind opening brackets and commas, next to
other white space and at the ends of a text (`Respaces`). The normal layout stays when such white
space is put in (`normalizeType_of_respaces`), and it can be reached by putting such white space in
and taking it out (`eqvGen_normalizeType`). So texts have one normal layout exactly if each is got
from the other like that, and the normal layout is its own.
-/

namespace Companion.Java

open Unicode (isBlank)
open Relation (EqvGen)

/-- The second text is the first one with white space put in where it does not count. -/
inductive Respaces : List Char → List Char → Prop where
  | before {c : Char} {gap : List Char} (p : List Char) (hc : closesUp c)
    (hgap : ∀ x ∈ gap, isBlank x) (r : List Char) : Respaces (p ++ c :: r) (p ++ (gap ++ c :: r))
  | behind {c : Char} {gap : List Char} (p : List Char) (hc : opensUp c)
    (hgap : ∀ x ∈ gap, isBlank x) (r : List Char) : Respaces (p ++ c :: r) (p ++ c :: (gap ++ r))
  /-- White space gets longer. -/
  | beside {c : Char} {gap more : List Char} (p : List Char) (hc : isBlank c)
    (hgap : ∀ x ∈ gap, isBlank x) (hmore : ∀ x ∈ more, isBlank x) (r : List Char) :
    Respaces (p ++ c :: r) (p ++ (gap ++ c :: (more ++ r)))
  | around {gap more : List Char} (hgap : ∀ x ∈ gap, isBlank x) (hmore : ∀ x ∈ more, isBlank x)
    (s : List Char) : Respaces s (gap ++ (s ++ more))

variable {s t gap : List Char} {c d : Char}

theorem isBlank_of_closesUp (h : closesUp c) : isBlank c = false := by
  rw [closesUp, List.contains_iff_mem] at h
  revert c
  decide

theorem closesUp_of_opensUp (h : opensUp c) : closesUp c := by
  rw [opensUp, List.contains_iff_mem] at h
  revert c
  decide

theorem spacedFrom_cons_of_closesUp (hd : closesUp d) (c : Char) (blank : Bool) (s : List Char) :
    spacedFrom c blank (d :: s) = d :: spacedFrom d false s := by
  rw [spacedFrom, if_neg (by simp [isBlank_of_closesUp hd]), spacing, if_pos hd, List.nil_append]

/-- Whether white space stands behind an opening bracket or a comma does not count. -/
theorem spacedFrom_of_opensUp (hc : opensUp c) (blank blank' : Bool) (s : List Char) :
    spacedFrom c blank s = spacedFrom c blank' s := by
  have hspacing (d : Char) : spacing c blank d = spacing c blank' d := by simp [spacing, hc]
  rcases s with _ | ⟨d, s⟩
  · rfl
  · rw [spacedFrom, spacedFrom, hspacing]

/-- A text is laid out as it would be behind an opening bracket. -/
theorem normalizeType_eq_spacedFrom (blank : Bool) (s : List Char) :
    normalizeType s = spacedFrom '<' blank s := by
  induction s generalizing blank with
  | nil => rfl
  | cons c s ih =>
    rw [spacedFrom]
    split_ifs with hc
    · rw [normalizeType, words_cons_of_blank hc]
      exact ih true
    · have hspacing : spacing '<' blank c = [] := by simp [spacing, opensUp]
      rw [normalizeType_cons (by simpa using hc), hspacing, List.nil_append]

/-- What is laid out alike behind every character is laid out alike behind every text. -/
theorem spacedFrom_append_congr (h : ∀ c blank, spacedFrom c blank s = spacedFrom c blank t)
    (p : List Char) (c : Char) (blank : Bool) :
    spacedFrom c blank (p ++ s) = spacedFrom c blank (p ++ t) := by
  induction p generalizing c blank with
  | nil => exact h c blank
  | cons d p ih => rw [List.cons_append, List.cons_append, spacedFrom, spacedFrom, ih, ih]

theorem normalizeType_append_congr (h : ∀ c blank, spacedFrom c blank s = spacedFrom c blank t)
    (p : List Char) : normalizeType (p ++ s) = normalizeType (p ++ t) := by
  rw [normalizeType_eq_spacedFrom false, normalizeType_eq_spacedFrom false]
  exact spacedFrom_append_congr h p '<' false

theorem normalizeType_of_respaces (h : Respaces s t) : normalizeType s = normalizeType t := by
  cases h with
  | before p hc hgap r =>
    refine normalizeType_append_congr (fun d blank => ?_) p
    rw [spacedFrom_append_of_blank hgap, spacedFrom_cons_of_closesUp hc,
      spacedFrom_cons_of_closesUp hc]
  | @behind c _ p hc hgap r =>
    refine normalizeType_append_congr (fun d blank => ?_) p
    have hclose := closesUp_of_opensUp hc
    rw [spacedFrom_cons_of_closesUp hclose, spacedFrom_cons_of_closesUp hclose,
      spacedFrom_append_of_blank hgap]
    exact congrArg (c :: ·) (spacedFrom_of_opensUp hc _ _ r)
  | beside p hc hgap hmore r =>
    refine normalizeType_append_congr (fun d blank => ?_) p
    rw [spacedFrom_append_of_blank hgap, spacedFrom, if_pos hc, spacedFrom, if_pos hc,
      spacedFrom_append_of_blank hmore, Bool.true_or]
  | @around gap more hgap hmore s =>
    have hend (c : Char) (blank : Bool) : spacedFrom c blank [] = spacedFrom c blank more := by
      simpa [spacedFrom] using (spacedFrom_append_of_blank hmore c blank []).symm
    have hstart : normalizeType (gap ++ (s ++ more)) = normalizeType (s ++ more) := by
      rw [normalizeType_eq_spacedFrom false, spacedFrom_append_of_blank hgap,
        ← normalizeType_eq_spacedFrom]
    rw [hstart, ← normalizeType_append_congr hend s, List.append_nil]

theorem normalizeType_of_eqvGen (h : EqvGen Respaces s t) : normalizeType s = normalizeType t := by
  induction h with
  | rel _ _ h => exact normalizeType_of_respaces h
  | refl _ => rfl
  | symm _ _ _ ih => exact ih.symm
  | trans _ _ _ _ _ ih₁ ih₂ => exact ih₁.trans ih₂

/-- White space can be exchanged for a space. -/
theorem eqvGen_gap (hgap : ∀ x ∈ gap, isBlank x) (hne : gap ≠ []) (p r : List Char) :
    EqvGen Respaces (p ++ (gap ++ r)) (p ++ ' ' :: r) := by
  have hspace : isBlank ' ' := by decide
  have hnone : ∀ x ∈ [], isBlank x := List.forall_mem_nil _
  obtain ⟨x, more, rfl⟩ := List.exists_cons_of_ne_nil hne
  obtain ⟨hx, hmore⟩ := List.forall_mem_cons.1 hgap
  have hshort : Respaces (p ++ x :: r) (p ++ x :: (more ++ r)) := .beside p hx hnone hmore r
  have hspaced : Respaces (p ++ x :: r) (p ++ ' ' :: x :: r) :=
    .beside p hx (List.forall_mem_singleton.2 hspace) hnone r
  have hblank : Respaces (p ++ ' ' :: r) (p ++ ' ' :: x :: r) :=
    .beside p hspace hnone (List.forall_mem_singleton.2 hx) r
  exact ((EqvGen.rel _ _ hshort).symm.trans _ _ _ (.rel _ _ hspaced)).trans _ _ _
    (EqvGen.rel _ _ hblank).symm

/-- The white space between two characters can be exchanged for that of the normal layout. -/
theorem eqvGen_spacing (hgap : ∀ x ∈ gap, isBlank x) (p : List Char) (c d : Char) (r : List Char) :
    EqvGen Respaces (p ++ c :: (gap ++ d :: r))
      (p ++ c :: (spacing c (!gap.isEmpty) d ++ d :: r)) := by
  have hbehind (hc : opensUp c) {gap : List Char} (hgap : ∀ x ∈ gap, isBlank x) :
      EqvGen Respaces (p ++ c :: d :: r) (p ++ c :: (gap ++ d :: r)) :=
    .rel _ _ (.behind p hc hgap _)
  unfold spacing
  split_ifs with hd hc hkept
  · have hbefore := Respaces.before (p ++ [c]) hd hgap r
    simp only [List.append_assoc, List.singleton_append] at hbefore
    exact (EqvGen.rel _ _ hbefore).symm
  · have hopen : opensUp c := by rw [hc]; decide
    exact (hbehind hopen hgap).symm.trans _ _ _ (hbehind hopen (by decide))
  · have hne : gap ≠ [] := by
      rintro rfl
      simp at hkept
    simpa using eqvGen_gap hgap hne (p ++ [c]) (d :: r)
  · by_cases hopen : opensUp c
    · exact (hbehind hopen hgap).symm
    · obtain rfl : gap = [] := by simpa [hopen] using hkept
      exact .refl _

/-- The induction takes the white space that stands behind `c` along. -/
theorem eqvGen_spacedFrom (hgap : ∀ x ∈ gap, isBlank x) (p : List Char) (c : Char)
    (s : List Char) :
    EqvGen Respaces (p ++ c :: (gap ++ s)) (p ++ c :: spacedFrom c (!gap.isEmpty) s) := by
  induction s generalizing p c gap with
  | nil =>
    rw [spacedFrom, List.append_nil]
    split_ifs with hc
    · have hopen : opensUp c := by rw [hc]; decide
      have hbehind {gap : List Char} (hgap : ∀ x ∈ gap, isBlank x) :
          EqvGen Respaces (p ++ [c]) (p ++ c :: gap) := by
        have := Respaces.behind p hopen hgap []
        rw [List.append_nil] at this
        exact .rel _ _ this
      exact (hbehind hgap).symm.trans _ _ _ (hbehind (by decide))
    · have haround := Respaces.around (List.forall_mem_nil _) hgap (p ++ [c])
      simp only [List.nil_append, List.append_assoc, List.singleton_append] at haround
      exact (EqvGen.rel _ _ haround).symm
  | cons d s ih =>
    rw [spacedFrom]
    split_ifs with hd
    · have hlonger : ∀ x ∈ gap ++ [d], isBlank x := by
        simp only [List.mem_append, List.mem_singleton]
        rintro x (hx | rfl)
        · exact hgap x hx
        · exact hd
      have hne : (gap ++ [d]).isEmpty = false := by rw [List.isEmpty_eq_false_iff]; simp
      have hrest := ih hlonger p c
      rwa [hne, List.append_assoc] at hrest
    · have hrest := ih (List.forall_mem_nil _) (p ++ c :: spacing c (!gap.isEmpty) d) d
      simp only [List.append_assoc, List.cons_append, List.nil_append] at hrest
      exact (eqvGen_spacing hgap p c d s).trans _ _ _ hrest

theorem eqvGen_normalizeType (s : List Char) : EqvGen Respaces s (normalizeType s) := by
  induction s with
  | nil => exact .refl _
  | cons c s ih =>
    by_cases hc : isBlank c
    · have haround : Respaces s (c :: s) := by
        simpa using Respaces.around (List.forall_mem_singleton.2 hc) (List.forall_mem_nil _) s
      rw [normalizeType, words_cons_of_blank hc]
      exact (EqvGen.rel _ _ haround).symm.trans _ _ _ ih
    · rw [normalizeType_cons (by simpa using hc)]
      exact eqvGen_spacedFrom (List.forall_mem_nil _) [] c s

/-- The normal layout of a text is its own normal layout, has the characters of the text that are no
white space, and belongs to just those texts that are got from it by putting white space in and
taking it out where it does not count. -/
theorem normalizeType_normalForm (s : List Char) :
    normalizeType (normalizeType s) = normalizeType s ∧
    (normalizeType s).filter (!isBlank ·) = s.filter (!isBlank ·) ∧
    ∀ t, normalizeType s = normalizeType t ↔ EqvGen Respaces s t := by
  refine ⟨?_, filter_normalizeType s, fun t => ⟨fun h => ?_, normalizeType_of_eqvGen⟩⟩
  · exact (normalizeType_of_eqvGen (eqvGen_normalizeType s)).symm
  · have ht := (eqvGen_normalizeType t).symm
    rw [← h] at ht
    exact (eqvGen_normalizeType s).trans _ _ _ ht

/-- A comma keeps its space at the end, but not before a bracket. -/
example : normalizeType "a ,\t > b ,".toList = "a,> b, ".toList := by decide

end Companion.Java
