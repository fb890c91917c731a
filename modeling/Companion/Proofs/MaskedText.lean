import Companion.Java.OffsetScan
import Companion.Proofs.Slices
import Mathlib.Tactic.SplitIfs
import Mathlib.Tactic.Set

/-!
# Masked texts

The masked text of a source has its size (`byteCount_maskedText`), part by part, because a glyph is
seen either as it is or as the spaces that take its place. The class names of the source are those
of the masked text (`namesIn_maskedText`), each at the same offsets, and what they part the source
into is said by `classNamesFrom_spec`.
-/

namespace Companion.Java

open Text
open Unicode (isBlank)

/-- The glyph is seen as its character or blanked. -/
def Glyph.Faithful (g : Glyph) : Prop :=
  g.code = g.raw ∨ g.code = ' '

theorem faithful_keep (c : Char) : (Glyph.keep c).Faithful :=
  .inl rfl

theorem faithful_blank (c : Char) : (Glyph.blank c).Faithful := by
  unfold Glyph.Faithful Glyph.blank
  by_cases h : c = '\n'
  · exact .inl (if_pos h)
  · exact .inr (if_neg h)

/-- Every glyph of a source is seen as its character or blanked. -/
theorem faithful_maskFrom (r : Region) (s : List Char) : ∀ g ∈ maskFrom r s, g.Faithful := by
  fun_induction maskFrom r s <;> simp_all only [List.forall_mem_cons, List.not_mem_nil,
    false_implies, implies_true, faithful_keep, faithful_blank, and_true]

theorem map_raw_maskFrom (r : Region) (s : List Char) : (maskFrom r s).map Glyph.raw = s := by
  fun_induction maskFrom r s <;> simp_all [Glyph.keep, Glyph.blank]

/-- The text that a glyph is seen as. -/
def Glyph.text (g : Glyph) : List Char :=
  if g.code = ' ' then List.replicate g.raw.utf8Size ' ' else [g.code]

variable {gs : List Glyph} {g : Glyph} {c : Char}

@[simp] theorem maskedText_nil : maskedText [] = [] := rfl

theorem maskedText_cons (g : Glyph) (gs : List Glyph) :
    maskedText (g :: gs) = g.text ++ maskedText gs := rfl

theorem maskedText_append (gs hs : List Glyph) :
    maskedText (gs ++ hs) = maskedText gs ++ maskedText hs :=
  List.flatMap_append

theorem text_of_eq (h : g.code = ' ') : g.text = List.replicate g.raw.utf8Size ' ' := by
  rw [Glyph.text, if_pos h]

theorem text_of_ne (h : g.code ≠ ' ') : g.text = [g.code] := by
  rw [Glyph.text, if_neg h]

theorem reverse_text (g : Glyph) : g.text.reverse = g.text := by
  by_cases h : g.code = ' '
  · rw [text_of_eq h, List.reverse_replicate]
  · rw [text_of_ne h, List.reverse_singleton]

theorem maskedText_reverse (gs : List Glyph) : maskedText gs.reverse = (maskedText gs).reverse := by
  induction gs with
  | nil => rfl
  | cons g gs ih =>
    rw [List.reverse_cons, maskedText_append, ih, maskedText_cons, maskedText_cons, maskedText_nil,
      List.append_nil, List.reverse_append, reverse_text]

/-- A glyph is seen as a text that starts with its code and holds nothing else. -/
theorem text_eq_cons (g : Glyph) : ∃ n, g.text = List.replicate (n + 1) g.code := by
  have := g.raw.utf8Size_pos
  by_cases h : g.code = ' '
  · exact ⟨g.raw.utf8Size - 1, by rw [text_of_eq h, h, Nat.sub_add_cancel this]⟩
  · exact ⟨0, by rw [text_of_ne h]; rfl⟩

theorem head?_maskedText (gs : List Glyph) : (maskedText gs).head? = gs.head?.map Glyph.code := by
  cases gs with
  | nil => rfl
  | cons g gs =>
    obtain ⟨n, hn⟩ := text_eq_cons g
    rw [maskedText_cons, hn]
    rfl

theorem dropWhile_maskedText (p : Char → Bool) (gs : List Glyph) :
    (maskedText gs).dropWhile p = maskedText (gs.dropWhile fun g => p g.code) := by
  induction gs with
  | nil => rfl
  | cons g gs ih =>
    obtain ⟨n, hn⟩ := text_eq_cons g
    by_cases hp : p g.code
    · rw [maskedText_cons, List.dropWhile_cons, if_pos hp, ← ih, hn, List.dropWhile_append_of_pos]
      intro x hx
      rwa [(List.mem_replicate.1 hx).2]
    · rw [maskedText_cons, List.dropWhile_cons, if_neg hp, maskedText_cons, hn, List.replicate_succ,
        List.cons_append, List.dropWhile_cons, if_neg hp]

theorem takeWhile_maskedText (p : Char → Bool) (gs : List Glyph) :
    (maskedText gs).takeWhile p = maskedText (gs.takeWhile fun g => p g.code) := by
  induction gs with
  | nil => rfl
  | cons g gs ih =>
    obtain ⟨n, hn⟩ := text_eq_cons g
    by_cases hp : p g.code
    · rw [maskedText_cons, List.takeWhile_cons, if_pos hp, maskedText_cons, hn,
        List.takeWhile_append_of_pos, ih]
      intro x hx
      rwa [(List.mem_replicate.1 hx).2]
    · rw [maskedText_cons, List.takeWhile_cons, if_neg hp, hn, List.replicate_succ,
        List.cons_append, List.takeWhile_cons, if_neg hp, maskedText_nil]

/-- A masked text has the size of what it stands for. -/
theorem byteCount_maskedText (h : ∀ g ∈ gs, g.Faithful) :
    byteCount (maskedText gs) = byteCount (gs.map Glyph.raw) := by
  induction gs with
  | nil => rfl
  | cons g gs ih =>
    have hspaces (n : Nat) : byteCount (List.replicate n ' ') = n := by
      induction n with
      | zero => rfl
      | succ n ih =>
        rw [List.replicate_succ, byteCount_cons, ih, show ' '.utf8Size = 1 from rfl, Nat.add_comm]
    rw [maskedText_cons, byteCount_append, ih fun x hx => h x (List.mem_cons_of_mem _ hx),
      List.map_cons, byteCount_cons]
    congr 1
    by_cases hg : g.code = ' '
    · rw [text_of_eq hg, hspaces]
    · rcases h g List.mem_cons_self with hraw | hraw
      · rw [text_of_ne hg, hraw, byteCount_cons, byteCount_nil, Nat.add_zero]
      · exact absurd hraw hg

def seen (gs : List Glyph) : List Glyph :=
  (maskedText gs).map .keep

theorem map_code_keep (s : List Char) : (s.map Glyph.keep).map Glyph.code = s := by
  rw [List.map_map]
  exact List.map_id s

theorem map_code_seen (gs : List Glyph) : (seen gs).map Glyph.code = maskedText gs :=
  map_code_keep _

theorem seen_append (gs hs : List Glyph) : seen (gs ++ hs) = seen gs ++ seen hs := by
  simp only [seen, maskedText_append, List.map_append]

theorem seen_cons_of_ne (h : g.code ≠ ' ') : seen (g :: gs) = .keep g.code :: seen gs := by
  simp only [seen, maskedText_cons, text_of_ne h, List.singleton_append, List.map_cons]

theorem seen_cons_of_eq (h : g.code = ' ') :
    seen (g :: gs) = List.replicate g.raw.utf8Size (.keep ' ') ++ seen gs := by
  simp only [seen, maskedText_cons, text_of_eq h, List.map_append, List.map_replicate]

theorem seen_reverse (gs : List Glyph) : seen gs.reverse = (seen gs).reverse := by
  rw [seen, maskedText_reverse, List.map_reverse, seen]

theorem head?_seen (gs : List Glyph) :
    (seen gs).head?.map Glyph.code = gs.head?.map Glyph.code := by
  rw [← List.head?_map, map_code_seen, head?_maskedText]

theorem dropWhile_seen (p : Char → Bool) (gs : List Glyph) :
    ((seen gs).dropWhile fun g => p g.code) = seen (gs.dropWhile fun g => p g.code) := by
  rw [seen, seen, ← dropWhile_maskedText, List.dropWhile_map]
  rfl

/-- A start without spaces is the same in the masked text. -/
theorem take_seen (gs : List Glyph) {w : List Char} (hw : ' ' ∉ w) {n : Nat} (hn : w.length = n) :
    ((seen gs).take n).map Glyph.code = w ↔ (gs.take n).map Glyph.code = w := by
  induction w generalizing gs n with
  | nil =>
    subst hn
    simp
  | cons c w ih =>
    subst hn
    simp only [List.mem_cons, not_or] at hw
    rcases gs with _ | ⟨g, gs⟩
    · rfl
    · by_cases hg : g.code = ' '
      · have hpos := g.raw.utf8Size_pos
        obtain ⟨k, hk⟩ : ∃ k, g.raw.utf8Size = k + 1 := ⟨g.raw.utf8Size - 1, by omega⟩
        have hne := hw.1
        rw [seen_cons_of_eq hg, hk, List.replicate_succ, List.cons_append]
        simp [hg, hne, Glyph.keep]
      · rw [seen_cons_of_ne hg]
        simp only [List.length_cons, List.take_succ_cons, List.map_cons, List.cons.injEq,
          ih gs hw.2 rfl]
        rfl

theorem drop_seen {n : Nat} (h : ' ' ∉ (gs.take n).map Glyph.code) :
    (seen gs).drop n = seen (gs.drop n) := by
  induction n generalizing gs with
  | zero => rfl
  | succ n ih =>
    rcases gs with _ | ⟨g, gs⟩
    · rfl
    · simp only [List.take_succ_cons, List.map_cons, List.mem_cons, not_or] at h
      rw [seen_cons_of_ne fun he => h.1 he.symm, List.drop_succ_cons, List.drop_succ_cons, ih h.2]

theorem maskedText_eq_map (h : ∀ g ∈ gs, g.code ≠ ' ') : maskedText gs = gs.map Glyph.code := by
  induction gs with
  | nil => rfl
  | cons g gs ih =>
    rw [maskedText_cons, text_of_ne (h g List.mem_cons_self),
      ih fun x hx => h x (List.mem_cons_of_mem _ hx)]
    rfl

theorem ne_space_of_dropWhile_eq_cons {hs : List Glyph}
    (h : (gs.dropWhile fun g => isBlank g.code) = g :: hs) : g.code ≠ ' ' := by
  intro he
  have := List.head?_dropWhile_not (fun g : Glyph => isBlank g.code) gs
  rw [h] at this
  simp only [List.head?_cons, he] at this
  exact absurd this (by decide)

theorem nameAfterClass?_seen (gs : List Glyph) :
    nameAfterClass? (seen gs) = nameAfterClass? gs := by
  have hlength : "class".toList.length = "class".length := rfl
  unfold nameAfterClass?
  by_cases hclass : (gs.take "class".length).map Glyph.code = "class".toList
  · have hseen := (take_seen gs (by decide) hlength).2 hclass
    rw [if_pos hclass, if_pos hseen, drop_seen (by rw [hclass]; decide), map_code_seen]
    set r := gs.drop "class".length
    have hhead : (r.map Glyph.code).head? = (maskedText r).head? := by
      rw [head?_maskedText, List.head?_map]
    simp only [afterBlank?, hhead]
    split_ifs
    · have hmap : trimStart (r.map Glyph.code) =
          (r.dropWhile fun g => isBlank g.code).map Glyph.code := List.dropWhile_map
      rw [hmap, trimStart, dropWhile_maskedText]
      obtain ⟨q, hq⟩ : ∃ q, (r.dropWhile fun g => isBlank g.code) = q := ⟨_, rfl⟩
      rw [hq]
      rcases q with _ | ⟨g, q⟩
      · rfl
      · have hg := ne_space_of_dropWhile_eq_cons hq
        have hname : (maskedText q).takeWhile isNameChar =
            (q.map Glyph.code).takeWhile isNameChar := by
          rw [takeWhile_maskedText, List.takeWhile_map, maskedText_eq_map]
          · rfl
          · intro x hx he
            have hx := List.all_eq_true.1 List.all_takeWhile x hx
            rw [he] at hx
            exact absurd hx (by decide)
        rw [maskedText_cons, text_of_ne hg, List.singleton_append]
        simp only [List.map_cons, hname]
    · rfl
  · have hseen := mt (take_seen gs (by decide) hlength).1 hclass
    rw [if_neg hclass, if_neg hseen]

theorem isNameChar_of_isNameStart {c : Char} (h : isNameStart c) : isNameChar c := by
  simp only [isNameStart, Bool.or_eq_true, beq_iff_eq] at h
  simp only [isNameChar, Bool.or_eq_true, beq_iff_eq, Unicode.isWordChar]
  rcases h with (h | h) | h
  · have halphanum := Unicode.isAlphanum_of_isAlpha h
    rw [if_pos (Unicode.toNat_lt_of_isAlphanum halphanum), halphanum]
    exact .inl rfl
  · subst h
    exact .inl rfl
  · exact .inr h

theorem isNameChar_of_mem_name {name : List Char} (h : nameAfterClass? gs = some name) :
    ∀ c ∈ name, isNameChar c := by
  unfold nameAfterClass? at h
  split_ifs at h
  split at h
  · split_ifs at h with hstart
    simp only [Option.some.injEq] at h
    rw [← h]
    intro c hc
    rcases List.mem_cons.1 hc with rfl | hc
    · exact isNameChar_of_isNameStart hstart
    · exact List.all_eq_true.1 List.all_takeWhile c hc
  · simp at h

theorem glyphsAfterName_suffix (gs : List Glyph) : glyphsAfterName gs <:+ gs :=
  (List.dropWhile_suffix _).trans ((List.drop_suffix _ _).trans
    ((List.dropWhile_suffix _).trans (List.drop_suffix _ _)))

theorem glyphsAfterName_seen {name : List Char} (h : nameAfterClass? gs = some name) :
    glyphsAfterName (seen gs) = seen (glyphsAfterName gs) := by
  unfold nameAfterClass? at h
  split_ifs at h with hclass
  unfold glyphsAfterName
  rw [drop_seen (by rw [hclass]; decide), dropWhile_seen isBlank]
  obtain ⟨q, hq⟩ : ∃ q, ((gs.drop "class".length).dropWhile fun g => isBlank g.code) = q :=
    ⟨_, rfl⟩
  rw [hq]
  rcases q with _ | ⟨g, q⟩
  · rfl
  · have hg := ne_space_of_dropWhile_eq_cons hq
    rw [seen_cons_of_ne hg, List.drop_succ_cons, List.drop_zero, List.drop_succ_cons,
      List.drop_zero, dropWhile_seen isNameChar]

def ClassName.masked (n : ClassName) : ClassName :=
  ⟨seen n.before, n.name, seen n.after⟩

theorem classNamesFrom_cons_of_not {before gs : List Glyph}
    (h : isBoundary (before.head?.map Glyph.code) (some g.code) →
      nameAfterClass? (g :: gs) = none) :
    classNamesFrom before (g :: gs) = classNamesFrom (g :: before) gs := by
  rw [classNamesFrom]
  split_ifs with hb
  · rw [h hb]
  · rfl

theorem classNamesFrom_cons_of_space (before gs : List Glyph) :
    classNamesFrom before (.keep ' ' :: gs) = classNamesFrom (.keep ' ' :: before) gs := by
  have hlength : "class".length = 5 := rfl
  refine classNamesFrom_cons_of_not fun _ => ?_
  unfold nameAfterClass?
  rw [if_neg]
  simp [hlength, Glyph.keep]

theorem classNamesFrom_spaces (before gs : List Glyph) (n : Nat) :
    classNamesFrom before (List.replicate n (.keep ' ') ++ gs) =
      classNamesFrom (List.replicate n (.keep ' ') ++ before) gs := by
  induction n generalizing before with
  | zero => rfl
  | succ n ih =>
    have hswap : List.replicate n (Glyph.keep ' ') ++ .keep ' ' :: before =
        List.replicate (n + 1) (.keep ' ') ++ before := by
      rw [List.replicate_succ', List.append_assoc, List.singleton_append]
    rw [List.replicate_succ, List.cons_append, classNamesFrom_cons_of_space, ih, hswap,
      List.replicate_succ, List.cons_append]

theorem eq_take_append_after (gs : List Glyph) :
    gs = gs.take (gs.length - (glyphsAfterName gs).length) ++ glyphsAfterName gs := by
  obtain ⟨m, hm⟩ := glyphsAfterName_suffix gs
  have hlen := congrArg List.length hm
  rw [List.length_append] at hlen
  have hleft : (m ++ glyphsAfterName gs).take m.length = m := List.take_left
  rw [hm] at hleft
  rw [← hlen, Nat.add_sub_cancel, hleft, hm]

theorem classNamesFrom_cons_of_some {before gs : List Glyph} {name : List Char}
    (hb : isBoundary (before.head?.map Glyph.code) (some g.code))
    (h : nameAfterClass? (g :: gs) = some name) {passed : List Glyph}
    (hp : g :: gs = passed ++ glyphsAfterName (g :: gs)) :
    classNamesFrom before (g :: gs) = ⟨before, name, glyphsAfterName (g :: gs)⟩ ::
      classNamesFrom (passed.reverse ++ before) (glyphsAfterName (g :: gs)) := by
  have htake : (g :: gs).take ((g :: gs).length - (glyphsAfterName (g :: gs)).length) = passed := by
    have hlen := congrArg List.length hp
    rw [List.length_append] at hlen
    have hleft : (passed ++ glyphsAfterName (g :: gs)).take passed.length = passed := List.take_left
    rw [hlen, Nat.add_sub_cancel]
    rwa [← hp] at hleft
  rw [classNamesFrom, if_pos hb, h]
  simp only [htake]

/-- The class names of the masked text are those of the source. -/
theorem classNamesFrom_seen (before gs : List Glyph) :
    classNamesFrom (seen before) (seen gs) = (classNamesFrom before gs).map ClassName.masked := by
  have hstep {before gs : List Glyph} {g : Glyph}
      (hnone : isBoundary (before.head?.map Glyph.code) (some g.code) →
        nameAfterClass? (g :: gs) = none)
      (ih : classNamesFrom (seen (g :: before)) (seen gs) =
        (classNamesFrom (g :: before) gs).map ClassName.masked) :
      classNamesFrom (seen before) (seen (g :: gs)) =
        (classNamesFrom (g :: before) gs).map ClassName.masked := by
    by_cases hg : g.code = ' '
    · rw [seen_cons_of_eq hg, classNamesFrom_spaces, ← seen_cons_of_eq hg, ih]
    · rw [seen_cons_of_ne hg] at ih ⊢
      rw [classNamesFrom_cons_of_not, ih]
      intro hb
      rw [← seen_cons_of_ne hg, nameAfterClass?_seen]
      exact hnone (by rwa [head?_seen] at hb)
  fun_induction classNamesFrom before gs with
  | case1 before =>
    rw [show seen [] = [] from rfl, classNamesFrom, List.map_nil]
  | case2 before g gs hb name hname after passed ih =>
    have hg : g.code ≠ ' ' := by
      unfold nameAfterClass? at hname
      split_ifs at hname with hclass
      intro he
      simp [show "class".length = 5 from rfl, he] at hclass
    have hp : g :: gs = passed ++ after := eq_take_append_after (g :: gs)
    have hseen : seen (g :: gs) = .keep g.code :: seen gs := seen_cons_of_ne hg
    have hname' : nameAfterClass? (.keep g.code :: seen gs) = some name := by
      rw [← hseen, nameAfterClass?_seen, hname]
    have hafter : glyphsAfterName (.keep g.code :: seen gs) = seen after := by
      rw [← hseen, glyphsAfterName_seen hname]
    have hp' : .keep g.code :: seen gs =
        seen passed ++ glyphsAfterName (.keep g.code :: seen gs) := by
      rw [hafter, ← seen_append, ← hp, hseen]
    rw [hseen, classNamesFrom_cons_of_some (by rwa [head?_seen]) hname' hp', hafter, List.map_cons,
      ← ih, seen_append, seen_reverse]
    rfl
  | case3 before g gs hb hname ih => exact hstep (fun _ => hname) ih
  | case4 before g gs hb ih => exact hstep (fun h => absurd h hb) ih

theorem namesIn_maskedText (gs : List Glyph) :
    OffsetScan.namesIn (maskedText gs) = (classNamesFrom [] gs).map ClassName.masked :=
  classNamesFrom_seen [] gs

/-- A class name parts the source. Its keyword starts with a letter of the code. -/
theorem classNamesFrom_spec {before gs : List Glyph} {n : ClassName}
    (h : n ∈ classNamesFrom before gs) :
    ∃ p m, gs = p ++ (m ++ n.after) ∧ n.before = p.reverse ++ before ∧
      (∀ c ∈ n.name, isNameChar c) ∧ m.head?.map Glyph.code = some 'c' := by
  have hstep {before gs : List Glyph} {g : Glyph}
      (h : ∃ p m, gs = p ++ (m ++ n.after) ∧ n.before = p.reverse ++ g :: before ∧
        (∀ c ∈ n.name, isNameChar c) ∧ m.head?.map Glyph.code = some 'c') :
      ∃ p m, g :: gs = p ++ (m ++ n.after) ∧ n.before = p.reverse ++ before ∧
        (∀ c ∈ n.name, isNameChar c) ∧ m.head?.map Glyph.code = some 'c' := by
    obtain ⟨p, m, rfl, hb, hn⟩ := h
    exact ⟨g :: p, m, rfl, by simpa using hb, hn⟩
  fun_induction classNamesFrom before gs with
  | case1 => simp at h
  | case2 before g gs hb name hname after passed ih =>
    have hpassed : g :: gs = passed ++ after := eq_take_append_after (g :: gs)
    rcases List.mem_cons.1 h with rfl | h
    · have hg : g.code = 'c' := by
        unfold nameAfterClass? at hname
        split_ifs at hname with hclass
        exact (List.cons.inj hclass).1
      have hhead : passed.head? = some g := by
        rcases passed with _ | ⟨g', passed⟩
        · have hlt : after.length < (g :: gs).length :=
            length_glyphsAfterName_lt (List.cons_ne_nil g gs)
          have heq : (g :: gs).length = after.length := congrArg List.length hpassed
          omega
        · rw [(List.cons.inj hpassed).1]
          rfl
      exact ⟨[], passed, hpassed, rfl, isNameChar_of_mem_name hname, by rw [hhead, ← hg]; rfl⟩
    · obtain ⟨p, m, hp, hbefore, hn⟩ := ih h
      refine ⟨passed ++ p, m, ?_, by simpa using hbefore, hn⟩
      rw [List.append_assoc, ← hp]
      exact hpassed
  | case3 before g gs hb hname ih => exact hstep (ih h)
  | case4 before g gs hb ih => exact hstep (ih h)

/-- The class name follows the glyphs `p`, and its keyword and name are the glyphs `m`. -/
structure ClassName.Parts (n : ClassName) (glyphs p m : List Glyph) : Prop where
  eq_append : glyphs = p ++ (m ++ n.after)
  before_eq : n.before = p.reverse
  name_chars : ∀ c ∈ n.name, isNameChar c
  keyword : m.head?.map Glyph.code = some 'c'

theorem exists_parts {n : ClassName} (h : n ∈ classNamesFrom [] gs) : ∃ p m, n.Parts gs p m := by
  obtain ⟨p, m, hg, hb, hname, hm⟩ := classNamesFrom_spec h
  exact ⟨p, m, hg, by rw [hb, List.append_nil], hname, hm⟩

theorem ClassName.Parts.maskedText_eq {n : ClassName} {glyphs p m : List Glyph}
    (h : n.Parts glyphs p m) :
    maskedText glyphs = maskedText (p ++ m) ++ maskedText n.after := by
  rw [h.eq_append, ← List.append_assoc, maskedText_append]

end Companion.Java
