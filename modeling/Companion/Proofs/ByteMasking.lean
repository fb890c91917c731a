import Companion.Java.ByteMasking
import Companion.Proofs.MaskedText

/-!
# The mask by bytes

A cursor over the bytes of a source makes its mask (`maskBytes_utf8`). Inside a stretch the cursor
goes on from any character as from the start of the stretch, so what it makes of the rest of the
source in a region (`resume`) is what the mask of that region makes of its characters
(`resume_utf8`). Where a backslash makes the cursor stop inside a character, the bytes left of the
character are none that end the literal.
-/

namespace Companion.Java

open Text

variable {b : UInt8} {bs p : List UInt8} {c d : Char} {s : List Char}

@[simp] theorem utf8_nil : utf8 [] = [] := rfl

theorem utf8_cons (c : Char) (s : List Char) : utf8 (c :: s) = String.utf8EncodeChar c ++ utf8 s :=
  rfl

theorem utf8_append (s t : List Char) : utf8 (s ++ t) = utf8 s ++ utf8 t :=
  List.flatMap_append

theorem utf8EncodeChar_of_lt (h : c.toNat < 128) : String.utf8EncodeChar c = [c.toUInt8] := by
  have hsize : c.utf8Size = 1 := by
    rw [Char.utf8Size_eq_one_iff, UInt32.le_iff_toNat_le]
    exact Nat.le_of_lt_succ h
  exact String.utf8EncodeChar_eq_singleton hsize

theorem utf8_cons_of_lt (h : c.toNat < 128) (s : List Char) :
    utf8 (c :: s) = c.toUInt8 :: utf8 s := by
  rw [utf8_cons, utf8EncodeChar_of_lt h]
  rfl

theorem toNat_toUInt8 (h : c.toNat < 128) : c.toUInt8.toNat = c.toNat := by
  have : c.toUInt8.toNat = c.toNat % 256 := rfl
  omega

theorem le_of_mem_utf8EncodeChar (h : 128 ≤ c.toNat) (hb : b ∈ String.utf8EncodeChar c) :
    128 ≤ b.toNat := by
  have hc : ¬c.val.toNat ≤ 127 := Nat.not_le.2 h
  unfold String.utf8EncodeChar at hb
  simp only [hc, if_false] at hb
  split_ifs at hb
  all_goals
    simp only [List.mem_cons, List.not_mem_nil, or_false] at hb
    rcases hb with rfl | rfl | rfl | rfl
  all_goals
    rw [UInt8.toNat_ofNat']
    omega

/-- A byte that is a character stands in no other character. -/
theorem toUInt8_mem_utf8EncodeChar (hd : d.toNat < 128) :
    d.toUInt8 ∈ String.utf8EncodeChar c ↔ c = d := by
  constructor
  · intro h
    rcases Nat.lt_or_ge c.toNat 128 with hc | hc
    · rw [utf8EncodeChar_of_lt hc, List.mem_singleton] at h
      have heq := congrArg UInt8.toNat h
      rw [toNat_toUInt8 hd, toNat_toUInt8 hc] at heq
      exact Char.toNat_inj.1 heq.symm
    · have := le_of_mem_utf8EncodeChar hc h
      rw [toNat_toUInt8 hd] at this
      omega
  · rintro rfl
    rw [utf8EncodeChar_of_lt hd]
    exact List.mem_singleton_self _

theorem ne_of_mem_utf8EncodeChar (hb : b ∈ String.utf8EncodeChar c) (hd : d.toNat < 128)
    (h : c ≠ d) : b ≠ d.toUInt8 := by
  rintro rfl
  exact h ((toUInt8_mem_utf8EncodeChar hd).1 hb)

theorem le_of_mem_tail_utf8EncodeChar (hb : b ∈ (String.utf8EncodeChar c).tail) :
    128 ≤ b.toNat := by
  rcases Nat.lt_or_ge c.toNat 128 with hc | hc
  · rw [utf8EncodeChar_of_lt hc] at hb
    simp at hb
  · exact le_of_mem_utf8EncodeChar hc (List.mem_of_mem_tail hb)

theorem exists_utf8EncodeChar_eq_cons (c : Char) : ∃ b bs, String.utf8EncodeChar c = b :: bs := by
  have hlen : 0 < (String.utf8EncodeChar c).length := by
    rw [String.length_utf8EncodeChar]
    exact c.utf8Size_pos
  exact List.exists_cons_of_length_pos hlen

/-- A delimiter starts the bytes of a text if it starts the text. -/
theorem isPrefixOf_utf8 {w : List Char} (hw : ∀ d ∈ w, d.toNat < 128) (s : List Char) :
    (utf8 w).isPrefixOf (utf8 s) = w.isPrefixOf s := by
  induction w generalizing s with
  | nil => simp
  | cons d w ih =>
    have hd := hw d List.mem_cons_self
    rw [utf8_cons_of_lt hd]
    rcases s with _ | ⟨c, s⟩
    · rfl
    · by_cases hc : c = d
      · subst hc
        rw [utf8_cons_of_lt hd, List.isPrefixOf_cons_cons, List.isPrefixOf_cons_cons,
          ih fun x hx => hw x (List.mem_cons_of_mem _ hx)]
        simp
      · obtain ⟨b, bs, hb⟩ := exists_utf8EncodeChar_eq_cons c
        have hne : d.toUInt8 ≠ b := by
          rintro rfl
          exact hc ((toUInt8_mem_utf8EncodeChar hd).1 (by rw [hb]; exact List.mem_cons_self))
        rw [utf8_cons, hb, List.cons_append, List.isPrefixOf_cons_cons, List.isPrefixOf_cons_cons,
          beq_false_of_ne hne, beq_false_of_ne (Ne.symm hc)]
        rfl

theorem isPrefixOf_delimiter {w : String} (hw : ∀ d ∈ w.toList, d.toNat < 128) (s : List Char) :
    (ByteMask.delimiter w).isPrefixOf (utf8 s) = w.toList.isPrefixOf s :=
  isPrefixOf_utf8 hw s

theorem utf8_text_keep (c : Char) : utf8 (Glyph.keep c).text = String.utf8EncodeChar c := by
  unfold Glyph.text
  by_cases hc : c = ' '
  · subst hc
    rfl
  · rw [if_neg (show (Glyph.keep c).code ≠ ' ' from hc), utf8_cons, utf8_nil, List.append_nil]
    rfl

theorem utf8_text_blank (c : Char) :
    utf8 (Glyph.blank c).text = ByteMask.blank (String.utf8EncodeChar c) := by
  unfold Glyph.text Glyph.blank
  by_cases hc : c = '\n'
  · subst hc
    rfl
  · have hspaces (n : Nat) : utf8 (List.replicate n ' ') = List.replicate n ' '.toUInt8 := by
      induction n with
      | zero => rfl
      | succ n ih => rw [List.replicate_succ, utf8_cons, ih]; rfl
    have hblank : ByteMask.blank (String.utf8EncodeChar c) =
        (String.utf8EncodeChar c).map fun _ => ' '.toUInt8 :=
      List.map_congr_left fun b hb => if_neg fun he : b = '\n'.toUInt8 =>
        hc ((toUInt8_mem_utf8EncodeChar (by decide)).1 (he ▸ hb))
    rw [if_neg hc, if_pos rfl, hspaces, hblank, List.map_const', String.length_utf8EncodeChar]

theorem utf8_maskedText_keep (c : Char) (gs : List Glyph) :
    utf8 (maskedText (.keep c :: gs)) = String.utf8EncodeChar c ++ utf8 (maskedText gs) := by
  rw [maskedText_cons, utf8_append, utf8_text_keep]

theorem utf8_maskedText_blank (c : Char) (gs : List Glyph) :
    utf8 (maskedText (.blank c :: gs)) =
      ByteMask.blank (String.utf8EncodeChar c) ++ utf8 (maskedText gs) := by
  rw [maskedText_cons, utf8_append, utf8_text_blank]

namespace ByteMask

/-- The first occurrence of the piece does not start in the bytes `p` before `bs`. -/
def Passes (piece p bs : List UInt8) : Prop :=
  offsetOf? piece (p ++ bs) = (offsetOf? piece bs).map (p.length + ·)

theorem passes_of_not_mem {d : UInt8} {ds : List UInt8} (h : d ∉ p) (bs : List UInt8) :
    Passes (d :: ds) p bs := by
  unfold Passes
  induction p with
  | nil => simp
  | cons b p ih =>
    simp only [List.mem_cons, not_or] at h
    have hne : (d :: ds).isPrefixOf (b :: (p ++ bs)) = false := by
      rw [List.isPrefixOf_cons_cons]
      simp [h.1]
    rw [List.cons_append, offsetOf?, hne, if_neg Bool.false_ne_true, ih h.2, Option.map_map]
    congr 1
    funext n
    simp only [Function.comp_apply, List.length_cons]
    omega

theorem passes_singleton {piece : List UInt8} (h : piece.isPrefixOf (b :: bs) = false) :
    Passes piece [b] bs := by
  rw [Passes, List.singleton_append, offsetOf?, h, if_neg Bool.false_ne_true]
  rfl

theorem lineComment_append (h : Passes (delimiter "\n") p bs) :
    lineComment (p ++ bs) = ⟨0, p.length + (lineComment bs).blanked, 0⟩ := by
  unfold lineComment
  rw [h, List.length_append]
  rcases offsetOf? (delimiter "\n") bs with _ | n <;> rfl

theorem blockComment_append (h : Passes (delimiter "*/") p bs) :
    blockComment 0 (p ++ bs) = ⟨0, p.length + (blockComment 0 bs).blanked, 0⟩ := by
  unfold blockComment
  rw [List.drop_zero, List.drop_zero, h, List.length_append]
  rcases offsetOf? (delimiter "*/") bs with _ | n
  · rfl
  · simp only [Option.map_some, Option.getD_some, Stretch.mk.injEq, true_and, and_true]
    omega

theorem textBlock_append (h : Passes (delimiter "\"\"\"") p bs) :
    textBlock 0 (p ++ bs) =
      ⟨0, p.length + (textBlock 0 bs).blanked, (textBlock 0 bs).closing⟩ := by
  unfold textBlock
  rw [List.drop_zero, List.drop_zero, h, List.length_append]
  rcases offsetOf? (delimiter "\"\"\"") bs with _ | n <;> rfl

/-- A byte that ends no literal and takes none with it. -/
def IsInside (quote b : UInt8) : Prop :=
  b ≠ quote ∧ b ≠ '\n'.toUInt8 ∧ b ≠ '\\'.toUInt8

theorem literalSize_cons {q : UInt8} (h : IsInside q b) (bs : List UInt8) :
    literalSize q (b :: bs) = 1 + literalSize q bs := by
  obtain ⟨h₁, h₂, h₃⟩ := h
  cases bs <;> simp [literalSize, h₁, h₂, h₃]

theorem literalSize_append {q : UInt8} (h : ∀ b ∈ p, IsInside q b) (bs : List UInt8) :
    literalSize q (p ++ bs) = p.length + literalSize q bs := by
  induction p with
  | nil => simp
  | cons b p ih =>
    rw [List.forall_mem_cons] at h
    rw [List.cons_append, literalSize_cons h.1, ih h.2, List.length_cons]
    omega

end ByteMask

/-- What the cursor makes of the bytes from the start of a stretch on. -/
def passStretch (t : ByteMask.Stretch) (bs : List UInt8) : List UInt8 :=
  t.masked bs ++ maskBytes (bs.drop t.size)

theorem maskBytes_eq_passStretch (bs : List UInt8) :
    maskBytes bs = passStretch (ByteMask.stretchAt bs) bs := by
  cases bs with
  | nil => simp [passStretch, ByteMask.Stretch.masked, maskBytes, ByteMask.blank]
  | cons b bs => rw [maskBytes]; rfl

theorem passStretch_opening (p bs : List UInt8) (n k : Nat) :
    passStretch ⟨p.length, n, k⟩ (p ++ bs) = p ++ passStretch ⟨0, n, k⟩ bs := by
  simp only [passStretch, ByteMask.Stretch.masked, ByteMask.Stretch.size,
    List.drop_length_add_append, List.take_left, List.drop_left, List.append_assoc, List.take_zero,
    List.drop_zero, List.nil_append, Nat.zero_add]

theorem passStretch_blanked (p bs : List UInt8) (n k : Nat) :
    passStretch ⟨0, p.length + n, k⟩ (p ++ bs) = ByteMask.blank p ++ passStretch ⟨0, n, k⟩ bs := by
  simp only [passStretch, ByteMask.Stretch.masked, ByteMask.Stretch.size, ByteMask.blank,
    List.take_length_add_append, List.drop_length_add_append, List.map_append, List.append_assoc,
    List.take_zero, List.drop_zero, List.nil_append, Nat.zero_add, Nat.add_assoc]

/-- What the cursor makes of the rest of a source from inside a region. -/
def resume : Region → List UInt8 → List UInt8
  | .code, bs => maskBytes bs
  | .lineComment, bs => passStretch (ByteMask.lineComment bs) bs
  | .blockComment, bs => passStretch (ByteMask.blockComment 0 bs) bs
  | .textBlock, bs => passStretch (ByteMask.textBlock 0 bs) bs
  | .literal q, bs => passStretch (ByteMask.literal 0 q.toUInt8 bs) bs

theorem resume_nil (r : Region) : resume r [] = [] := by
  cases r with
  | code => rw [resume, maskBytes]
  | _ =>
    simp [resume, passStretch, maskBytes, ByteMask.Stretch.masked, ByteMask.lineComment,
      ByteMask.blockComment, ByteMask.textBlock, ByteMask.literal, ByteMask.offsetOf?,
      ByteMask.blank]

theorem resume_lineComment_append (h : ByteMask.Passes (ByteMask.delimiter "\n") p bs) :
    resume .lineComment (p ++ bs) = ByteMask.blank p ++ resume .lineComment bs := by
  rw [resume, ByteMask.lineComment_append h, passStretch_blanked]
  rfl

theorem resume_blockComment_append (h : ByteMask.Passes (ByteMask.delimiter "*/") p bs) :
    resume .blockComment (p ++ bs) = ByteMask.blank p ++ resume .blockComment bs := by
  rw [resume, ByteMask.blockComment_append h, passStretch_blanked]
  rfl

theorem resume_textBlock_append (h : ByteMask.Passes (ByteMask.delimiter "\"\"\"") p bs) :
    resume .textBlock (p ++ bs) = ByteMask.blank p ++ resume .textBlock bs := by
  rw [resume, ByteMask.textBlock_append h, passStretch_blanked, resume]
  unfold ByteMask.textBlock
  rcases ByteMask.offsetOf? (ByteMask.delimiter "\"\"\"") (bs.drop 0) with _ | n <;> rfl

theorem resume_literal_append {q : Char} (h : ∀ b ∈ p, ByteMask.IsInside q.toUInt8 b) :
    resume (.literal q) (p ++ bs) = ByteMask.blank p ++ resume (.literal q) bs := by
  rw [resume, ByteMask.literal, List.drop_zero, ByteMask.literalSize_append h, passStretch_blanked]
  rfl

/-- A backslash takes a character with it: its first byte, and those after it end no literal. -/
theorem resume_literal_escape {q : Char} (hq : q = '"' ∨ q = '\'') (c : Char) (bs : List UInt8) :
    resume (.literal q) ('\\'.toUInt8 :: (String.utf8EncodeChar c ++ bs)) =
      ByteMask.blank ('\\'.toUInt8 :: String.utf8EncodeChar c) ++ resume (.literal q) bs := by
  obtain ⟨b, t, hb⟩ := exists_utf8EncodeChar_eq_cons c
  have ht : ∀ x ∈ t, ByteMask.IsInside q.toUInt8 x := by
    intro x hx
    have hle : 128 ≤ x.toNat := le_of_mem_tail_utf8EncodeChar (c := c) (by rwa [hb])
    refine ⟨?_, ?_, ?_⟩
    · rintro rfl
      rcases hq with rfl | rfl <;> exact absurd hle (by decide)
    all_goals
      rintro rfl
      exact absurd hle (by decide)
  have hsize : ByteMask.literalSize q.toUInt8 ('\\'.toUInt8 :: b :: (t ++ bs)) =
      ('\\'.toUInt8 :: b :: t).length + ByteMask.literalSize q.toUInt8 bs := by
    have hquote : ¬('\\'.toUInt8 = q.toUInt8 ∨ '\\'.toUInt8 = '\n'.toUInt8) := by
      rcases hq with rfl | rfl <;> decide
    rw [ByteMask.literalSize, if_neg hquote, if_pos rfl, ByteMask.literalSize_append ht]
    simp only [List.length_cons]
    omega
  have happend : '\\'.toUInt8 :: (b :: t ++ bs) = ('\\'.toUInt8 :: b :: t) ++ bs := rfl
  rw [hb, resume, ByteMask.literal, List.drop_zero, List.cons_append, hsize, ← List.cons_append,
    happend, passStretch_blanked]
  rfl

/-! ## From one region to the next -/

theorem maskBytes_cons (h : ByteMask.stretchAt (b :: bs) = ⟨1, 0, 0⟩) :
    maskBytes (b :: bs) = b :: maskBytes bs := by
  rw [maskBytes_eq_passStretch, h]
  exact passStretch_opening [b] bs 0 0

def IsPlain (b : UInt8) : Prop :=
  b ≠ '/'.toUInt8 ∧ b ≠ '"'.toUInt8 ∧ b ≠ '\''.toUInt8

theorem stretchAt_of_isPlain (h : IsPlain b) (bs : List UInt8) :
    ByteMask.stretchAt (b :: bs) = ⟨1, 0, 0⟩ := by
  obtain ⟨h₁, h₂, h₃⟩ := h
  have hne {w : String} {d : Char} {v : List Char} (hw : w.toList = d :: v) (hd : d.toNat < 128)
      (hb : b ≠ d.toUInt8) : ¬(ByteMask.delimiter w).isPrefixOf (b :: bs) := by
    rw [ByteMask.delimiter, hw, utf8_cons_of_lt hd, List.isPrefixOf_cons_cons,
      beq_false_of_ne (Ne.symm hb)]
    exact Bool.false_ne_true
  unfold ByteMask.stretchAt
  rw [if_neg (hne rfl (by decide) h₁), if_neg (hne rfl (by decide) h₁),
    if_neg (hne rfl (by decide) h₂), if_neg (hne rfl (by decide) h₂),
    if_neg (hne rfl (by decide) h₃)]

theorem maskBytes_append (h : ∀ b ∈ p, IsPlain b) (bs : List UInt8) :
    maskBytes (p ++ bs) = p ++ maskBytes bs := by
  induction p with
  | nil => rfl
  | cons b p ih =>
    rw [List.forall_mem_cons] at h
    rw [List.cons_append, maskBytes_cons (stretchAt_of_isPlain h.1 _), ih h.2, List.cons_append]

theorem resume_lineComment_feed (bs : List UInt8) :
    resume .lineComment ('\n'.toUInt8 :: bs) = '\n'.toUInt8 :: maskBytes bs := by
  have hplain : IsPlain '\n'.toUInt8 := by unfold IsPlain; decide
  rw [← maskBytes_cons (stretchAt_of_isPlain hplain bs)]
  rfl

theorem resume_blockComment_close (bs : List UInt8) :
    resume .blockComment ('*'.toUInt8 :: '/'.toUInt8 :: bs) =
      ByteMask.blank ['*'.toUInt8, '/'.toUInt8] ++ maskBytes bs :=
  passStretch_blanked ['*'.toUInt8, '/'.toUInt8] bs 0 0

theorem resume_textBlock_close (bs : List UInt8) :
    resume .textBlock ('"'.toUInt8 :: '"'.toUInt8 :: '"'.toUInt8 :: bs) =
      '"'.toUInt8 :: '"'.toUInt8 :: '"'.toUInt8 :: maskBytes bs :=
  rfl

theorem resume_literal_close {q : Char} (h : b = q.toUInt8 ∨ b = '\n'.toUInt8)
    (bs : List UInt8) : resume (.literal q) (b :: bs) = b :: maskBytes bs := by
  have hsize : ByteMask.literalSize q.toUInt8 (b :: bs) = 0 := by
    cases bs <;> rw [ByteMask.literalSize, if_pos h]
  rw [resume, ByteMask.literal, List.drop_zero, hsize]
  rfl

theorem maskBytes_lineComment (bs : List UInt8) :
    maskBytes ('/'.toUInt8 :: '/'.toUInt8 :: bs) =
      ByteMask.blank ['/'.toUInt8, '/'.toUInt8] ++ resume .lineComment bs := by
  have hp : ByteMask.Passes (ByteMask.delimiter "\n") ['/'.toUInt8, '/'.toUInt8] bs :=
    ByteMask.passes_of_not_mem (by decide) bs
  rw [← resume_lineComment_append hp, maskBytes_eq_passStretch]
  rfl

theorem maskBytes_blockComment (bs : List UInt8) :
    maskBytes ('/'.toUInt8 :: '*'.toUInt8 :: bs) =
      ByteMask.blank ['/'.toUInt8, '*'.toUInt8] ++ resume .blockComment bs := by
  have hstretch : ByteMask.stretchAt ('/'.toUInt8 :: '*'.toUInt8 :: bs) =
      ⟨0, ['/'.toUInt8, '*'.toUInt8].length + (ByteMask.blockComment 0 bs).blanked, 0⟩ := by
    change ByteMask.blockComment 2 _ = _
    unfold ByteMask.blockComment
    rw [List.drop_zero, List.drop_succ_cons, List.drop_succ_cons, List.drop_zero]
    rcases ByteMask.offsetOf? (ByteMask.delimiter "*/") bs with _ | n
    · simp only [Option.map_none, Option.getD_none, List.length_cons, List.length_nil,
        ByteMask.Stretch.mk.injEq, true_and, and_true]
      omega
    · simp only [Option.map_some, Option.getD_some, List.length_cons, List.length_nil,
        ByteMask.Stretch.mk.injEq, true_and, and_true]
      omega
  rw [maskBytes_eq_passStretch, hstretch]
  exact passStretch_blanked ['/'.toUInt8, '*'.toUInt8] bs _ 0

theorem maskBytes_textBlock (bs : List UInt8) :
    maskBytes ('"'.toUInt8 :: '"'.toUInt8 :: '"'.toUInt8 :: bs) =
      '"'.toUInt8 :: '"'.toUInt8 :: '"'.toUInt8 :: resume .textBlock bs := by
  rw [maskBytes_eq_passStretch, resume]
  change passStretch (ByteMask.textBlock 3 _) _ = _
  unfold ByteMask.textBlock
  rw [List.drop_zero, List.drop_succ_cons, List.drop_succ_cons, List.drop_succ_cons, List.drop_zero]
  rcases ByteMask.offsetOf? (ByteMask.delimiter "\"\"\"") bs with _ | n
  · exact passStretch_opening ['"'.toUInt8, '"'.toUInt8, '"'.toUInt8] bs bs.length 0
  · exact passStretch_opening ['"'.toUInt8, '"'.toUInt8, '"'.toUInt8] bs n 3

theorem maskBytes_literal {q : Char} (hq : q = '"' ∨ q = '\'') (h : ¬"\"\"\"".toList <+: q :: s) :
    maskBytes (utf8 (q :: s)) = q.toUInt8 :: resume (.literal q) (utf8 s) := by
  have hlt : q.toNat < 128 := by rcases hq with rfl | rfl <;> decide
  have hstretch : ByteMask.stretchAt (utf8 (q :: s)) =
      ByteMask.literal 1 q.toUInt8 (utf8 (q :: s)) := by
    have hblock : ¬(ByteMask.delimiter "\"\"\"").isPrefixOf (utf8 (q :: s)) := by
      rwa [isPrefixOf_delimiter (by decide), List.isPrefixOf_iff_prefix]
    unfold ByteMask.stretchAt
    rw [if_neg hblock, utf8_cons_of_lt hlt]
    rcases hq with rfl | rfl <;> rfl
  rw [maskBytes_eq_passStretch, hstretch, utf8_cons_of_lt hlt]
  exact passStretch_opening [q.toUInt8] (utf8 s) _ 1

/-- A slash that opens no comment. -/
theorem maskBytes_slash (h : ¬"//".toList <+: '/' :: s) (h' : ¬"/*".toList <+: '/' :: s) :
    maskBytes (utf8 ('/' :: s)) = '/'.toUInt8 :: maskBytes (utf8 s) := by
  have hstretch : ByteMask.stretchAt (utf8 ('/' :: s)) = ⟨1, 0, 0⟩ := by
    unfold ByteMask.stretchAt
    rw [isPrefixOf_delimiter (by decide), isPrefixOf_delimiter (by decide),
      if_neg (by rwa [List.isPrefixOf_iff_prefix]), if_neg (by rwa [List.isPrefixOf_iff_prefix]),
      utf8_cons_of_lt (by decide)]
    rfl
  rw [utf8_cons_of_lt (by decide)] at hstretch ⊢
  exact maskBytes_cons hstretch

theorem maskBytes_char (hq : ¬(c = '"' ∨ c = '\'')) (h : ¬"//".toList <+: c :: s)
    (h' : ¬"/*".toList <+: c :: s) :
    maskBytes (utf8 (c :: s)) = String.utf8EncodeChar c ++ maskBytes (utf8 s) := by
  by_cases hslash : c = '/'
  · subst hslash
    rw [maskBytes_slash h h', utf8EncodeChar_of_lt (by decide)]
    rfl
  · rw [not_or] at hq
    rw [utf8_cons, maskBytes_append]
    exact fun b hb => ⟨ne_of_mem_utf8EncodeChar hb (by decide) hslash,
      ne_of_mem_utf8EncodeChar hb (by decide) hq.1, ne_of_mem_utf8EncodeChar hb (by decide) hq.2⟩

theorem resume_literal_end {q : Char} (hq : q = '"' ∨ q = '\'') (h : c = q ∨ c = '\n')
    (s : List Char) :
    resume (.literal q) (utf8 (c :: s)) = String.utf8EncodeChar c ++ maskBytes (utf8 s) := by
  have hlt : c.toNat < 128 := by rcases h with rfl | rfl <;> rcases hq with rfl | rfl <;> decide
  have hbyte : c.toUInt8 = q.toUInt8 ∨ c.toUInt8 = '\n'.toUInt8 :=
    h.imp (congrArg _) (congrArg _)
  rw [utf8_cons_of_lt hlt, resume_literal_close hbyte, utf8EncodeChar_of_lt hlt]
  rfl

theorem resume_literal_char {q : Char} (hq : q = '"' ∨ q = '\'') (h : ¬(c = q ∨ c = '\n'))
    (hc : c ≠ '\\') (s : List Char) :
    resume (.literal q) (utf8 (c :: s)) =
      ByteMask.blank (String.utf8EncodeChar c) ++ resume (.literal q) (utf8 s) := by
  have hlt : q.toNat < 128 := by rcases hq with rfl | rfl <;> decide
  rw [not_or] at h
  rw [utf8_cons, resume_literal_append]
  exact fun b hb => ⟨ne_of_mem_utf8EncodeChar hb hlt h.1,
    ne_of_mem_utf8EncodeChar hb (by decide) h.2, ne_of_mem_utf8EncodeChar hb (by decide) hc⟩

theorem passes_utf8EncodeChar {w : String} (hw : ∀ d ∈ w.toList, d.toNat < 128)
    (hne : w.toList ≠ []) (h : ¬w.toList <+: c :: s) :
    ByteMask.Passes (ByteMask.delimiter w) (String.utf8EncodeChar c) (utf8 s) := by
  obtain ⟨d, v, hv⟩ := List.exists_cons_of_ne_nil hne
  have hd : d.toNat < 128 := hw d (by simp [hv])
  by_cases hc : c = d
  · subst hc
    have hprefix : (ByteMask.delimiter w).isPrefixOf (c.toUInt8 :: utf8 s) = false := by
      rwa [← utf8_cons_of_lt hd, isPrefixOf_delimiter hw, ← Bool.not_eq_true,
        List.isPrefixOf_iff_prefix]
    rw [utf8EncodeChar_of_lt hd]
    exact ByteMask.passes_singleton hprefix
  · rw [ByteMask.delimiter, hv, utf8_cons_of_lt hd]
    exact ByteMask.passes_of_not_mem
      (fun hmem => ne_of_mem_utf8EncodeChar hmem hd hc rfl) (utf8 s)

/-- A region that a source comes into: the quote of a literal is one of the two. -/
def Region.Quoted (r : Region) : Prop :=
  ∀ q, r = .literal q → q = '"' ∨ q = '\''

theorem not_prefix_cons {w : List Char} (h : ∀ t, c = d → s = w ++ t → False) :
    ¬d :: w <+: c :: s := by
  rw [List.cons_prefix_cons]
  rintro ⟨hd, t, ht⟩
  exact h t hd.symm ht.symm

/-- From inside a region the cursor makes of a text what the mask makes of it. -/
theorem resume_utf8 {r : Region} (hr : r.Quoted) (s : List Char) :
    resume r (utf8 s) = utf8 (maskedText (maskFrom r s)) := by
  have hcode : Region.code.Quoted := fun q h => by simp at h
  have hline : Region.lineComment.Quoted := fun q h => by simp at h
  have hcomment : Region.blockComment.Quoted := fun q h => by simp at h
  have hblock : Region.textBlock.Quoted := fun q h => by simp at h
  fun_induction maskFrom r s with
  | case1 r => exact resume_nil r
  | case2 cs ih =>
    rw [utf8_cons_of_lt (by decide), utf8_cons_of_lt (by decide), resume, maskBytes_lineComment,
      ih hline, utf8_maskedText_blank, utf8_maskedText_blank]
    rfl
  | case3 cs ih =>
    rw [utf8_cons_of_lt (by decide), utf8_cons_of_lt (by decide), resume, maskBytes_blockComment,
      ih hcomment, utf8_maskedText_blank, utf8_maskedText_blank]
    rfl
  | case4 cs ih =>
    rw [utf8_cons_of_lt (by decide), utf8_cons_of_lt (by decide), utf8_cons_of_lt (by decide),
      resume, maskBytes_textBlock, ih hblock, utf8_maskedText_keep, utf8_maskedText_keep,
      utf8_maskedText_keep]
    rfl
  | case5 c cs h₁ h₂ h₃ ih =>
    rw [utf8_maskedText_keep, resume]
    by_cases hq : c = '"' ∨ c = '\''
    · have hlt : c.toNat < 128 := by rcases hq with rfl | rfl <;> decide
      rw [if_pos hq] at ih ⊢
      rw [maskBytes_literal hq (not_prefix_cons h₃), ih fun q h => Region.literal.inj h ▸ hq,
        utf8EncodeChar_of_lt hlt]
      rfl
    · rw [if_neg hq] at ih ⊢
      rw [maskBytes_char hq (not_prefix_cons h₁) (not_prefix_cons h₂), ← ih hcode, resume]
  | case6 cs ih =>
    rw [utf8_cons_of_lt (by decide), resume_lineComment_feed, utf8_maskedText_keep, ← ih hcode]
    rfl
  | case7 c cs hc ih =>
    have hpass := passes_utf8EncodeChar (w := "\n") (by decide) (by decide)
      (not_prefix_cons (s := cs) fun _ h _ => hc h)
    rw [utf8_cons, resume_lineComment_append hpass, ih hline, utf8_maskedText_blank]
  | case8 cs ih =>
    rw [utf8_cons_of_lt (by decide), utf8_cons_of_lt (by decide), resume_blockComment_close,
      utf8_maskedText_blank, utf8_maskedText_blank, ← ih hcode]
    rfl
  | case9 c cs h ih =>
    have hpass := passes_utf8EncodeChar (w := "*/") (by decide) (by decide) (not_prefix_cons h)
    rw [utf8_cons, resume_blockComment_append hpass, ih hcomment, utf8_maskedText_blank]
  | case10 cs ih =>
    rw [utf8_cons_of_lt (by decide), utf8_cons_of_lt (by decide), utf8_cons_of_lt (by decide),
      resume_textBlock_close, utf8_maskedText_keep, utf8_maskedText_keep, utf8_maskedText_keep,
      ← ih hcode]
    rfl
  | case11 c cs h ih =>
    have hpass := passes_utf8EncodeChar (w := "\"\"\"") (by decide) (by decide) (not_prefix_cons h)
    rw [utf8_cons, resume_textBlock_append hpass, ih hblock, utf8_maskedText_blank]
  | case12 q c cs ih =>
    rw [utf8_cons_of_lt (by decide), utf8_cons, resume_literal_escape (hr q rfl), ih hr,
      utf8_maskedText_blank, utf8_maskedText_blank]
    rfl
  | case13 q c cs h hend ih =>
    rw [resume_literal_end (hr q rfl) hend, utf8_maskedText_keep, ← ih hcode, resume]
  | case14 q c cs h hend ih =>
    rw [utf8_maskedText_blank, ← ih hr]
    by_cases hescape : c = '\\'
    · -- A backslash that nothing follows: the cursor goes past the end of the source.
      obtain rfl : cs = [] := by
        rcases cs with _ | ⟨d, cs⟩
        · rfl
        · exact absurd rfl (h d cs hescape)
      subst hescape
      rcases hr q rfl with rfl | rfl <;> rfl
    · exact resume_literal_char (hr q rfl) hend hescape cs

theorem maskBytes_utf8 (s : List Char) : maskBytes (utf8 s) = utf8 (maskedText (mask s)) :=
  resume_utf8 (r := .code) (fun q h => by simp at h) s

end Companion.Java
