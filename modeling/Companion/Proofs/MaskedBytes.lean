import Companion.Proofs.ByteMasking
import Mathlib.Data.List.Forall2

/-!
# Masked sources

The bytes that the cursor makes of a source decode, so what stands in for bytes that do not
(`maskedSource`) is never used, and the text they decode to masks the source character by character
(`Masks`, `maskedSource_masks`). The glyphs part both texts at the same offsets: each is seen as the
bytes of its character or as a space for each of them, and a line feed is never a space.
-/

namespace Companion.Java

open Text

variable {s : List Char} {gs : List Glyph} {g : Glyph} {b : UInt8} {i : Nat}

def maskedUtf8 (source : String) : ByteArray :=
  (maskBytes (utf8 source.toList)).toByteArray

/-- The masked source, decoded from its bytes, or what `repair` makes of bytes that are no text. -/
def maskedSource (repair : ByteArray → String) (source : String) : String :=
  (String.fromUTF8? (maskedUtf8 source)).getD (repair (maskedUtf8 source))

/-- A text of the size of the source in which each character stands or has given way to spaces. -/
structure Masks (source masked : String) : Prop where
  size : masked.utf8ByteSize = source.utf8ByteSize
  /-- Line feeds are at the same offsets. -/
  feeds (i : Nat) : (utf8 masked.toList)[i]? = some '\n'.toUInt8 ↔
    (utf8 source.toList)[i]? = some '\n'.toUInt8
  /-- Each byte is unchanged or a space. -/
  bytes (i : Nat) (b : UInt8) : (utf8 source.toList)[i]? = some b →
    (utf8 masked.toList)[i]? = some b ∨ (utf8 masked.toList)[i]? = some ' '.toUInt8
  /-- Each character is kept whole or blanked whole. -/
  characters (p : List Char) (c : Char) (r : List Char) : source.toList = p ++ c :: r →
    ((utf8 masked.toList).drop (byteCount p)).take c.utf8Size = String.utf8EncodeChar c ∨
    ((utf8 masked.toList).drop (byteCount p)).take c.utf8Size =
      List.replicate c.utf8Size ' '.toUInt8
  /-- Where a character of the source starts or the source ends, a character of the text does. -/
  boundaries (i : String.Pos.Raw) : i.IsValid source → i.IsValid masked
  /-- An ASCII character, blanked or not, starts at its byte. -/
  ascii (i : Nat) (b : UInt8) : (utf8 source.toList)[i]? = some b → b.toNat < 128 →
    (String.Pos.Raw.mk i).IsValid source ∧ (String.Pos.Raw.mk i).IsValid masked

theorem length_utf8 (s : List Char) : (utf8 s).length = byteCount s := by
  induction s with
  | nil => rfl
  | cons c s ih => rw [utf8_cons, List.length_append, String.length_utf8EncodeChar, ih,
      byteCount_cons]

theorem utf8_replicate_space (n : Nat) :
    utf8 (List.replicate n ' ') = List.replicate n ' '.toUInt8 := by
  induction n with
  | zero => rfl
  | succ n ih =>
    rw [List.replicate_succ, utf8_cons_of_lt (by decide), ih, List.replicate_succ]

theorem fromUTF8?_utf8 (s : List Char) :
    String.fromUTF8? (utf8 s).toByteArray = some (String.ofList s) := by
  have hvalid : (utf8 s).toByteArray.IsValidUTF8 := ByteArray.isValidUTF8_utf8Encode
  rw [String.fromUTF8?, dif_pos hvalid]
  exact congrArg some (String.toByteArray_inj.1 rfl)

/-- An ASCII byte of a text is a character of it. -/
theorem exists_append_of_getElem?_utf8 (h : (utf8 s)[i]? = some b) (hb : b.toNat < 128) :
    ∃ p r, s = p ++ r ∧ i = byteCount p := by
  induction s generalizing i with
  | nil => simp at h
  | cons c s ih =>
    rcases Nat.lt_or_ge i (String.utf8EncodeChar c).length with hi | hi
    · rw [utf8_cons, List.getElem?_append_left hi] at h
      rcases Nat.lt_or_ge c.toNat 128 with hc | hc
      · rw [utf8EncodeChar_of_lt hc, List.length_singleton, Nat.lt_one_iff] at hi
        exact ⟨[], c :: s, rfl, hi⟩
      · have := le_of_mem_utf8EncodeChar hc (List.mem_of_getElem? h)
        omega
    · rw [utf8_cons, List.getElem?_append_right hi] at h
      obtain ⟨p, r, rfl, hp⟩ := ih h
      refine ⟨c :: p, r, rfl, ?_⟩
      rw [String.length_utf8EncodeChar] at hp hi
      rw [byteCount_cons]
      omega

theorem isValid_byteCount {p r : List Char} {source : String} (h : source.toList = p ++ r) :
    (String.Pos.Raw.mk (byteCount p)).IsValid source := by
  refine String.Pos.Raw.isValid_iff_exists_append.2 ⟨String.ofList p, String.ofList r, ?_, ?_⟩
  · rw [← String.ofList_append, ← h, String.ofList_toList]
  · rw [String.Pos.Raw.ext_iff]
    show byteCount p = (String.ofList p).utf8ByteSize
    rw [← byteCount_toList, String.toList_ofList]

theorem exists_append_of_isValid {source : String} {i : String.Pos.Raw} (h : i.IsValid source) :
    ∃ p r, source.toList = p ++ r ∧ i = ⟨byteCount p⟩ := by
  obtain ⟨p, r, rfl, rfl⟩ := String.Pos.Raw.isValid_iff_exists_append.1 h
  refine ⟨p.toList, r.toList, String.toList_append, ?_⟩
  rw [String.Pos.Raw.ext_iff]
  exact (byteCount_toList p).symm

theorem code_of_feed (r : Region) (s : List Char) :
    ∀ g ∈ maskFrom r s, g.raw = '\n' → g.code = '\n' := by
  have hkeep (c : Char) : (Glyph.keep c).raw = '\n' → (Glyph.keep c).code = '\n' := id
  have hblank (c : Char) : (Glyph.blank c).raw = '\n' → (Glyph.blank c).code = '\n' :=
    fun h => (if_pos h).trans h
  fun_induction maskFrom r s <;> simp_all only [List.forall_mem_cons, List.not_mem_nil,
    false_implies, implies_true, and_true]

/-- A glyph is seen as the bytes of its character or, unless it is a line feed, as spaces. -/
theorem utf8_text (h : g.Faithful) (hfeed : g.raw = '\n' → g.code = '\n') :
    utf8 g.text = String.utf8EncodeChar g.raw ∨
    g.raw ≠ '\n' ∧ utf8 g.text = List.replicate g.raw.utf8Size ' '.toUInt8 := by
  by_cases hcode : g.code = ' '
  · refine .inr ⟨fun hraw => ?_, ?_⟩
    · rw [hfeed hraw] at hcode
      exact absurd hcode (by decide)
    · rw [text_of_eq hcode, utf8_replicate_space]
  · rcases h with hraw | hraw
    · rw [text_of_ne hcode, hraw, utf8_cons, utf8_nil, List.append_nil]
      exact .inl rfl
    · exact absurd hraw hcode

/-- A byte of the source and what it is masked as. -/
def MaskedByte (b m : UInt8) : Prop :=
  m = b ∨ b ≠ '\n'.toUInt8 ∧ m = ' '.toUInt8

theorem forall₂_maskedByte_text (h : g.Faithful) (hfeed : g.raw = '\n' → g.code = '\n') :
    List.Forall₂ MaskedByte (String.utf8EncodeChar g.raw) (utf8 g.text) := by
  rcases utf8_text h hfeed with htext | ⟨hraw, htext⟩
  · rw [htext, List.forall₂_same]
    exact fun b _ => .inl rfl
  · have hspaces : List.replicate g.raw.utf8Size ' '.toUInt8 =
        (String.utf8EncodeChar g.raw).map fun _ => ' '.toUInt8 := by
      rw [List.map_const', String.length_utf8EncodeChar]
    rw [htext, hspaces, List.forall₂_map_right_iff, List.forall₂_same]
    exact fun b hb => .inr ⟨ne_of_mem_utf8EncodeChar hb (by decide) hraw, rfl⟩

theorem forall₂_maskedByte (h : ∀ g ∈ gs, g.Faithful)
    (hfeed : ∀ g ∈ gs, g.raw = '\n' → g.code = '\n') :
    List.Forall₂ MaskedByte (utf8 (gs.map Glyph.raw)) (utf8 (maskedText gs)) := by
  induction gs with
  | nil => exact .nil
  | cons g gs ih =>
    rw [List.forall_mem_cons] at h hfeed
    rw [List.map_cons, utf8_cons, maskedText_cons, utf8_append]
    exact List.rel_append (forall₂_maskedByte_text h.1 hfeed.1) (ih h.2 hfeed.2)

/-- What the cursor's bytes decode to. -/
theorem fromUTF8?_maskedUtf8 (source : String) :
    String.fromUTF8? (maskedUtf8 source) =
      some (String.ofList (maskedText (mask source.toList))) := by
  rw [maskedUtf8, maskBytes_utf8, fromUTF8?_utf8]

/-- Glyphs that part into those of a text and those of the rest. -/
theorem exists_glyphs {p r : List Char} (h : s = p ++ r) :
    ∃ gs hs, mask s = gs ++ hs ∧ gs.map Glyph.raw = p ∧ hs.map Glyph.raw = r ∧
      byteCount (maskedText gs) = byteCount p := by
  have hraw : (mask s).map Glyph.raw = p ++ r := (map_raw_maskFrom .code s).trans h
  obtain ⟨gs, hs, hgs, rfl, rfl⟩ := List.map_eq_append_iff.1 hraw
  refine ⟨gs, hs, hgs, rfl, rfl, byteCount_maskedText fun g hg => ?_⟩
  have hmem : g ∈ mask s := hgs ▸ List.mem_append_left hs hg
  exact faithful_maskFrom .code s g hmem

theorem isValid_maskedText {source : String} {i : String.Pos.Raw} (h : i.IsValid source) :
    i.IsValid (String.ofList (maskedText (mask source.toList))) := by
  obtain ⟨p, r, hp, rfl⟩ := exists_append_of_isValid h
  obtain ⟨gs, hs, hgs, -, -, hcount⟩ := exists_glyphs hp
  rw [← hcount]
  exact isValid_byteCount (by rw [String.toList_ofList, hgs, maskedText_append])

theorem take_drop_maskedText {p r : List Char} {c : Char} (h : s = p ++ c :: r) :
    ((utf8 (maskedText (mask s))).drop (byteCount p)).take c.utf8Size = String.utf8EncodeChar c ∨
    ((utf8 (maskedText (mask s))).drop (byteCount p)).take c.utf8Size =
      List.replicate c.utf8Size ' '.toUInt8 := by
  obtain ⟨gs, hs, hgs, -, hraw, hcount⟩ := exists_glyphs h
  obtain ⟨g, hs, rfl, rfl, rfl⟩ := List.map_eq_cons_iff.1 hraw
  have hmem : g ∈ mask s := hgs ▸ List.mem_append_right gs List.mem_cons_self
  have htext := utf8_text (faithful_maskFrom .code s g hmem) (code_of_feed .code s g hmem)
  have hsize : (utf8 g.text).length = g.raw.utf8Size := by
    rcases htext with htext | ⟨-, htext⟩
    · rw [htext, String.length_utf8EncodeChar]
    · rw [htext, List.length_replicate]
  have hpiece : ((utf8 (maskedText (mask s))).drop (byteCount p)).take g.raw.utf8Size =
      utf8 g.text := by
    rw [hgs, maskedText_append, maskedText_cons, utf8_append, utf8_append, ← hcount, ← length_utf8,
      List.drop_left, ← hsize, List.take_left]
  rw [hpiece]
  exact htext.imp_right And.right

/-- Each byte of the source and what it is masked as. -/
theorem forall₂_utf8 (s : List Char) :
    List.Forall₂ MaskedByte (utf8 s) (utf8 (maskedText (mask s))) := by
  have hglyphs := forall₂_maskedByte (faithful_maskFrom .code s) (code_of_feed .code s)
  rwa [map_raw_maskFrom] at hglyphs

theorem exists_maskedByte {bs ms : List UInt8} (h : List.Forall₂ MaskedByte bs ms)
    (hb : bs[i]? = some b) : ∃ m, ms[i]? = some m ∧ MaskedByte b m := by
  induction h generalizing i with
  | nil => simp at hb
  | cons hhead _ ih =>
    cases i with
    | zero =>
      obtain rfl := Option.some.inj hb
      exact ⟨_, rfl, hhead⟩
    | succ i => exact ih hb

theorem getElem?_feed_iff {bs ms : List UInt8} (h : List.Forall₂ MaskedByte bs ms) (i : Nat) :
    ms[i]? = some '\n'.toUInt8 ↔ bs[i]? = some '\n'.toUInt8 := by
  rcases hb : bs[i]? with _ | b
  · have hlen : ms.length ≤ i := h.length_eq ▸ List.getElem?_eq_none_iff.1 hb
    rw [List.getElem?_eq_none hlen]
  · obtain ⟨m, hm, rfl | ⟨hfeed, rfl⟩⟩ := exists_maskedByte h hb
    · rw [hm]
    · rw [hm, Option.some.injEq, Option.some.injEq]
      exact iff_of_false (by decide) hfeed

theorem masks_maskedText (source : String) :
    Masks source (String.ofList (maskedText (mask source.toList))) where
  size := by
    have hcount : byteCount (maskedText (mask source.toList)) = byteCount source.toList := by
      rw [← length_utf8, ← length_utf8, (forall₂_utf8 source.toList).length_eq]
    rw [← byteCount_toList, String.toList_ofList, hcount, byteCount_toList]
  feeds i := by
    rw [String.toList_ofList]
    exact getElem?_feed_iff (forall₂_utf8 source.toList) i
  bytes i b hb := by
    rw [String.toList_ofList]
    obtain ⟨m, hm, rfl | ⟨-, rfl⟩⟩ := exists_maskedByte (forall₂_utf8 source.toList) hb
    · exact .inl hm
    · exact .inr hm
  characters p c r hp := by
    rw [String.toList_ofList]
    exact take_drop_maskedText hp
  boundaries _ h := isValid_maskedText h
  ascii i b hb hlt := by
    obtain ⟨p, r, hp, rfl⟩ := exists_append_of_getElem?_utf8 hb hlt
    have hvalid := isValid_byteCount hp
    exact ⟨hvalid, isValid_maskedText hvalid⟩

/-- The bytes that the cursor makes of any source are those of a text, which masks the source: it is
the text of the glyphs, and what `repair` would make of bytes that are no text does not matter. -/
theorem maskedSource_masks (repair : ByteArray → String) (source : String) :
    (maskedUtf8 source).IsValidUTF8 ∧
    maskedSource repair source = String.ofList (maskedText (mask source.toList)) ∧
    utf8 (maskedSource repair source).toList = maskBytes (utf8 source.toList) ∧
    Masks source (maskedSource repair source) := by
  have hmasked : maskedSource repair source = String.ofList (maskedText (mask source.toList)) := by
    rw [maskedSource, fromUTF8?_maskedUtf8, Option.getD_some]
  refine ⟨?_, hmasked, ?_, ?_⟩
  · rw [maskedUtf8, maskBytes_utf8]
    exact ByteArray.isValidUTF8_utf8Encode
  · rw [hmasked, String.toList_ofList, maskBytes_utf8]
  · rw [hmasked]
    exact masks_maskedText source

/-- A backslash before a character of two bytes in a literal that nothing closes. -/
theorem maskedSource_masks_unclosed :
    maskedSource (fun _ => "") "c = '\\é\n\"" = "c = '   \n\"" ∧
    Masks "c = '\\é\n\"" (maskedSource (fun _ => "") "c = '\\é\n\"") := by
  obtain ⟨-, htext, -, hmasks⟩ := maskedSource_masks (fun _ => "") "c = '\\é\n\""
  exact ⟨htext.trans (by decide +kernel), hmasks⟩

end Companion.Java
