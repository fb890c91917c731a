import Companion.Java.Masking
import Mathlib.Tactic.SplitIfs

/-!
# Masking by bytes

The mask of a source as a cursor over its bytes makes it. A stretch of the source is found by the
bytes that open and close it: some bytes are copied, some blanked, some copied again, and the cursor
goes on after them. It may stop inside a character, as it does after a backslash.
-/

namespace Companion.Java

def utf8 (s : List Char) : List UInt8 :=
  s.flatMap String.utf8EncodeChar

namespace ByteMask

def delimiter (s : String) : List UInt8 :=
  utf8 s.toList

/-- Blanks bytes. Line feeds stay. -/
def blank (bs : List UInt8) : List UInt8 :=
  bs.map fun b => if b = '\n'.toUInt8 then b else ' '.toUInt8

def offsetOf? (piece : List UInt8) : List UInt8 → Option Nat
  | [] => none
  | b :: bs =>
    if piece.isPrefixOf (b :: bs) then some 0 else (offsetOf? piece bs).map (1 + ·)

/-- How far the quote or the line feed is that ends a literal. A backslash takes the next byte with
it, past the end of the source if there is none. -/
def literalSize (quote : UInt8) : List UInt8 → Nat
  | [] => 0
  | [b] => if b = quote ∨ b = '\n'.toUInt8 then 0 else if b = '\\'.toUInt8 then 2 else 1
  | b :: c :: bs =>
    if b = quote ∨ b = '\n'.toUInt8 then 0
    else if b = '\\'.toUInt8 then 2 + literalSize quote bs
    else 1 + literalSize quote (c :: bs)

structure Stretch where
  opening : Nat
  blanked : Nat
  closing : Nat
  deriving DecidableEq, Repr

/-- A comment up to the end of its line, from its first slash or from inside it. -/
def lineComment (bs : List UInt8) : Stretch :=
  ⟨0, (offsetOf? (delimiter "\n") bs).getD bs.length, 0⟩

/-- A comment in slashes and stars, of which the first `passed` bytes do not close it. -/
def blockComment (passed : Nat) (bs : List UInt8) : Stretch :=
  ⟨0, ((offsetOf? (delimiter "*/") (bs.drop passed)).map (passed + 2 + ·)).getD bs.length, 0⟩

def textBlock (opening : Nat) (bs : List UInt8) : Stretch :=
  match offsetOf? (delimiter "\"\"\"") (bs.drop opening) with
  | some n => ⟨opening, n, 3⟩
  | none => ⟨opening, (bs.drop opening).length, 0⟩

def literal (opening : Nat) (quote : UInt8) (bs : List UInt8) : Stretch :=
  ⟨opening, literalSize quote (bs.drop opening), 1⟩

/-- The stretch that starts at the cursor. Outside of comments and literals it is one byte. -/
def stretchAt (bs : List UInt8) : Stretch :=
  if (delimiter "//").isPrefixOf bs then lineComment bs
  else if (delimiter "/*").isPrefixOf bs then blockComment 2 bs
  else if (delimiter "\"\"\"").isPrefixOf bs then textBlock 3 bs
  else if (delimiter "\"").isPrefixOf bs then literal 1 '"'.toUInt8 bs
  else if (delimiter "'").isPrefixOf bs then literal 1 '\''.toUInt8 bs
  else ⟨1, 0, 0⟩

namespace Stretch

def size (s : Stretch) : Nat :=
  s.opening + (s.blanked + s.closing)

def masked (s : Stretch) (bs : List UInt8) : List UInt8 :=
  bs.take s.opening ++ (blank ((bs.drop s.opening).take s.blanked) ++
    (bs.drop (s.opening + s.blanked)).take s.closing)

end Stretch

/-- A comment opens with a slash, so its line does not end there. -/
theorem size_lineComment_pos {b : UInt8} {bs : List UInt8}
    (h : (delimiter "//").isPrefixOf (b :: bs)) : 0 < (lineComment (b :: bs)).size := by
  have hslash : delimiter "//" = ['/'.toUInt8, '/'.toUInt8] := by decide
  have hfeed : (delimiter "\n").isPrefixOf ('/'.toUInt8 :: bs) = false := by
    rw [show delimiter "\n" = ['\n'.toUInt8] by decide, List.isPrefixOf_cons_cons]
    rfl
  rw [hslash, List.isPrefixOf_cons_cons, Bool.and_eq_true, beq_iff_eq] at h
  rw [← h.1, lineComment, Stretch.size, offsetOf?, hfeed]
  rcases offsetOf? (delimiter "\n") bs with _ | n
  · simp
  · simp only [Bool.false_eq_true, if_false, Option.map_some, Option.getD_some]
    omega

theorem size_stretchAt_pos {b : UInt8} {bs : List UInt8} : 0 < (stretchAt (b :: bs)).size := by
  unfold stretchAt
  split_ifs with h
  · exact size_lineComment_pos h
  · unfold blockComment Stretch.size
    rcases offsetOf? (delimiter "*/") ((b :: bs).drop 2) with _ | n
    · simp
    · exact Nat.add_pos_right 0 (Nat.add_pos_left (Nat.add_pos_left (by decide) n) 0)
  · unfold textBlock
    rcases offsetOf? (delimiter "\"\"\"") ((b :: bs).drop 3) with _ | n
    · exact Nat.add_pos_left (Nat.succ_pos _) _
    · exact Nat.add_pos_left (Nat.succ_pos _) _
  all_goals exact Nat.add_pos_left (Nat.succ_pos _) _

end ByteMask

def maskBytes : List UInt8 → List UInt8
  | [] => []
  | b :: bs =>
    let s := ByteMask.stretchAt (b :: bs)
    s.masked (b :: bs) ++ maskBytes ((b :: bs).drop s.size)
termination_by bs => bs.length
decreasing_by
  have : 0 < (ByteMask.stretchAt (b :: bs)).size := ByteMask.size_stretchAt_pos
  simp only [List.length_drop, List.length_cons]
  omega

end Companion.Java
