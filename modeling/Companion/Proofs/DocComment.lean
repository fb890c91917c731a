import Companion.Java.Scan
import Mathlib.Data.List.Infix
import Mathlib.Tactic.ByContra

/-!
# The documentation comment before a keyword

A declaration reaches back to the last semicolon or brace of the code. The documentation comment
before it starts at the last copy of its opening in that reach (`docComment?_eq`).
-/

namespace Companion.Java

open Text

variable {s t rest : List Char} {c z : Char}

theorem fromLast?_append {p : List Char} (h : fromLast? p t = some rest) (s : List Char) :
    fromLast? p (s ++ t) = some rest := by
  induction s with
  | nil => exact h
  | cons c s ih => rw [List.cons_append, fromLast?, ih]

theorem fromLast?_cons_of_ne {p : List Char} (h : fromLast? (z :: p) s = none) (hc : c ≠ z) :
    fromLast? (z :: p) (c :: s) = none := by
  rw [fromLast?, h]
  exact if_neg (by simp [hc.symm])

theorem fromLast?_of_not_mem {p : List Char} (h : z ∉ s) : fromLast? (z :: p) s = none := by
  induction s with
  | nil => rfl
  | cons c s ih =>
    simp only [List.mem_cons, not_or] at h
    exact fromLast?_cons_of_ne (ih h.2) (Ne.symm h.1)

theorem fromLast?_self {p : List Char} (h : fromLast? (z :: p) (p ++ s) = none) :
    fromLast? (z :: p) (z :: p ++ s) = some (z :: p ++ s) := by
  rw [List.cons_append, fromLast?, h]
  exact if_pos (by simp)

/-- The comment closes at its end. -/
theorem breakOn?_comment (h : ¬"*/".toList <:+: s) (rest : List Char) :
    breakOn? "*/".toList (s ++ ("*/".toList ++ rest)) = some (s, rest) := by
  induction s with
  | nil => rfl
  | cons c s ih =>
    have hs : ¬"*/".toList <:+: s := fun hs => h (hs.trans (List.suffix_cons c s).isInfix)
    have hpiece : afterPiece? "*/".toList (c :: (s ++ ("*/".toList ++ rest))) = none := by
      by_contra hsome
      obtain ⟨r, hr⟩ := Option.ne_none_iff_exists'.1 hsome
      have heq : c :: (s ++ ("*/".toList ++ rest)) = '*' :: '/' :: r := afterPiece?_eq_some_iff.1 hr
      rcases s with _ | ⟨d, s⟩
      · simp at heq
      · simp only [List.cons_append, List.cons.injEq] at heq
        exact h ⟨[], s, by rw [heq.1, heq.2.1]; rfl⟩
    rw [List.cons_append, breakOn?, hpiece, ih hs]
    rfl

def scannedTags (before : List Glyph) : List Tag :=
  ((docComment? before).map docTags).getD []

/-- The glyph does not end the reach of a declaration. -/
def inReach (g : Glyph) : Bool :=
  !(g.code == ';' || g.code == '\x7b' || g.code == '\x7d')

theorem docComment?_eq (before : List Glyph) :
    docComment? before =
      (fromLast? "/**".toList ((before.takeWhile inReach).reverse.map Glyph.raw)).bind fun text =>
        (breakOn? "*/".toList text).map fun x => x.1 ++ "*/".toList := by
  unfold docComment?
  extract_lets reach
  split
  · rename_i heq
    have hnone : fromLast? "/**".toList ((before.takeWhile inReach).reverse.map Glyph.raw) = none :=
      heq
    rw [hnone]
    rfl
  · rename_i text heq
    have hsome : fromLast? "/**".toList ((before.takeWhile inReach).reverse.map Glyph.raw) =
        some text := heq
    rw [hsome]
    rfl

end Companion.Java
