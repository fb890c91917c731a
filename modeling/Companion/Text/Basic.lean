import Companion.Unicode.Property

/-!
# Texts as lists of characters

Trimming, words, lines and the search for a piece of a text. White space is Unicode's throughout.
-/

namespace Companion.Text

open Unicode (isBlank)

/-- What holds of every character of a text is decided on the text, not over all characters. -/
instance (priority := high) decidableForallMem (p : Char → Prop) [DecidablePred p]
    (s : List Char) : Decidable (∀ c ∈ s, p c) :=
  List.decidableBAll p s

/-- As for texts. -/
instance (priority := high) decidableForallMemOption (p : Char → Prop) [DecidablePred p]
    (o : Option Char) : Decidable (∀ c ∈ o, p c) :=
  Option.decidableForallMem o

def trimStart (s : List Char) : List Char :=
  s.dropWhile isBlank

def trimEnd (s : List Char) : List Char :=
  (s.reverse.dropWhile isBlank).reverse

theorem trimEnd_isPrefix (s : List Char) : trimEnd s <+: s := by
  rw [← List.reverse_suffix, trimEnd, List.reverse_reverse]
  exact List.dropWhile_suffix isBlank

def trim (s : List Char) : List Char :=
  trimEnd (trimStart s)

/-- The number of bytes that the text takes in UTF-8. -/
def byteCount : List Char → Nat
  | [] => 0
  | c :: cs => c.utf8Size + byteCount cs

def consFirst (c : Char) : List (List Char) → List (List Char)
  | [] => [[c]]
  | p :: ps => (c :: p) :: ps

/-- The longest pieces free of white space. -/
def words : List Char → List (List Char)
  | [] => []
  | [c] => if isBlank c then [] else [[c]]
  | c :: d :: cs =>
    if isBlank c then words (d :: cs)
    else if isBlank d then [c] :: words (d :: cs)
    else consFirst c (words (d :: cs))

/-- The lines of a text, without what ends them: a line feed and, before it, at most one carriage
return. Text after the last line feed is a line unless it is empty. -/
def lines (s : List Char) : List (List Char) :=
  match (s.splitOn '\n').reverse with
  | [] => []
  | last :: ended =>
    let ended := ended.reverse.map fun l => if l.getLast? = some '\r' then l.dropLast else l
    if last.isEmpty then ended else ended ++ [last]

/-- The text after the piece that it starts with. -/
def afterPiece? : List Char → List Char → Option (List Char)
  | [], s => some s
  | _ :: _, [] => none
  | p :: ps, c :: cs => if p = c then afterPiece? ps cs else none

theorem afterPiece?_eq_some_iff {p s r : List Char} : afterPiece? p s = some r ↔ s = p ++ r := by
  induction p generalizing s with
  | nil => simp [afterPiece?]
  | cons a p ih =>
    cases s with
    | nil => simp [afterPiece?]
    | cons c s =>
      simp only [afterPiece?, List.cons_append, List.cons.injEq]
      split
      · rename_i h
        simp [ih, h]
      · rename_i h
        simp [Ne.symm h]

/-- The text without all copies of the nonempty piece `p` that it starts with. -/
def dropPrefixes (p : List Char) (s : List Char) : List Char :=
  if _h : p ≠ [] ∧ p.isPrefixOf s then dropPrefixes p (s.drop p.length) else s
termination_by s.length
decreasing_by
  have := List.length_pos_iff.2 _h.1
  have := (List.isPrefixOf_iff_prefix.1 _h.2).length_le
  simp only [List.length_drop]
  omega

theorem dropPrefixes_suffix (p s : List Char) : dropPrefixes p s <:+ s := by
  fun_induction dropPrefixes p s with
  | case1 s _ ih => exact ih.trans (List.drop_suffix _ _)
  | case2 s => exact List.suffix_refl s

/-- The text without all copies of the nonempty piece `p` that it ends with. -/
def dropSuffixes (p : List Char) (s : List Char) : List Char :=
  (dropPrefixes p.reverse s.reverse).reverse

theorem dropSuffixes_isPrefix (p s : List Char) : dropSuffixes p s <+: s := by
  rw [← List.reverse_suffix, dropSuffixes, List.reverse_reverse]
  exact dropPrefixes_suffix _ _

/-- The text before the first copy of `p` and the text after it. -/
def breakOn? (p : List Char) : List Char → Option (List Char × List Char)
  | [] => if p.isEmpty then some ([], []) else none
  | c :: cs =>
    match afterPiece? p (c :: cs) with
    | some rest => some ([], rest)
    | none => (breakOn? p cs).map fun (before, rest) => (c :: before, rest)

/-- The text from the last copy of the piece `p` on. -/
def fromLast? (p : List Char) : List Char → Option (List Char)
  | [] => if p.isEmpty then some [] else none
  | c :: cs =>
    match fromLast? p cs with
    | some rest => some rest
    | none => if p.isPrefixOf (c :: cs) then some (c :: cs) else none

def join (sep : List Char) (pieces : List (List Char)) : List Char :=
  sep.intercalate pieces

/-- A word boundary: of the characters on both sides exactly one belongs to words. -/
def isBoundary (before after : Option Char) : Bool :=
  before.any Unicode.isWordChar != after.any Unicode.isWordChar

def trimString (s : String) : String :=
  String.ofList (trim s.toList)

end Companion.Text
