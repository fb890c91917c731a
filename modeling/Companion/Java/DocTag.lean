import Companion.Declaration

/-!
# Block tags of documentation comments

A line `@name value` starts a tag, and the text lines up to the next tag belong to its value. The
items `key="value"`, `key='value'` and `key=value` in a value are the tag's parameters.
-/

namespace Companion.Java

open Unicode (isBlank isWordChar isAlphanumeric)
open Text

inductive DocLine where
  | tag (name value : List Char)
  | text (content : List Char)
  deriving DecidableEq, Repr

def isTagNameChar (c : Char) : Bool :=
  isAlphanumeric c || c == '_' || c == '-'

/-- Reads a line whose leading star is gone: a tag if it starts with `@` and a name that ends at
white space or at the end of the line. -/
def DocLine.ofContent (line : List Char) : DocLine :=
  match line with
  | '@' :: rest =>
    let name := rest.takeWhile (!isBlank ·)
    if !name.isEmpty && name.all isTagNameChar then
      .tag name (trim (rest.dropWhile (!isBlank ·)))
    else .text line
  | _ => .text line

/-- Reads a line of a comment. One star at its start is decoration. -/
def DocLine.ofLine (line : List Char) : DocLine :=
  match trimStart line with
  | '*' :: rest => .ofContent (trim rest)
  | line => .ofContent (trim line)

def isKeyChar (c : Char) : Bool :=
  isWordChar c || c == '.' || c == '-'

def quotedValue? (quote : Char) (text : List Char) : Option (List Char × List Char) :=
  match text with
  | [] => none
  | c :: cs =>
    if c = quote then
      match cs.dropWhile (· != quote) with
      | [] => none
      | _ :: rest => some (cs.takeWhile (· != quote), rest)
    else none

/-- The value at the start of a text and the text after it: quoted, or all up to white space. -/
def paramValue? (text : List Char) : Option (List Char × List Char) :=
  ((quotedValue? '"' text).or (quotedValue? '\'' text)).or <|
    let bare := text.takeWhile (!isBlank ·)
    if bare.isEmpty then none else some (bare, text.dropWhile (!isBlank ·))

/-- The equals sign and the value after a key, with the text after them. -/
def paramAfterKey? (text : List Char) : Option (List Char × List Char) :=
  match trimStart text with
  | '=' :: rest => paramValue? (trimStart rest)
  | _ => none

theorem length_trimStart_le (s : List Char) : (trimStart s).length ≤ s.length :=
  (List.dropWhile_suffix _).length_le

theorem length_lt_of_quotedValue? {q : Char} {s v r : List Char}
    (h : quotedValue? q s = some (v, r)) : r.length < s.length := by
  unfold quotedValue? at h
  split at h
  · simp at h
  · split at h
    · split at h
      · simp at h
      · rename_i cs _ _ _ rest heq
        have := (List.dropWhile_suffix (l := cs) (· != q)).length_le
        simp only [Option.some.injEq, Prod.mk.injEq] at h
        rw [heq] at this
        simp only [List.length_cons] at this ⊢
        rw [← h.2]
        omega
    · simp at h

theorem length_le_of_paramValue? {s v r : List Char} (h : paramValue? s = some (v, r)) :
    r.length ≤ s.length := by
  unfold paramValue? at h
  rcases hd : quotedValue? '"' s with _ | ⟨v', r'⟩
  · rcases hq : quotedValue? '\'' s with _ | ⟨v', r'⟩
    · simp only [hd, hq, Option.or_none, Option.none_or] at h
      split at h
      · simp at h
      · simp only [Option.some.injEq, Prod.mk.injEq] at h
        rw [← h.2]
        exact (List.dropWhile_suffix _).length_le
    · simp only [hd, hq, Option.none_or, Option.some_or, Option.some.injEq, Prod.mk.injEq] at h
      rw [← h.2]
      exact Nat.le_of_lt (length_lt_of_quotedValue? hq)
  · simp only [hd, Option.some_or, Option.some.injEq, Prod.mk.injEq] at h
    rw [← h.2]
    exact Nat.le_of_lt (length_lt_of_quotedValue? hd)

theorem length_lt_of_paramAfterKey? {s v r : List Char} (h : paramAfterKey? s = some (v, r)) :
    r.length < s.length := by
  unfold paramAfterKey? at h
  split at h
  · rename_i rest heq
    have h₁ := length_trimStart_le s
    have h₂ := length_trimStart_le rest
    have h₃ := length_le_of_paramValue? h
    rw [heq] at h₁
    simp only [List.length_cons] at h₁
    omega
  · simp at h

/-- The parameters named in a value, in order. -/
def namedParams (text : List Char) : List (List Char × List Char) :=
  match text with
  | [] => []
  | c :: cs =>
    if isKeyChar c then
      let rest := cs.dropWhile isKeyChar
      match _h : paramAfterKey? rest with
      | some (value, after) => (c :: cs.takeWhile isKeyChar, value) :: namedParams after
      | none => namedParams rest
    else namedParams cs
termination_by text.length
decreasing_by
  · have := length_lt_of_paramAfterKey? _h
    have := (List.dropWhile_suffix (l := cs) isKeyChar).length_le
    simp only [rest, List.length_cons] at *
    omega
  · have := (List.dropWhile_suffix (l := cs) isKeyChar).length_le
    simp only [rest, List.length_cons] at *
    omega
  · simp

def tagOf (name value : List Char) : Tag :=
  let params := (namedParams value).foldl
    (fun ps (k, v) => Tag.Params.insert (String.ofList k) (String.ofList v) ps) Tag.Params.empty
  ⟨String.ofList name, String.ofList value, params.1, params.2⟩

/-- Puts a line in front of the lines below it, which are read as the text lines before their first
tag and their tags. -/
def DocLine.above : DocLine → List (List Char) × List Tag → List (List Char) × List Tag
  | .text content, (texts, tags) => (content :: texts, tags)
  | .tag name value, (texts, tags) =>
    ([], tagOf name (join [' '] ((value :: texts).filter (!·.isEmpty))) :: tags)

def docInner (doc : List Char) : List Char :=
  dropSuffixes ['*', '/'] (dropPrefixes ['/', '*', '*'] doc)

def docTags (doc : List Char) : List Tag :=
  (((lines (docInner doc)).map DocLine.ofLine).foldr DocLine.above ([], [])).2

end Companion.Java
