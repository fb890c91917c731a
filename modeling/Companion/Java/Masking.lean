import Companion.Text.Basic

/-!
# Masking

The scanner reads a source with its comments and the insides of its literals blanked. Every
character stays in its place: a glyph pairs it with what the scanner sees of it, so that the
text of a documentation comment can be read back from where the blanked text was.
-/

namespace Companion.Java

/-- A character of a source and what the scanner sees of it. -/
structure Glyph where
  raw : Char
  code : Char
  deriving DecidableEq, Repr

namespace Glyph

def keep (c : Char) : Glyph := ⟨c, c⟩

/-- A character of a comment or inside a literal. Only line feeds are seen. -/
def blank (c : Char) : Glyph := ⟨c, if c = '\n' then c else ' '⟩

end Glyph

/-- Where a character of a source stands. -/
inductive Region where
  | code
  | lineComment
  | blockComment
  | textBlock
  /-- Inside a literal that the quote ends. -/
  | literal (quote : Char)
  deriving DecidableEq, Repr

/-- Masks a text whose first character stands in the region. A literal ends at its quote or at
the end of its line; a backslash takes the next character with it, but not in a text block. -/
def maskFrom : Region → List Char → List Glyph
  | _, [] => []
  | .code, '/' :: '/' :: cs => .blank '/' :: .blank '/' :: maskFrom .lineComment cs
  | .code, '/' :: '*' :: cs => .blank '/' :: .blank '*' :: maskFrom .blockComment cs
  | .code, '"' :: '"' :: '"' :: cs => .keep '"' :: .keep '"' :: .keep '"' :: maskFrom .textBlock cs
  | .code, c :: cs =>
    .keep c :: maskFrom (if c = '"' ∨ c = '\'' then .literal c else .code) cs
  | .lineComment, c :: cs =>
    if c = '\n' then .keep c :: maskFrom .code cs else .blank c :: maskFrom .lineComment cs
  | .blockComment, '*' :: '/' :: cs => .blank '*' :: .blank '/' :: maskFrom .code cs
  | .blockComment, c :: cs => .blank c :: maskFrom .blockComment cs
  | .textBlock, '"' :: '"' :: '"' :: cs => .keep '"' :: .keep '"' :: .keep '"' :: maskFrom .code cs
  | .textBlock, c :: cs => .blank c :: maskFrom .textBlock cs
  | .literal q, '\\' :: c :: cs => .blank '\\' :: .blank c :: maskFrom (.literal q) cs
  | .literal q, c :: cs =>
    if c = q ∨ c = '\n' then .keep c :: maskFrom .code cs
    else .blank c :: maskFrom (.literal q) cs

def mask (source : List Char) : List Glyph :=
  maskFrom .code source

/-- The masked source as text of the same size in UTF-8: a blanked character is as many spaces as
it has bytes. -/
def maskedText (glyphs : List Glyph) : List Char :=
  glyphs.flatMap fun g =>
    if g.code = ' ' then List.replicate g.raw.utf8Size ' ' else [g.code]

end Companion.Java
