import Companion.Proofs.ByteMasking
import Companion.Proofs.Segments

/-!
# Masks of lexemes

A source is read as runs of code, comments, literals and text blocks. Where each of them is complete
its mask is theirs, one after the other: code and delimiters are copied, and every other byte is a
space unless it is a line feed (`mask_lexemes`). What a comment or a literal holds does not matter:
quotes, openings of comments and braces in it are blanked, and a character of several bytes is as
many spaces.

A run of code is complete segments (`allComplete_code`), each of which goes on to the next character
of the source.
-/

namespace Companion.Java

inductive Lexeme where
  | code (text : List Char)
  | lineComment (content : List Char)
  | blockComment (content : List Char)
  | literal (quote : Char) (content : List Char)
  | textBlock (content : List Char)
  deriving DecidableEq, Repr

namespace Lexeme

def text : Lexeme → List Char
  | code s => s
  | lineComment s => "//".toList ++ s
  | blockComment s => "/*".toList ++ s ++ "*/".toList
  | literal q s => [q] ++ s ++ [q]
  | textBlock s => "\"\"\"".toList ++ s ++ "\"\"\"".toList

def blanked (s : List Char) : List UInt8 :=
  (utf8 s).map fun b => if b = '\n'.toUInt8 then '\n'.toUInt8 else ' '.toUInt8

def masked : Lexeme → List UInt8
  | code s => utf8 s
  | lineComment s => blanked ("//".toList ++ s)
  | blockComment s => blanked ("/*".toList ++ s ++ "*/".toList)
  | literal q s => utf8 [q] ++ blanked s ++ utf8 [q]
  | textBlock s => utf8 "\"\"\"".toList ++ blanked s ++ utf8 "\"\"\"".toList

/-- The lexeme ends where it does when the text follows it. An empty string that a quote follows
would open a text block. -/
def Complete (rest : List Char) : Lexeme → Prop
  | code s => '"' ∉ s ∧ '\'' ∉ s ∧ ¬"//".toList <:+: s ∧ ¬"/*".toList <:+: s ∧ s.getLast? ≠ some '/'
  | lineComment s => '\n' ∉ s ∧ (rest = [] ∨ rest.head? = some '\n')
  | blockComment s => ¬"*/".toList <:+: s
  | literal q s => (q = '"' ∨ q = '\'') ∧ isInside q s ∧ (q = '"' ∧ s = [] → rest.head? ≠ some '"')
  | textBlock s => ¬"\"\"\"".toList <:+: s ∧ s.getLast? ≠ some '"'

instance decidableComplete (rest : List Char) : (x : Lexeme) → Decidable (x.Complete rest)
  | code s => inferInstanceAs (Decidable ('"' ∉ s ∧ '\'' ∉ s ∧ ¬"//".toList <:+: s ∧
      ¬"/*".toList <:+: s ∧ s.getLast? ≠ some '/'))
  | lineComment s => inferInstanceAs (Decidable ('\n' ∉ s ∧ (rest = [] ∨ rest.head? = some '\n')))
  | blockComment s => inferInstanceAs (Decidable (¬"*/".toList <:+: s))
  | literal q s => inferInstanceAs (Decidable ((q = '"' ∨ q = '\'') ∧ isInside q s ∧
      (q = '"' ∧ s = [] → rest.head? ≠ some '"')))
  | textBlock s => inferInstanceAs (Decidable (¬"\"\"\"".toList <:+: s ∧ s.getLast? ≠ some '"'))

/-- The segments of a lexeme: those of code are its characters. -/
def segments : Lexeme → List Segment
  | code s => s.map .code
  | lineComment s => [.lineComment s]
  | blockComment s => [.blockComment s]
  | literal q s => [.literal q s]
  | textBlock s => [.textBlock s]

end Lexeme

def textOf (xs : List Lexeme) : List Char :=
  xs.flatMap Lexeme.text

/-- Each lexeme ends where it does with the text of those after it. -/
def Lexed : List Lexeme → Prop
  | [] => True
  | x :: xs => x.Complete (textOf xs) ∧ Lexed xs

instance decidableLexed : (xs : List Lexeme) → Decidable (Lexed xs)
  | [] => inferInstanceAs (Decidable True)
  | x :: xs =>
    have := decidableLexed xs
    inferInstanceAs (Decidable (x.Complete (textOf xs) ∧ Lexed xs))

variable {s : List Char} {x : Lexeme} {xs : List Lexeme} {ss : List Segment}

theorem sourceOf_code (s : List Char) : sourceOf (s.map .code) = s := by
  rw [sourceOf, List.flatMap_map]
  exact List.flatMap_singleton' s

theorem sourceOf_segments (x : Lexeme) : sourceOf x.segments = x.text := by
  cases x with
  | code s => exact sourceOf_code s
  | _ => simp [Lexeme.segments, Lexeme.text, sourceOf, Segment.print]

theorem sourceOf_flatMap_segments (xs : List Lexeme) :
    sourceOf (xs.flatMap Lexeme.segments) = textOf xs := by
  induction xs with
  | nil => rfl
  | cons x xs ih =>
    rw [List.flatMap_cons, sourceOf_append, ih, sourceOf_segments, textOf, textOf,
      List.flatMap_cons]

/-- A slash of the code is not the last character of its run, so it opens no comment. -/
theorem complete_code_cons {c : Char} {rest : List Char}
    (h : (Lexeme.code (c :: s)).Complete rest) :
    (Segment.code c).Complete (s ++ rest) ∧ (Lexeme.code s).Complete rest := by
  obtain ⟨hd, hs, hline, hblock, hlast⟩ := h
  simp only [List.mem_cons, not_or] at hd hs
  have htail : ∀ w : List Char, ¬w <:+: c :: s → ¬w <:+: s := fun w h hw =>
    h (hw.trans (List.suffix_cons c s).isInfix)
  have hlast' : s.getLast? ≠ some '/' := fun h => hlast (by rw [List.getLast?_cons, h]; rfl)
  refine ⟨⟨Ne.symm hd.1, Ne.symm hs.1, ?_⟩, hd.2, hs.2, htail _ hline, htail _ hblock, hlast'⟩
  rintro rfl
  rcases s with _ | ⟨e, s⟩
  · exact absurd rfl hlast
  · have hopen {d : Char} (h : ¬['/', d] <:+: '/' :: e :: s) : some e ≠ some d := by
      intro he
      rw [Option.some.inj he] at h
      exact h ⟨[], s, rfl⟩
    exact ⟨hopen hline, hopen hblock⟩

theorem allComplete_code (h : (Lexeme.code s).Complete (sourceOf ss)) (hss : AllComplete ss) :
    AllComplete (s.map .code ++ ss) := by
  induction s with
  | nil => exact hss
  | cons c s ih =>
    obtain ⟨hc, hs⟩ := complete_code_cons h
    have hsource : sourceOf (s.map .code ++ ss) = s ++ sourceOf ss := by
      rw [sourceOf_append, sourceOf_code]
    exact ⟨hsource ▸ hc, ih hs⟩

/-- Three quotes in a text and the two after it are three quotes in the text, or it ends in one. -/
theorem not_infix_append_quotes (h : ¬"\"\"\"".toList <:+: s) (hlast : s.getLast? ≠ some '"') :
    ¬['"', '"', '"'] <:+: s ++ ['"', '"'] := by
  induction s with
  | nil => decide
  | cons c s ih =>
    have hs : ¬"\"\"\"".toList <:+: s := fun hs => h (hs.trans (List.suffix_cons c s).isInfix)
    have hlast' : s.getLast? ≠ some '"' := fun h => hlast (by rw [List.getLast?_cons, h]; rfl)
    rw [List.cons_append, List.infix_cons_iff]
    rintro (hpre | hin)
    · rcases s with _ | ⟨d, _ | ⟨e, s⟩⟩
      · exact hlast (congrArg some (List.cons_prefix_cons.1 hpre).1.symm)
      · simp only [List.cons_append, List.nil_append, List.cons_prefix_cons] at hpre
        exact hlast (congrArg some hpre.2.1.symm)
      · refine h (List.IsPrefix.isInfix ?_)
        simpa [List.cons_prefix_cons] using hpre
    · exact ih hs hlast' hin

theorem allComplete_segments (h : x.Complete (sourceOf ss)) (hss : AllComplete ss) :
    AllComplete (x.segments ++ ss) := by
  cases x with
  | code s => exact allComplete_code h hss
  | textBlock s => exact ⟨not_infix_append_quotes h.1 h.2, hss⟩
  | _ => exact ⟨h, hss⟩

theorem allComplete_flatMap_segments (h : Lexed xs) : AllComplete (xs.flatMap Lexeme.segments) := by
  induction xs with
  | nil => trivial
  | cons x xs ih =>
    rw [List.flatMap_cons]
    refine allComplete_segments ?_ (ih h.2)
    rw [sourceOf_flatMap_segments]
    exact h.1

theorem utf8_maskedText_map_keep (s : List Char) : utf8 (maskedText (s.map .keep)) = utf8 s := by
  induction s with
  | nil => rfl
  | cons c s ih => rw [List.map_cons, utf8_maskedText_keep, ih, utf8_cons]

theorem utf8_maskedText_map_blank (s : List Char) :
    utf8 (maskedText (s.map .blank)) = Lexeme.blanked s := by
  induction s with
  | nil => rfl
  | cons c s ih =>
    rw [List.map_cons, utf8_maskedText_blank, ih, Lexeme.blanked, Lexeme.blanked, utf8_cons,
      List.map_append]
    congr 1
    exact List.map_congr_left fun b _ => by split_ifs with h <;> [exact h; rfl]

theorem utf8_maskedText_append (gs hs : List Glyph) :
    utf8 (maskedText (gs ++ hs)) = utf8 (maskedText gs) ++ utf8 (maskedText hs) := by
  rw [maskedText_append, utf8_append]

theorem utf8_maskedText_quoted (d s : List Char) :
    utf8 (maskedText (d.map .keep ++ s.map .blank ++ d.map .keep)) =
      utf8 d ++ Lexeme.blanked s ++ utf8 d := by
  rw [utf8_maskedText_append, utf8_maskedText_append, utf8_maskedText_map_keep,
    utf8_maskedText_map_blank]

theorem utf8_maskedText_segments (x : Lexeme) :
    utf8 (maskedText (glyphsOf x.segments)) = x.masked := by
  have hsingle (y : Segment) : glyphsOf [y] = y.glyphs := List.append_nil _
  cases x with
  | code s =>
    have hglyphs : glyphsOf (s.map Segment.code) = s.map .keep := by
      rw [glyphsOf, List.flatMap_map]
      exact List.flatMap_pure_eq_map Glyph.keep s
    rw [Lexeme.segments, hglyphs, utf8_maskedText_map_keep, Lexeme.masked]
  | lineComment s =>
    rw [Lexeme.segments, hsingle, Lexeme.masked, ← utf8_maskedText_map_blank]
    rfl
  | blockComment s =>
    rw [Lexeme.segments, hsingle, Lexeme.masked, ← utf8_maskedText_map_blank]
    rfl
  | literal q s =>
    rw [Lexeme.segments, hsingle, Lexeme.masked, ← utf8_maskedText_quoted]
    rfl
  | textBlock s =>
    rw [Lexeme.segments, hsingle, Lexeme.masked, ← utf8_maskedText_quoted]
    rfl

/-- The mask of a source is that of its lexemes. -/
theorem mask_lexemes (h : Lexed xs) :
    utf8 (maskedText (mask (textOf xs))) = xs.flatMap Lexeme.masked ∧
      maskBytes (utf8 (textOf xs)) = xs.flatMap Lexeme.masked := by
  have hmask : utf8 (maskedText (mask (textOf xs))) = xs.flatMap Lexeme.masked := by
    rw [← sourceOf_flatMap_segments, mask_sourceOf (allComplete_flatMap_segments h)]
    clear h
    induction xs with
    | nil => rfl
    | cons x xs ih =>
      rw [List.flatMap_cons, glyphsOf, List.flatMap_append, utf8_maskedText_append, ← glyphsOf,
        ← glyphsOf, ih, utf8_maskedText_segments, List.flatMap_cons]
  exact ⟨hmask, by rw [maskBytes_utf8, hmask]⟩

/-- Quotes in comments, openings of comments in literals, and a backslash before a character of two
bytes. -/
def tangled : List Lexeme :=
  [.code "a / b".toList, .literal '"' "\\é\\\"// \x7b".toList, .code ";".toList,
    .lineComment " it's /* \"".toList, .code "\n".toList, .blockComment "\"\n'//*".toList,
    .textBlock "\"x\" /* \\\n€".toList, .literal '"' [], .literal '\'' "\\'".toList,
    .code "\x7d".toList]

theorem mask_tangled :
    Lexed tangled ∧
      String.ofList (textOf tangled) =
        "a / b\"\\é\\\"// \x7b\";// it's /* \"\n/*\"\n'//**/\"\"\"\"x\" /* \\\n€\"\"\"\"\"'\\''\x7d" ∧
      maskBytes (utf8 (textOf tangled)) =
        utf8 ("a / b\"         \";            \n   \n      \"\"\"        \n   " ++
          "\"\"\"\"\"'  '\x7d").toList := by
  have h : Lexed tangled := by decide +kernel
  exact ⟨h, by decide +kernel, (mask_lexemes h).2.trans (by decide +kernel)⟩

end Companion.Java
