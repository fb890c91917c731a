import Companion.Proofs.Keywords
import Companion.Proofs.Lexemes

/-!
# Escapes in text blocks

In a text block a backslash takes the next character with it, as in a string. The scanner looks for
the next three quotes only. So a source of tokens has the mask of its tokens if no text block holds
three quotes in a row, escaped or not, with those that close it, and only then; its class names are
then those of the code before and behind each block (`mask_of_tokens`). Otherwise the first block
that does ends too early, and what follows in it is taken for code (`scan_escaped`).
-/

namespace Companion.Java

open Unicode (isWordChar)

/-- The text goes on to the end of a text block. A backslash takes the next character with it. -/
def isBlockInside : List Char → Bool
  | [] => true
  | '\\' :: _ :: cs => isBlockInside cs
  | c :: cs =>
    c != '\\' && !(['"', '"', '"'].isPrefixOf (c :: cs ++ ['"', '"'])) && isBlockInside cs

namespace Lexeme

/-- The lexeme ends where the language ends it when the text follows it. -/
def Ends (rest : List Char) : Lexeme → Prop
  | textBlock s => isBlockInside s
  | x => x.Complete rest

/-- Three quotes in a row stand in the text block, with two of those that close it. -/
def HoldsQuotes : Lexeme → Prop
  | textBlock s => ['"', '"', '"'] <:+: s ++ ['"', '"']
  | _ => False

instance decidableEnds (rest : List Char) : (x : Lexeme) → Decidable (x.Ends rest)
  | textBlock s => inferInstanceAs (Decidable (isBlockInside s))
  | code s => decidableComplete rest (code s)
  | lineComment s => decidableComplete rest (lineComment s)
  | blockComment s => decidableComplete rest (blockComment s)
  | literal q s => decidableComplete rest (literal q s)

instance decidableHoldsQuotes : DecidablePred HoldsQuotes
  | textBlock s => inferInstanceAs (Decidable (['"', '"', '"'] <:+: s ++ ['"', '"']))
  | code _ | lineComment _ | blockComment _ | literal _ _ => inferInstanceAs (Decidable False)

end Lexeme

/-- Each lexeme ends where the language ends it with the text of those after it. -/
def Tokens : List Lexeme → Prop
  | [] => True
  | x :: xs => x.Ends (textOf xs) ∧ Tokens xs

instance decidableTokens : (xs : List Lexeme) → Decidable (Tokens xs)
  | [] => inferInstanceAs (Decidable True)
  | x :: xs =>
    have := decidableTokens xs
    inferInstanceAs (Decidable (x.Ends (textOf xs) ∧ Tokens xs))

/-- What is to be seen of lexemes. -/
def seenOf (xs : List Lexeme) : List Glyph :=
  glyphsOf (xs.flatMap Lexeme.segments)

variable {s t rest : List Char} {x : Lexeme} {xs ys zs : List Lexeme}

theorem mask_code (h : (Lexeme.code s).Complete rest) :
    mask (s ++ rest) = glyphsOf (s.map .code) ++ mask rest := by
  induction s with
  | nil => rfl
  | cons c s ih =>
    obtain ⟨hc, hs⟩ := complete_code_cons h
    have hfirst : mask (c :: (s ++ rest)) = (Segment.code c).glyphs ++ mask (s ++ rest) :=
      mask_append hc
    rw [List.cons_append, hfirst, ih hs, List.map_cons, glyphsOf, glyphsOf, List.flatMap_cons,
      List.append_assoc]

theorem mask_segment {y : Segment} (hx : x.segments = [y]) (hy : y.Complete rest) :
    mask (x.text ++ rest) = glyphsOf x.segments ++ mask rest := by
  rw [← sourceOf_segments, hx, sourceOf, glyphsOf, List.flatMap_singleton, List.flatMap_singleton,
    mask_append hy]

/-- A lexeme is seen as it is to be seen, whatever follows it. -/
theorem mask_text_append (h : x.Ends rest) (hx : ¬x.HoldsQuotes) :
    mask (x.text ++ rest) = glyphsOf x.segments ++ mask rest := by
  cases x with
  | code s => exact mask_code h
  | textBlock s => exact mask_segment rfl hx
  | _ => exact mask_segment rfl h

/-- The first place of a text in another. -/
theorem exists_first_infix {w t : List Char} (hw : w ≠ []) (h : w <:+: t) :
    ∃ u v, t = u ++ (w ++ v) ∧ ¬w <:+: u ++ w.dropLast := by
  induction t with
  | nil => exact absurd (List.infix_nil.1 h) hw
  | cons c t ih =>
    by_cases hpre : w <+: c :: t
    · obtain ⟨v, hv⟩ := hpre
      refine ⟨[], v, hv.symm, fun hin => ?_⟩
      have hlength := hin.length_le
      have hpos := List.length_pos_of_ne_nil hw
      rw [List.nil_append, List.length_dropLast] at hlength
      omega
    · obtain ⟨u, v, rfl, hu⟩ := ih ((List.infix_cons_iff.1 h).resolve_left hpre)
      refine ⟨c :: u, v, rfl, fun hin => ?_⟩
      rcases List.infix_cons_iff.1 hin with hstart | hin
      · have hlast : u ++ w.dropLast <+: u ++ (w ++ v) := (List.prefix_append_right_inj u).2
          ((List.dropLast_prefix w).trans (List.prefix_append w v))
        exact hpre (hstart.trans (List.cons_prefix_cons.2 ⟨rfl, hlast⟩))
      · exact hu hin

/-- A text block that holds three quotes in a row ends at the first of them, and what follows these
is code. -/
theorem mask_block_append (h : (Lexeme.textBlock s).HoldsQuotes) :
    ∃ u v t, s = u ++ '"' :: v ∧ (Lexeme.textBlock s).text = (Lexeme.textBlock u).text ++ t ∧
      ∀ rest, mask ((Lexeme.textBlock s).text ++ rest) =
        glyphsOf (Lexeme.textBlock u).segments ++ mask (t ++ rest) := by
  obtain ⟨u, v, hs, hu⟩ := exists_first_infix (by decide) h
  have hlength := congrArg List.length hs
  simp only [List.length_append, List.length_cons, List.length_nil] at hlength
  rcases List.append_eq_append_iff.1 hs with ⟨a, rfl, -⟩ | ⟨a, rfl, ha⟩
  · simp only [List.length_append] at hlength
    omega
  · rcases a with _ | ⟨c, a⟩
    · simp only [List.append_nil] at hlength
      omega
    · obtain ⟨rfl, ha⟩ := List.cons.inj ha
      have hquotes : a ++ ['"', '"', '"'] = '"' :: '"' :: (v ++ ['"']) := by
        have := congrArg (· ++ ['"']) ha
        simpa using this.symm
      have htext : (Lexeme.textBlock (u ++ '"' :: a)).text =
          (Lexeme.textBlock u).text ++ (v ++ ['"']) := by
        simp [Lexeme.text, hquotes]
      refine ⟨u, a, v ++ ['"'], rfl, htext, fun rest => ?_⟩
      have hfirst : (Segment.textBlock u).Complete ((v ++ ['"']) ++ rest) := hu
      rw [htext, List.append_assoc]
      exact mask_segment rfl hfirst

theorem blanked_append (s t : List Char) :
    Lexeme.blanked (s ++ t) = Lexeme.blanked s ++ Lexeme.blanked t := by
  rw [Lexeme.blanked, utf8_append, List.map_append, Lexeme.blanked, Lexeme.blanked]

/-- Where the block ends too early a quote is seen for a space. -/
theorem utf8_mask_block_ne (h : (Lexeme.textBlock s).HoldsQuotes) (rest : List Char)
    (bs : List UInt8) :
    utf8 (maskedText (mask ((Lexeme.textBlock s).text ++ rest))) ≠
      (Lexeme.textBlock s).masked ++ bs := by
  obtain ⟨u, v, t, rfl, -, hmask⟩ := mask_block_append h
  have hquote : utf8 "\"\"\"".toList = '"'.toUInt8 :: utf8 ['"', '"'] := by decide
  have hblank : Lexeme.blanked ('"' :: v) = ' '.toUInt8 :: Lexeme.blanked v :=
    blanked_append ['"'] v
  rw [hmask, utf8_maskedText_append, utf8_maskedText_segments, Lexeme.masked, Lexeme.masked,
    blanked_append, hblank]
  intro heq
  simp only [List.append_assoc] at heq
  have hbehind := List.append_cancel_left (List.append_cancel_left heq)
  rw [hquote, List.cons_append, List.cons_append] at hbehind
  exact absurd (List.cons.inj hbehind).1 (by decide)

/-- The mask is that of the tokens exactly if no text block holds three quotes in a row. -/
theorem maskBytes_tokens_iff (h : Tokens xs) :
    maskBytes (utf8 (textOf xs)) = xs.flatMap Lexeme.masked ↔ ∀ x ∈ xs, ¬x.HoldsQuotes := by
  rw [maskBytes_utf8]
  induction xs with
  | nil => simp [textOf, mask, maskFrom, maskedText, utf8]
  | cons x xs ih =>
    have htext : textOf (x :: xs) = x.text ++ textOf xs := List.flatMap_cons
    rw [htext, List.flatMap_cons, List.forall_mem_cons]
    by_cases hx : x.HoldsQuotes
    · refine iff_of_false ?_ fun hall => hall.1 hx
      cases x with
      | textBlock s => exact utf8_mask_block_ne hx _ _
      | _ => exact absurd hx not_false
    · rw [mask_text_append h.1 hx, utf8_maskedText_append, utf8_maskedText_segments,
        List.append_cancel_left_eq, ih h.2, and_iff_right hx]

theorem seenOf_append (xs ys : List Lexeme) : seenOf (xs ++ ys) = seenOf xs ++ seenOf ys := by
  rw [seenOf, List.flatMap_append, glyphsOf, List.flatMap_append]
  rfl

theorem seenOf_cons (x : Lexeme) (xs : List Lexeme) :
    seenOf (x :: xs) = glyphsOf x.segments ++ seenOf xs := by
  rw [seenOf, List.flatMap_cons, glyphsOf, List.flatMap_append]
  rfl

theorem seenOf_singleton (x : Lexeme) : seenOf [x] = glyphsOf x.segments := by
  rw [seenOf, List.flatMap_singleton]

/-- The tokens up to the first block that ends too early are seen as they are to be seen. -/
theorem mask_textOf_append (h : Tokens (ys ++ zs)) (hys : ∀ y ∈ ys, ¬y.HoldsQuotes) :
    mask (textOf (ys ++ zs)) = seenOf ys ++ mask (textOf zs) := by
  induction ys with
  | nil => rfl
  | cons y ys ih =>
    obtain ⟨hy, hys⟩ := List.forall_mem_cons.1 hys
    have htext : textOf (y :: (ys ++ zs)) = y.text ++ textOf (ys ++ zs) := List.flatMap_cons
    have hfirst : y.Ends (textOf (ys ++ zs)) := h.1
    rw [List.cons_append, htext, mask_text_append hfirst hy, ih h.2 hys, seenOf_cons,
      List.append_assoc]

theorem mask_tokens (h : Tokens xs) (hxs : ∀ x ∈ xs, ¬x.HoldsQuotes) :
    mask (textOf xs) = seenOf xs := by
  have hmask : mask (textOf (xs ++ [])) = seenOf xs ++ mask (textOf []) :=
    mask_textOf_append (by rwa [List.append_nil]) hxs
  rw [List.append_nil] at hmask
  exact hmask.trans (List.append_nil _)

theorem isCover_of_mem_block {g : Glyph} (h : g ∈ seenOf [.textBlock s]) : isCover g.code := by
  have hquote : isCover (Glyph.keep '"').code := by decide
  have hblock : seenOf [.textBlock s] = .keep '"' :: .keep '"' :: .keep '"' ::
      (s.map .blank ++ [.keep '"', .keep '"', .keep '"']) := List.append_nil _
  rw [hblock] at h
  simp only [List.mem_cons, List.mem_append, List.not_mem_nil, or_false] at h
  rcases h with rfl | rfl | rfl | h | rfl | rfl | rfl
  case inr.inr.inr.inl => exact isCover_of_mem_map_blank h
  all_goals exact hquote

/-- No class keyword stands in what is seen of a text block. -/
theorem classNamesFrom_block (before gs : List Glyph) :
    classNamesFrom before (seenOf [.textBlock s] ++ gs) =
      classNamesFrom ((seenOf [.textBlock s]).reverse ++ before) gs := by
  have hword : ∀ c, isCover c → isWordChar c = false := by
    simp only [isCover, Bool.or_eq_true, beq_iff_eq]
    rintro c (((rfl | rfl) | rfl) | rfl) <;> decide
  have hcodes : ∀ c ∈ (seenOf [.textBlock s]).map Glyph.code, isWordChar c = false := by
    rw [List.forall_mem_map]
    exact fun g hg => hword _ (isCover_of_mem_block hg)
  exact classNamesFrom_append_of_lacks (lacks_of_no_word (by decide) hcodes)
    fun c hc => hcodes c (List.mem_of_getLast? hc)

/-- A text block is passed over, and the class names are those before and behind it. -/
theorem classNames_block (gs hs : List Glyph) :
    classNames (gs ++ (seenOf [.textBlock s] ++ hs)) =
      (classNames gs).map (.between [] (seenOf [.textBlock s] ++ hs)) ++
        (classNames hs).map (.between (gs ++ seenOf [.textBlock s]).reverse []) := by
  obtain ⟨bs, hbs⟩ : ∃ bs, seenOf [.textBlock s] = .keep '"' :: bs := ⟨_, rfl⟩
  obtain ⟨rs, hrs⟩ : ∃ rs, (gs ++ seenOf [.textBlock s]).reverse = .keep '"' :: rs := by
    have hlast : seenOf [.textBlock s] = .keep '"' :: .keep '"' :: .keep '"' ::
        (s.map .blank ++ [.keep '"', .keep '"', .keep '"']) := List.append_nil _
    rw [hlast]
    simp
  have hahead : classNamesFrom [] (gs ++ .keep '"' :: (bs ++ hs)) =
      (classNamesFrom [] gs).map (.between [] (.keep '"' :: (bs ++ hs))) ++
        classNamesFrom (gs.reverse ++ []) (.keep '"' :: (bs ++ hs)) :=
    classNamesFrom_ahead (by decide) (by decide)
  have hbehind : classNamesFrom ([] ++ .keep '"' :: rs) hs =
      (classNamesFrom [] hs).map (.between (.keep '"' :: rs) []) :=
    classNamesFrom_behind fun _ g hg => by
      obtain rfl : Glyph.keep '"' = g := by simpa using hg
      decide
  have hsplit : classNamesFrom [] (gs ++ (seenOf [.textBlock s] ++ hs)) =
      (classNamesFrom [] gs).map (.between [] (seenOf [.textBlock s] ++ hs)) ++
        (classNamesFrom [] hs).map (.between (gs ++ seenOf [.textBlock s]).reverse []) := by
    rw [hrs, ← hbehind, List.nil_append, ← hrs, List.reverse_append, ← classNamesFrom_block, hbs]
    simpa using hahead
  have hliteral (n : ClassName) : (n.between [] (seenOf [.textBlock s] ++ hs)).isLiteral =
      n.isLiteral := by
    simp [ClassName.isLiteral, ClassName.between]
  have hliteral' (n : ClassName) :
      (n.between (gs ++ seenOf [.textBlock s]).reverse []).isLiteral = n.isLiteral := by
    rw [hrs]
    exact isLiteral_between (by decide) (by decide) n
  rw [classNames, hsplit, List.filter_append, List.filter_map, List.filter_map]
  simp only [Function.comp_def, hliteral, hliteral']
  rfl

/-- The mask of tokens is right if no text block holds three quotes in a row, and only then. The
class names are then those of the code before and behind each text block. The first block that does
hold three quotes ends at these, and what follows them is code. -/
theorem mask_of_tokens (h : Tokens xs) :
    (maskBytes (utf8 (textOf xs)) = xs.flatMap Lexeme.masked ↔ ∀ x ∈ xs, ¬x.HoldsQuotes) ∧
      ∀ ys s zs, xs = ys ++ .textBlock s :: zs →
        ((∀ x ∈ xs, ¬x.HoldsQuotes) → classNames (mask (textOf xs)) =
          (classNames (seenOf ys)).map (.between [] (seenOf (.textBlock s :: zs))) ++
            (classNames (seenOf zs)).map (.between (seenOf (ys ++ [.textBlock s])).reverse [])) ∧
        ((∀ y ∈ ys, ¬y.HoldsQuotes) → (Lexeme.textBlock s).HoldsQuotes →
          ∃ u v t, s = u ++ '"' :: v ∧ (Lexeme.textBlock s).text = (Lexeme.textBlock u).text ++ t ∧
            mask (textOf xs) = seenOf (ys ++ [.textBlock u]) ++ mask (t ++ textOf zs)) := by
  refine ⟨maskBytes_tokens_iff h, ?_⟩
  rintro ys s zs rfl
  have hcons (s : List Char) (zs : List Lexeme) :
      seenOf (.textBlock s :: zs) = seenOf [.textBlock s] ++ seenOf zs := seenOf_append [_] zs
  refine ⟨fun hxs => ?_, fun hys hs => ?_⟩
  · rw [mask_tokens h hxs, seenOf_append, seenOf_append, hcons]
    exact classNames_block (seenOf ys) (seenOf zs)
  · obtain ⟨u, v, t, hsplit, htext, hmask⟩ := mask_block_append hs
    have hzs : textOf (.textBlock s :: zs) = (Lexeme.textBlock s).text ++ textOf zs :=
      List.flatMap_cons
    refine ⟨u, v, t, hsplit, htext, ?_⟩
    rw [mask_textOf_append h hys, hzs, hmask, seenOf_append, seenOf_singleton, List.append_assoc]

def quoted : List Lexeme :=
  [.code "class A \x7b String s = ".toList, .textBlock "\n\\\"x\\\"y".toList,
    .code "; \x7d class B \x7b\x7d".toList]

theorem mask_of_tokens_quoted : Tokens quoted ∧
    maskBytes (utf8 (textOf quoted)) = quoted.flatMap Lexeme.masked := by
  have h : Tokens quoted := by decide +kernel
  exact ⟨h, (mask_of_tokens h).1.2 (by decide +kernel)⟩

/-- Three quotes of which the first is escaped. -/
def escaped : List Lexeme :=
  [.code "class A \x7b String s = ".toList,
    .textBlock "\n\\\"\"\" class B \x7b\x7d ".toList, .code "; \x7d class C \x7b\x7d".toList]

/-- What follows an escaped quote in a text block is taken for a class, and the classes around the
block are lost. -/
theorem scan_escaped : Tokens escaped ∧
    maskBytes (utf8 (textOf escaped)) ≠ escaped.flatMap Lexeme.masked ∧
    scan none (String.ofList (textOf escaped)) = .ok [⟨"", "B", none, [], [], [], none⟩] := by
  refine ⟨by decide +kernel, by decide +kernel, by decide +kernel⟩

end Companion.Java
