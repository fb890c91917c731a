import Companion.Proofs.TypeReading
import Companion.Proofs.TypeSpacing
import Mathlib.Data.Fintype.Basic

/-!
# The tokens of parameters

A parameter is written as the tokens of its type and its name, with white space behind each of them
or, unless two words would run together, none (`Formal`). The normal layout of a type has a space
between two of its tokens where their kinds ask for one, or leave the white space as it is
(`normalizeType_written`). The kinds that may follow each other in a type are few
(`Spells.chained`), and its commas stand inside of its angle brackets (`Spells.shape`).
-/

namespace Companion.Java

open Syntax (Bracketed IsOuter bracketed_of_forall unangled_isOuter)
open Text
open Unicode (isBlank)

/-- The marks that stand between words. -/
def isMark (c : Char) : Bool :=
  ['<', '>', '[', ']', '(', ')', ',', '.', '?', '@'].contains c

/-- An identifier or a keyword, but not the modifier of parameters. No white space and no mark
belongs to it. -/
structure Word where
  text : List Char
  ne : text ≠ []
  chars : ∀ c ∈ text, isBlank c = false ∧ isMark c = false
  free : text ≠ "final".toList

/-- The kinds of tokens in the type of a parameter. -/
inductive TokenKind where
  | word
  | dot
  | dots
  | any
  | less | greater | left | right | comma
  deriving DecidableEq

namespace TokenKind

instance : Fintype TokenKind where
  elems := {word, dot, dots, any, less, greater, left, right, comma}
  complete a := by cases a <;> decide

/-- The token closes up to what stands before it. -/
def closes : TokenKind → Bool
  | less | greater | left | right | comma => true
  | _ => false

/-- What stands behind the token closes up to it. -/
def opens : TokenKind → Bool
  | less | left | comma => true
  | _ => false

/-- The normal layout has a space between the tokens, where white space stood between them or
not. -/
def spaced (a : TokenKind) (blank : Bool) (b : TokenKind) : Bool :=
  !b.closes && (a == comma || blank && !a.opens)

/-- The layout with single spaces has one between the tokens: behind commas, and between words,
where the wildcard counts as one. -/
def parts : TokenKind → TokenKind → Bool
  | comma, _ | any, word | word, word => true
  | _, _ => false

/-- White space between the tokens, or none, leaves the layout with single spaces: some stands
behind a wildcard with a bound, and none at a dot. -/
def keeps (a : TokenKind) (blank : Bool) (b : TokenKind) : Bool :=
  match a, b with
  | any, word => blank
  | dot, _ | _, dot | _, dots => !blank
  | _, _ => true

/-- A type may end in the token. -/
def endsType : TokenKind → Bool
  | word | greater | right => true
  | _ => false

/-- The second token may come behind the first one in the type of a parameter. -/
def follows : TokenKind → TokenKind → Bool
  | a, word => [word, dot, any, less, comma].contains a
  | a, any => [less, comma].contains a
  | a, dot | a, dots => a.endsType
  | a, _ => a != dot

end TokenKind

inductive TypeToken where
  | word (w : Word)
  | dot | dots | any | less | greater | left | right | comma

namespace TypeToken

def kind : TypeToken → TokenKind
  | word _ => .word
  | dot => .dot
  | dots => .dots
  | any => .any
  | less => .less
  | greater => .greater
  | left => .left
  | right => .right
  | comma => .comma

def text : TypeToken → List Char
  | word w => w.text
  | dot => ['.']
  | dots => ['.', '.', '.']
  | any => ['?']
  | less => ['<']
  | greater => ['>']
  | left => ['[']
  | right => [']']
  | comma => [',']

end TypeToken

/-- The parts of a parameter's type. -/
inductive Part where
  | name | classType | type | argument | arguments | parameter

namespace Part

def starts : Part → TokenKind → Bool
  | argument, .any | arguments, .any => true
  | _, t => t == .word

def ends : Part → TokenKind → Bool
  | argument, .any | arguments, .any | parameter, .dots => true
  | _, t => t.endsType

end Part

/-- The tokens spell the part of a type. -/
inductive Spells : Part → List TypeToken → Prop where
  | word (w : Word) : Spells .name [.word w]
  | member {ts : List TypeToken} (h : Spells .classType ts) (w : Word) :
    Spells .name (ts ++ [.dot, .word w])
  | raw {ts : List TypeToken} (h : Spells .name ts) : Spells .classType ts
  | applied {ts us : List TypeToken} (h : Spells .name ts) (hu : Spells .arguments us) :
    Spells .classType (ts ++ .less :: (us ++ [.greater]))
  | single {ts : List TypeToken} (h : Spells .classType ts) : Spells .type ts
  | array {ts : List TypeToken} (h : Spells .type ts) : Spells .type (ts ++ [.left, .right])
  | exact {ts : List TypeToken} (h : Spells .type ts) : Spells .argument ts
  | wildcard : Spells .argument [.any]
  | bounded {ts : List TypeToken} {w : Word}
    (hw : w.text = "extends".toList ∨ w.text = "super".toList) (h : Spells .type ts) :
    Spells .argument (.any :: .word w :: ts)
  | one {ts : List TypeToken} (h : Spells .argument ts) : Spells .arguments ts
  | more {ts us : List TypeToken} (h : Spells .arguments ts) (hu : Spells .argument us) :
    Spells .arguments (ts ++ .comma :: us)
  | fixed {ts : List TypeToken} (h : Spells .type ts) : Spells .parameter ts
  | variadic {ts : List TypeToken} (h : Spells .type ts) : Spells .parameter (ts ++ [.dots])

/-- A token and the white space behind it. -/
structure Piece where
  token : TypeToken
  gap : Blanks

def Piece.parted (p : Piece) : Bool :=
  !p.gap.text.isEmpty

/-- Words do not run together. -/
def Parted (p q : Piece) : Prop :=
  p.token.kind = .word → q.token.kind = .word → p.parted

/-- The layout with single spaces is kept between the tokens. -/
def Kept (p q : Piece) : Prop :=
  p.token.kind.keeps p.parted q.token.kind

/-- A formal parameter as it is written: white space, the modifier `final` if it is there, the type
and the name. -/
structure Formal where
  lead : Blanks
  modifier : Option Blanks
  type : List Piece
  name : Word
  trail : Blanks
  spells : Spells .parameter (type.map Piece.token)
  modified : ∀ g ∈ modifier, g.text ≠ []
  parted : List.IsChain Parted (type ++ [⟨.word name, trail⟩])

def written (ps : List Piece) : List Char :=
  ps.flatMap fun p => p.token.text ++ p.gap.text

namespace Formal

def modifierText (f : Formal) : List Char :=
  match f.modifier with
  | none => []
  | some g => "final".toList ++ g.text

def text (f : Formal) : List Char :=
  f.lead.text ++ (f.modifierText ++ (written f.type ++ (f.name.text ++ f.trail.text)))

end Formal

variable {a b t : TypeToken} {ts us : List TypeToken} {p q : Piece} {ps qs : List Piece} {k : Part}
  {c : Char}

namespace TypeToken

def last : TypeToken → Char
  | word w => w.text.getLast w.ne
  | dot | dots => '.'
  | any => '?'
  | less => '<'
  | greater => '>'
  | left => '['
  | right => ']'
  | comma => ','

theorem closesUp_of_not_isMark (h : isMark c = false) : closesUp c = false ∧ opensUp c = false := by
  simp only [isMark, closesUp, opensUp, List.contains_eq_mem, decide_eq_false_iff_not,
    List.mem_cons, List.not_mem_nil, or_false, not_or] at h ⊢
  simp [h]

/-- A token starts with a character that closes up if the token does, and nothing in it closes up
behind that. -/
theorem exists_text_eq_cons (t : TypeToken) : ∃ d s, t.text = d :: s ∧ isBlank d = false ∧
    closesUp d = t.kind.closes ∧ (d = ',' → s = []) ∧
    (∀ x ∈ s, isBlank x = false ∧ closesUp x = false) ∧
    (d :: s).getLast (List.cons_ne_nil d s) = t.last := by
  cases t with
  | word w =>
    obtain ⟨d, s, hs⟩ := List.exists_cons_of_ne_nil w.ne
    have hchars := w.chars
    rw [hs, List.forall_mem_cons] at hchars
    obtain ⟨⟨hblank, hmark⟩, hchars⟩ := hchars
    refine ⟨d, s, hs, hblank, (closesUp_of_not_isMark hmark).1, ?_, fun x hx =>
      ⟨(hchars x hx).1, (closesUp_of_not_isMark (hchars x hx).2).1⟩, by simp [last, hs]⟩
    rintro rfl
    exact absurd hmark (by decide)
  | _ => exact ⟨_, _, rfl, by decide, by decide, by decide, by decide, by decide⟩

/-- Whether something closes up to a token is seen at its last character. -/
theorem opensUp_last (t : TypeToken) :
    opensUp t.last = t.kind.opens ∧ (t.last = ',' ↔ t.kind = .comma) := by
  cases t with
  | word w =>
    have hmark := (w.chars _ (List.getLast_mem w.ne)).2
    have hne : w.text.getLast w.ne ≠ ',' := fun h => absurd (h ▸ hmark) (by decide)
    exact ⟨(closesUp_of_not_isMark hmark).2, iff_of_false hne TokenKind.noConfusion⟩
  | _ => decide

end TypeToken

def spaceIf (b : Bool) : List Char :=
  if b then [' '] else []

theorem spacedFrom_token (a b : TypeToken) (blank : Bool) (rest : List Char) :
    spacedFrom a.last blank (b.text ++ rest) =
      spaceIf (a.kind.spaced blank b.kind) ++ (b.text ++ spacedFrom b.last false rest) := by
  obtain ⟨d, s, htext, hblank, hclose, hcomma, hs, hlast⟩ := b.exists_text_eq_cons
  obtain ⟨hopen, hiff⟩ := a.opensUp_last
  have hspacing : spacing a.last blank d = spaceIf (a.kind.spaced blank b.kind) := by
    rw [spacing, hclose, hopen, spaceIf, TokenKind.spaced]
    simp only [hiff]
    generalize a.kind = x, b.kind = y
    revert x y blank
    decide
  rw [htext, List.cons_append, spacedFrom, if_neg (by simp [hblank]), hspacing,
    spacedFrom_append hcomma hs, hlast, List.cons_append]

/-- The normal layout of the tokens behind a first one. -/
def shownBehind : Piece → List Piece → List Char
  | _, [] => []
  | p, q :: ps =>
    spaceIf (p.token.kind.spaced p.parted q.token.kind) ++ (q.token.text ++ shownBehind q ps)

/-- The normal layout of tokens. White space behind the last one is left out. -/
def shown : List Piece → List Char
  | [] => []
  | p :: ps => p.token.text ++ shownBehind p ps

theorem spacedFrom_written (h : ∀ q ∈ (p :: ps).getLast?, q.token.kind ≠ .comma) :
    spacedFrom p.token.last false (p.gap.text ++ written ps) = shownBehind p ps := by
  rw [spacedFrom_append_of_blank p.gap.blank, Bool.false_or]
  induction ps generalizing p with
  | nil =>
    rw [written, List.flatMap_nil, spacedFrom, if_neg (p.token.opensUp_last.2.not.2 (h p rfl)),
      shownBehind]
  | cons q ps ih =>
    have hcons : written (q :: ps) = q.token.text ++ (q.gap.text ++ written ps) := by
      simp [written]
    have hrest := ih (p := q) (by simpa using h)
    rw [hcons, spacedFrom_token, spacedFrom_append_of_blank q.gap.blank, Bool.false_or, hrest]
    rfl

theorem normalizeType_written (h : ∀ q ∈ ps.getLast?, q.token.kind ≠ .comma) :
    normalizeType (written ps) = shown ps := by
  rcases ps with _ | ⟨p, ps⟩
  · rfl
  · obtain ⟨d, s, htext, hblank, -, hcomma, hs, hlast⟩ := p.token.exists_text_eq_cons
    have hcons : written (p :: ps) = d :: (s ++ (p.gap.text ++ written ps)) := by
      simp [written, htext]
    rw [hcons, normalizeType_cons hblank, spacedFrom_append hcomma hs, hlast,
      spacedFrom_written h, shown, htext]
    rfl

/-- The tokens may come one behind the other, and these are the kinds at their ends. -/
structure Chained (starts ends : TokenKind → Bool) (ts : List TypeToken) : Prop where
  ne : ts ≠ []
  chain : ts.IsChain fun a b => a.kind.follows b.kind
  first : ∀ t ∈ ts.head?, starts t.kind
  last : ∀ t ∈ ts.getLast?, ends t.kind

variable {s s' e e' : TokenKind → Bool}

theorem chained_singleton (t : TypeToken) {a : TokenKind} (h : t.kind = a) :
    Chained (· == a) (· == a) [t] where
  ne := by simp
  chain := List.isChain_singleton t
  first := by simp [h]
  last := by simp [h]

theorem Chained.append (hx : Chained s e ts) (hy : Chained s' e' us)
    (h : ∀ a b, e a → s' b → a.follows b) : Chained s e' (ts ++ us) where
  ne := by simp [hx.ne]
  chain := hx.chain.append hy.chain fun a ha b hb => h _ _ (hx.last a ha) (hy.first b hb)
  first t ht := by
    rw [List.head?_append_of_ne_nil _ hx.ne] at ht
    exact hx.first t ht
  last t ht := by
    rw [List.getLast?_append_of_ne_nil _ hy.ne] at ht
    exact hy.last t ht

theorem Chained.mono (h : Chained s e ts) (hs : ∀ t, s t → s' t) (he : ∀ t, e t → e' t) :
    Chained s' e' ts :=
  ⟨h.ne, h.chain, fun t ht => hs _ (h.first t ht), fun t ht => he _ (h.last t ht)⟩

theorem Spells.chained (h : Spells k ts) : Chained k.starts k.ends ts := by
  induction h with
  | word w => exact (chained_singleton (a := .word) (.word w) rfl).mono (by decide) (by decide)
  | member _ w ih =>
    have hword := chained_singleton (a := .word) (.word w) rfl
    have hmember := (chained_singleton .dot rfl).append hword (by decide)
    exact (ih.append hmember (by decide)).mono (by decide) (by decide)
  | raw _ ih => exact ih.mono (by decide) (by decide)
  | applied _ _ ih ihu =>
    have harguments := (chained_singleton .less rfl).append
      (ihu.append (chained_singleton .greater rfl) (by decide)) (by decide)
    exact (ih.append harguments (by decide)).mono (by decide) (by decide)
  | single _ ih => exact ih.mono (by decide) (by decide)
  | array _ ih =>
    have hright := chained_singleton .right rfl
    have hbrackets := (chained_singleton .left rfl).append hright (by decide)
    exact (ih.append hbrackets (by decide)).mono (by decide) (by decide)
  | exact _ ih => exact ih.mono (by decide) (by decide)
  | wildcard => exact (chained_singleton .any rfl).mono (by decide) (by decide)
  | @bounded ts w _ _ ih =>
    have hbound := (chained_singleton (a := .word) (.word w) rfl).append ih (by decide)
    exact ((chained_singleton .any rfl).append hbound (by decide)).mono (by decide) (by decide)
  | one _ ih => exact ih.mono (by decide) (by decide)
  | more _ _ ih ihu =>
    exact (ih.append ((chained_singleton .comma rfl).append ihu (by decide)) (by decide)).mono
      (by decide) (by decide)
  | fixed _ ih => exact ih.mono (by decide) (by decide)
  | variadic _ ih =>
    exact (ih.append (chained_singleton .dots rfl) (by decide)).mono (by decide) (by decide)

theorem written_append (ps qs : List Piece) : written (ps ++ qs) = written ps ++ written qs :=
  List.flatMap_append

theorem written_cons (p : Piece) (ps : List Piece) :
    written (p :: ps) = p.token.text ++ (p.gap.text ++ written ps) := by
  simp [written]

/-- The angle brackets of the text match, and unless it is one of type arguments it has commas only
inside of them. -/
def Part.Shape (s : List Char) : Part → Prop
  | argument | arguments => Balanced '<' '>' 0 s
  | _ => Bracketed IsOuter s

/-- White space and the characters of words stand outside of brackets. -/
theorem isOuter_of_isBlank (h : isBlank c) : IsOuter c := by
  intro hmem
  simp only [List.mem_cons, List.not_mem_nil, or_false] at hmem
  rcases hmem with rfl | rfl | rfl <;> exact absurd h (by decide)

theorem isOuter_of_not_isMark (h : isMark c = false) : IsOuter c := by
  intro hmem
  simp only [List.mem_cons, List.not_mem_nil, or_false] at hmem
  rcases hmem with rfl | rfl | rfl <;> exact absurd h (by decide)

theorem Blanks.bracketed (g : Blanks) : Bracketed IsOuter g.text :=
  bracketed_of_forall fun c hc => isOuter_of_isBlank (g.blank c hc)

/-- Tokens other than angle brackets and commas stand outside of brackets. -/
theorem bracketed_written (hps : ps.map Piece.token = ts)
    (h : ∀ t ∈ ts, t.kind ∉ [.less, .greater, .comma]) : Bracketed IsOuter (written ps) := by
  induction ps generalizing ts with
  | nil => exact .nil
  | cons p ps ih =>
    subst hps
    obtain ⟨hp, hps⟩ := List.forall_mem_cons.1 h
    have htoken : Bracketed IsOuter p.token.text := by
      obtain ⟨t, g⟩ := p
      cases t with
      | word w => exact bracketed_of_forall fun c hc => isOuter_of_not_isMark (w.chars c hc).2
      | less | greater | comma => simp [TypeToken.kind] at hp
      | _ => exact bracketed_of_forall (by simp [TypeToken.text, IsOuter])
    rw [written_cons]
    exact htoken.append (p.gap.bracketed.append (ih rfl hps))

theorem Spells.shape (h : Spells k ts) (hps : ps.map Piece.token = ts) : k.Shape (written ps) := by
  induction h generalizing ps with
  | word w => exact bracketed_written hps (by simp [TypeToken.kind])
  | member _ w ih =>
    obtain ⟨qs, rs, rfl, hq, hr⟩ := List.map_eq_append_iff.1 hps
    rw [written_append]
    exact (ih hq).append (bracketed_written hr (by simp [TypeToken.kind]))
  | raw _ ih => exact ih hps
  | applied _ _ ih ihu =>
    obtain ⟨qs, ls, rfl, hq, hls⟩ := List.map_eq_append_iff.1 hps
    obtain ⟨l, rs, rfl, hl, hrs⟩ := List.map_eq_cons_iff.1 hls
    obtain ⟨vs, gs, rfl, hv, hgs⟩ := List.map_eq_append_iff.1 hrs
    obtain ⟨g, rfl, hg⟩ := List.map_eq_singleton_iff.1 hgs
    have hparts : written (qs ++ l :: (vs ++ [g])) =
        written qs ++ '<' :: ((l.gap.text ++ written vs) ++ '>' :: g.gap.text) := by
      rw [written_append, written_cons, written_append, written_cons, hl, hg]
      simp [TypeToken.text, written]
    rw [hparts]
    exact (ih hq).append (.angle ((l.gap.bracketed.balanced unangled_isOuter).append (ihu hv))
      g.gap.bracketed)
  | single _ ih => exact ih hps
  | array _ ih =>
    obtain ⟨qs, rs, rfl, hq, hr⟩ := List.map_eq_append_iff.1 hps
    rw [written_append]
    exact (ih hq).append (bracketed_written hr (by simp [TypeToken.kind]))
  | exact _ ih => exact (ih hps).balanced unangled_isOuter
  | wildcard =>
    exact (bracketed_written hps (by simp [TypeToken.kind])).balanced unangled_isOuter
  | @bounded ts w _ _ ih =>
    have hparts : ps.map Piece.token = [.any, .word w] ++ ts := hps
    obtain ⟨qs, rs, rfl, hq, hr⟩ := List.map_eq_append_iff.1 hparts
    rw [written_append]
    exact ((bracketed_written hq (by simp [TypeToken.kind])).append (ih hr)).balanced
      unangled_isOuter
  | one _ ih => exact ih hps
  | more _ _ ih ihu =>
    obtain ⟨qs, rs, rfl, hq, hr⟩ := List.map_eq_append_iff.1 hps
    obtain ⟨m, rs, rfl, hm, hr⟩ := List.map_eq_cons_iff.1 hr
    rw [written_append, written_cons, hm]
    exact (ih hq).append ((balanced_of_not_mem (by decide) (by decide)).append
      ((m.gap.bracketed.balanced unangled_isOuter).append (ihu hr)))
  | fixed _ ih => exact ih hps
  | variadic _ ih =>
    obtain ⟨qs, rs, rfl, hq, hr⟩ := List.map_eq_append_iff.1 hps
    rw [written_append]
    exact (ih hq).append (bracketed_written hr (by simp [TypeToken.kind]))

/-- No round bracket and no at sign stands in the text of tokens. -/
theorem not_mem_written (hc : c ∈ ['(', ')', '@']) : c ∉ written ps := by
  induction ps with
  | nil => simp [written]
  | cons p ps ih =>
    have hmarks : ∀ d ∈ ['(', ')', '@'], isBlank d = false ∧ isMark d := by decide
    obtain ⟨hblank, hmark⟩ := hmarks c hc
    have hgap : c ∉ p.gap.text := fun h => by
      rw [p.gap.blank c h] at hblank
      cases hblank
    have htoken : c ∉ p.token.text := by
      obtain ⟨t, g⟩ := p
      cases t with
      | word w =>
        intro h
        rw [(w.chars c h).2] at hmark
        cases hmark
      | _ =>
        simp only [List.mem_cons, List.not_mem_nil, or_false] at hc
        rcases hc with rfl | rfl | rfl <;> simp [TypeToken.text]
    simp [written_cons, hgap, htoken, ih]

end Companion.Java
