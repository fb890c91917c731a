import Companion.FileSystem.Glob
import Companion.Proofs.JsonScalars
import Mathlib.Data.List.Infix
import Mathlib.Tactic.SplitIfs

/-!
# Patterns of a name

How a text is read as a pattern that matches names: each of its characters, or each class in it, is
a token (`Reads`), but a text of two stars stands for directories (`tokens_eq_ok_iff`). A text
matches itself as a pattern unless a class takes several of its characters for one
(`matchesItself_of_not_mem`, `not_matchesItself_of_mem`), and the pattern of a path can be read if
the patterns of its names can (`tokens_intercalate`).
-/

namespace Companion.Glob

open Json (except_bind_eq_ok)

variable {s t name text : List Char} {ts us : List Token} {token : Token} {c : Char} {k : Nat}
  {before : Option Char}

def isSpecial (c : Char) : Bool :=
  c == '?' || c == '*' || c == '['

/-- The tokens that a text without two stars in a row is read as. Stars in a class do not count. -/
inductive Reads : List Char → List Token → Prop where
  | nil : Reads [] []
  | anyChar {s : List Char} {ts : List Token} (h : Reads s ts) : Reads ('?' :: s) (.anyChar :: ts)
  | anyText {s : List Char} {ts : List Token} (hs : s.head? ≠ some '*') (h : Reads s ts) :
    Reads ('*' :: s) (.anyText :: ts)
  | ofClass {s after : List Char} {token : Token} {ts : List Token}
    (hs : readClass? s = some (token, after)) (h : Reads after ts) : Reads ('[' :: s) (token :: ts)
  | char {c : Char} {s : List Char} {ts : List Token} (hc : isSpecial c = false) (h : Reads s ts) :
    Reads (c :: s) (.char c :: ts)

theorem takeWhile_star (h : s.head? ≠ some '*') : s.takeWhile (· == '*') = [] := by
  cases s with
  | nil => rfl
  | cons c s =>
    rw [List.takeWhile_cons_of_neg]
    simpa using h

theorem Reads.readTokens (h : Reads s ts) (k : Nat) (before : Option Char) :
    readTokens k before s = .ok ts := by
  induction h generalizing k before with
  | nil => rw [Glob.readTokens]
  | anyChar _ ih =>
    rw [Glob.readTokens, ih]
    rfl
  | anyText hs _ ih =>
    rw [Glob.readTokens, takeWhile_star hs, List.isEmpty_nil, if_pos rfl, ih]
    rfl
  | ofClass hs _ ih =>
    rw [Glob.readTokens]
    split
    · rename_i hnone
      rw [hs] at hnone
      cases hnone
    · rename_i token' after' hsome
      obtain ⟨rfl, rfl⟩ := Prod.mk.inj (Option.some.inj (hs.symm.trans hsome))
      rw [ih]
      rfl
  | @char c s ts hc _ ih =>
    simp only [isSpecial, Bool.or_eq_false_iff, beq_eq_false_iff_ne, ne_eq] at hc
    rw [Glob.readTokens]
    · rw [ih]
      rfl
    all_goals simp [hc]

theorem Reads.tokens (h : Reads s ts) : tokens s = .ok ts :=
  h.readTokens 0 none

theorem suffix_of_readClass? {after : List Char} (h : readClass? s = some (token, after)) :
    after <:+ s := by
  have hclose {make : List Specifier → Token} {c : Char} {s : List Char}
      (h : readClass?.close? make c s = some (token, after)) : after <:+ s := by
    unfold readClass?.close? at h
    split at h
    · cases h
    · rename_i x rest heq
      obtain ⟨-, rfl⟩ := Prod.mk.inj (Option.some.inj h)
      exact (List.suffix_cons x rest).trans (heq ▸ List.dropWhile_suffix _)
  unfold readClass? at h
  split at h
  · exact (hclose h).trans ((List.suffix_cons _ _).trans (List.suffix_cons _ _))
  · cases h
  · exact (hclose h).trans (List.suffix_cons _ _)
  · cases h

theorem eq_star (hne : (s.takeWhile (· == '*')).isEmpty ≠ true)
    (hlength : ¬2 ≤ (s.takeWhile (· == '*')).length) (hrest : s.dropWhile (· == '*') = []) :
    s = ['*'] := by
  have hstars : s.takeWhile (· == '*') = s := by
    have happend := List.takeWhile_append_dropWhile (p := (· == '*')) (l := s)
    rwa [hrest, List.append_nil] at happend
  have hall := List.all_takeWhile (p := (· == '*')) (l := s)
  rw [hstars] at hne hlength hall
  rcases s with _ | ⟨c, _ | ⟨d, s⟩⟩
  · exact absurd rfl hne
  · simpa using hall
  · exact absurd (by simp) hlength

/-- Two stars behind a character of the same text are a fault. -/
theorem reads_behind (hc : c ≠ '/')
    (h : Reads s ts ∨ s = ['*', '*'] ∧ ts = [.directories] ∧ (some c = none ∨ some c = some '/')) :
    Reads s ts := by
  rcases h with h | ⟨-, -, h | h⟩
  · exact h
  · cases h
  · exact absurd (Option.some.inj h) hc

/-- A text without slashes that can be read is read by characters and classes, or stands for
directories. -/
theorem reads_of_readTokens (hs : '/' ∉ s) (h : readTokens k before s = .ok ts) :
    Reads s ts ∨ s = ['*', '*'] ∧ ts = [.directories] ∧ (before = none ∨ before = some '/') := by
  fun_induction readTokens k before s generalizing ts with
  | case1 =>
    obtain rfl := Except.ok.inj h
    exact .inl .nil
  | case2 position before rest ih =>
    obtain ⟨us, hus, h⟩ := except_bind_eq_ok.1 h
    obtain rfl := Except.ok.inj h
    exact .inl (.anyChar (reads_behind (by decide) (ih (fun h => hs (.tail _ h)) hus)))
  | case3 position before rest stars hstars =>
    rename_i ih
    obtain ⟨us, hus, h⟩ := except_bind_eq_ok.1 h
    obtain rfl := Except.ok.inj h
    have hrest := reads_behind (by decide) (ih (fun h => hs (.tail _ h)) hus)
    refine .inl (.anyText (fun hhead => ?_) hrest)
    obtain ⟨r, rfl⟩ := List.head?_eq_some_iff.1 hhead
    simp [stars] at hstars
  | case4 | case5 | case8 | case9 => cases h
  | case6 position before rest stars hnil hlength hbefore =>
    rename_i hrest
    obtain rfl := eq_star hnil hlength hrest
    obtain rfl := Except.ok.inj h
    refine .inr ⟨rfl, rfl, ?_⟩
    rcases before with _ | b
    · exact .inl rfl
    · exact .inr (by simpa using hbefore)
  | case7 position before rest stars hnil hlength hbefore more =>
    rename_i hrest ih
    have hmem : '/' ∈ rest := (List.dropWhile_suffix (· == '*')).subset (hrest ▸ List.mem_cons_self)
    exact absurd (List.mem_cons_of_mem _ hmem) hs
  | case10 position before rest token after hclass ih =>
    obtain ⟨us, hus, h⟩ := except_bind_eq_ok.1 h
    obtain rfl := Except.ok.inj h
    have hslash : '/' ∉ after := fun h => hs (.tail _ ((suffix_of_readClass? hclass).subset h))
    exact .inl (.ofClass hclass (reads_behind (by decide) (ih hslash hus)))
  | case11 position before c rest h₁ h₂ h₃ ih =>
    obtain ⟨us, hus, h⟩ := except_bind_eq_ok.1 h
    obtain rfl := Except.ok.inj h
    have hspecial : isSpecial c = false := by
      simp only [isSpecial, Bool.or_eq_false_iff, beq_eq_false_iff_ne, ne_eq]
      exact ⟨⟨h₁, h₂⟩, h₃⟩
    have hslash : c ≠ '/' := fun h => hs (h ▸ List.mem_cons_self)
    exact .inl (.char hspecial (reads_behind hslash (ih (fun h => hs (.tail _ h)) hus)))

/-- The patterns of names. -/
theorem tokens_eq_ok_iff (hs : '/' ∉ s) :
    tokens s = .ok ts ↔ Reads s ts ∨ s = ['*', '*'] ∧ ts = [.directories] := by
  constructor
  · intro h
    exact (reads_of_readTokens hs h).imp_right fun h => ⟨h.1, h.2.1⟩
  · rintro (h | ⟨rfl, rfl⟩)
    · exact h.tokens
    · rw [tokens, readTokens]
      rfl

theorem readClass?_of_ne (hc : c ≠ '!') (s : List Char) :
    readClass? (c :: s) = readClass?.close? .within c s := by
  unfold readClass?
  split
  · rename_i heq
    exact absurd (List.cons.inj heq).1 hc
  · rename_i heq
    exact absurd (List.cons.inj heq).1 hc
  · rename_i heq
    obtain ⟨rfl, rfl⟩ := List.cons.inj heq
    rfl
  · rename_i heq
    cases heq

/-- A class that is closed is read in a longer text too. -/
theorem readClass?_append {after : List Char} (h : readClass? s = some (token, after))
    (t : List Char) : readClass? (s ++ t) = some (token, after ++ t) := by
  have hclose {make : List Specifier → Token} {c : Char} {s : List Char}
      (h : readClass?.close? make c s = some (token, after)) :
      readClass?.close? make c (s ++ t) = some (token, after ++ t) := by
    unfold readClass?.close? at h ⊢
    split at h
    · cases h
    · rename_i x rest heq
      obtain ⟨rfl, rfl⟩ := Prod.mk.inj (Option.some.inj h)
      have hlength : (s.takeWhile (· != ']')).length ≠ s.length := fun hlen => by
        have happend := List.takeWhile_append_dropWhile (p := (· != ']')) (l := s)
        have := congrArg List.length happend
        rw [heq, List.length_append, List.length_cons] at this
        omega
      rw [List.dropWhile_append, if_neg (by simp [heq]), heq, List.takeWhile_append,
        if_neg hlength]
      rfl
  rcases s with _ | ⟨c, s⟩
  · cases h
  · by_cases hc : c = '!'
    · subst hc
      rcases s with _ | ⟨d, s⟩
      · cases h
      · exact hclose h
    · rw [readClass?_of_ne hc] at h
      rw [List.cons_append, readClass?_of_ne hc]
      exact hclose h

theorem Reads.append (h : Reads s ts) (h' : Reads t us) (ht : t.head? ≠ some '*') :
    Reads (s ++ t) (ts ++ us) := by
  induction h with
  | nil => exact h'
  | anyChar _ ih => exact .anyChar ih
  | @anyText s ts hs _ ih =>
    refine .anyText ?_ ih
    cases s with
    | nil => exact ht
    | cons c s => exact hs
  | ofClass hs _ ih => exact .ofClass (readClass?_append hs t) ih
  | char hc _ ih => exact .char hc ih

/-- The pattern of a path is read if those of its names are. -/
theorem exists_reads_intercalate {ps : List (List Char)} (h : ∀ p ∈ ps, ∃ ts, Reads p ts) :
    ∃ ts, Reads (['/'].intercalate ps) ts := by
  induction ps with
  | nil => exact ⟨[], .nil⟩
  | cons p ps ih =>
    obtain ⟨⟨ts, hp⟩, hps⟩ := List.forall_mem_cons.1 h
    rcases ps with _ | ⟨q, ps⟩
    · rw [List.intercalate_singleton]
      exact ⟨ts, hp⟩
    · obtain ⟨us, hus⟩ := ih hps
      have hslash : Reads ('/' :: ['/'].intercalate (q :: ps)) (.char '/' :: us) :=
        .char (by decide) hus
      rw [List.intercalate_cons_cons, List.append_assoc]
      exact ⟨_, hp.append hslash (by simp)⟩

theorem isMatch_cons_one (token : Token) (hany : token ≠ .anyText) (hdir : token ≠ .directories)
    (ts : List Token) (name : List Char) : isMatch (token :: ts) name ↔
      ∃ c cs, name = c :: cs ∧ isMatch.matchesOne token c ∧ isMatch ts cs := by
  rcases name with _ | ⟨c, cs⟩
  · cases token <;> simp [isMatch] at hany hdir ⊢
  · cases token <;> simp [isMatch] at hany hdir ⊢

theorem isMatch_cons_anyText (ts : List Token) (name : List Char) :
    isMatch (.anyText :: ts) name ↔ ∃ before rest, name = before ++ rest ∧ isMatch ts rest := by
  have hrest : isMatch.anyRest ts name ↔
      ∃ before rest, name = before ++ rest ∧ isMatch ts rest := by
    induction name with
    | nil =>
      rw [isMatch.anyRest]
      constructor
      · exact fun h => ⟨[], [], rfl, h⟩
      · rintro ⟨before, rest, heq, h⟩
        obtain ⟨rfl, rfl⟩ := List.append_eq_nil_iff.1 heq.symm
        exact h
    | cons c name ih =>
      rw [isMatch.anyRest, Bool.or_eq_true, ih]
      constructor
      · rintro (h | ⟨before, rest, rfl, h⟩)
        · exact ⟨[], _, rfl, h⟩
        · exact ⟨c :: before, rest, rfl, h⟩
      · rintro ⟨_ | ⟨d, before⟩, rest, heq, h⟩
        · obtain rfl := heq
          exact .inl h
        · obtain ⟨-, rfl⟩ := List.cons.inj heq
          exact .inr ⟨before, rest, rfl, h⟩
  rw [← hrest]
  cases name <;> simp [isMatch]

theorem token_of_readClass? {after : List Char} (h : readClass? s = some (token, after)) :
    ∃ specifiers, token = .within specifiers ∨ token = .except specifiers := by
  have hclose {make : List Specifier → Token} {c : Char} {s : List Char}
      (h : readClass?.close? make c s = some (token, after)) : ∃ x, token = make x := by
    unfold readClass?.close? at h
    split at h
    · cases h
    · exact ⟨_, (Prod.mk.inj (Option.some.inj h)).1.symm⟩
  unfold readClass? at h
  split at h
  · obtain ⟨x, hx⟩ := hclose h
    exact ⟨x, .inr hx⟩
  · cases h
  · obtain ⟨x, hx⟩ := hclose h
    exact ⟨x, .inl hx⟩
  · cases h

theorem Reads.ne_directories (h : Reads s ts) : ts ≠ [.directories] := by
  cases h with
  | ofClass hs _ =>
    obtain ⟨x, rfl | rfl⟩ := token_of_readClass? hs <;> simp
  | _ => simp

theorem isMatch_of_plainText? (h : plainText? ts = some text) : isMatch ts name ↔ name = text := by
  induction ts generalizing text name with
  | nil =>
    obtain rfl := Option.some.inj h
    simp [isMatch]
  | cons token ts ih =>
    cases token with
    | char d =>
      obtain ⟨rest, hrest, rfl⟩ := Option.map_eq_some_iff.1 h
      rw [isMatch_cons_one _ Token.noConfusion Token.noConfusion]
      simp only [ih hrest, isMatch.matchesOne, beq_iff_eq]
      constructor
      · rintro ⟨c, cs, rfl, rfl, rfl⟩
        rfl
      · rintro rfl
        exact ⟨d, rest, rfl, rfl, rfl⟩
    | _ => cases h

/-- Plain text is what it was read from. -/
theorem Reads.eq_of_plainText? (h : Reads s ts) (hp : plainText? ts = some text) : text = s := by
  induction h generalizing text with
  | nil => exact (Option.some.inj hp).symm
  | anyChar | anyText => cases hp
  | ofClass hs _ _ =>
    obtain ⟨x, rfl | rfl⟩ := token_of_readClass? hs <;> cases hp
  | char _ _ ih =>
    obtain ⟨rest, hrest, rfl⟩ := Option.map_eq_some_iff.1 hp
    rw [ih hrest]

theorem reads_map_char (h : ∀ c ∈ s, isSpecial c = false) : Reads s (s.map .char) := by
  induction s with
  | nil => exact .nil
  | cons c s ih =>
    rw [List.forall_mem_cons] at h
    exact .char h.1 (ih h.2)

theorem Reads.eq_map_char (h : Reads s ts) (hs : ∀ c ∈ s, isSpecial c = false) :
    ts = s.map .char :=
  Except.ok.inj (h.tokens.symm.trans (reads_map_char hs).tokens)

theorem plainText?_map_char (s : List Char) : plainText? (s.map .char) = some s := by
  induction s with
  | nil => rfl
  | cons c s ih => rw [List.map_cons, plainText?, ih, Option.map_some]

/-- The text matches itself as a pattern. -/
def MatchesItself (s : List Char) : Prop :=
  ∃ ts, tokens s = .ok ts ∧ isMatch ts s

/-- A text without classes and without two stars in a row matches itself. -/
theorem matchesItself_of_not_mem (h : '[' ∉ s) (hs : ¬['*', '*'] <:+: s) :
    MatchesItself s := by
  have hreads : ∃ ts, Reads s ts ∧ isMatch ts s := by
    induction s with
    | nil => exact ⟨[], .nil, by simp [isMatch]⟩
    | cons c s ih =>
      simp only [List.mem_cons, not_or] at h
      obtain ⟨ts, hts, hmatch⟩ := ih h.2 fun hi => hs (hi.trans (List.suffix_cons c s).isInfix)
      by_cases hany : c = '?'
      · subst hany
        refine ⟨_, .anyChar hts, ?_⟩
        rw [isMatch_cons_one _ Token.noConfusion Token.noConfusion]
        exact ⟨_, s, rfl, rfl, hmatch⟩
      · by_cases hstar : c = '*'
        · subst hstar
          refine ⟨_, .anyText (fun hhead => hs ?_) hts, ?_⟩
          · obtain ⟨r, rfl⟩ := List.head?_eq_some_iff.1 hhead
            exact ⟨[], r, rfl⟩
          · rw [isMatch_cons_anyText]
            exact ⟨['*'], s, rfl, hmatch⟩
        · refine ⟨_, .char ?_ hts, ?_⟩
          · simp [isSpecial, hany, hstar, Ne.symm h.1]
          · rw [isMatch_cons_one _ Token.noConfusion Token.noConfusion]
            exact ⟨c, s, rfl, beq_self_eq_true c, hmatch⟩
  obtain ⟨ts, hts, hmatch⟩ := hreads
  exact ⟨ts, hts.tokens, hmatch⟩

/-- A match is as long as the pattern without stars, and shorter if there is a class in it. -/
theorem Reads.length_le (h : Reads s ts) (hs : '*' ∉ s) (hmatch : isMatch ts name) :
    name.length ≤ s.length ∧ ('[' ∈ s → name.length < s.length) := by
  induction h generalizing name with
  | nil =>
    obtain rfl : name = [] := by simpa [isMatch] using hmatch
    simp
  | anyChar _ ih =>
    obtain ⟨c, cs, rfl, -, hcs⟩ :=
      (isMatch_cons_one _ Token.noConfusion Token.noConfusion _ _).1 hmatch
    obtain ⟨hle, hlt⟩ := ih (fun h => hs (.tail _ h)) hcs
    simp only [List.length_cons, List.mem_cons]
    exact ⟨by omega, fun h => by have := hlt (h.resolve_left (by decide)); omega⟩
  | anyText => exact absurd List.mem_cons_self hs
  | @ofClass s after token ts hclass _ ih =>
    have hone : ∃ c cs, name = c :: cs ∧ isMatch ts cs := by
      obtain ⟨x, rfl | rfl⟩ := token_of_readClass? hclass
      all_goals
        obtain ⟨c, cs, rfl, -, hcs⟩ :=
          (isMatch_cons_one _ Token.noConfusion Token.noConfusion _ _).1 hmatch
        exact ⟨c, cs, rfl, hcs⟩
    obtain ⟨c, cs, rfl, hcs⟩ := hone
    have hsuffix := suffix_of_readClass? hclass
    obtain ⟨hle, -⟩ := ih (fun h => hs (.tail _ (hsuffix.subset h))) hcs
    have hlt := length_lt_of_readClass? hclass
    simp only [List.length_cons]
    exact ⟨by omega, fun _ => by omega⟩
  | @char d s ts hd _ ih =>
    obtain ⟨c, cs, rfl, -, hcs⟩ :=
      (isMatch_cons_one _ Token.noConfusion Token.noConfusion _ _).1 hmatch
    obtain ⟨hle, hlt⟩ := ih (fun h => hs (.tail _ h)) hcs
    have hne : '[' ≠ d := by
      rintro rfl
      cases hd
    simp only [List.length_cons, List.mem_cons]
    exact ⟨by omega, fun h => by have := hlt (h.resolve_left hne); omega⟩

/-- A class takes several characters of a text for one, so without stars the text does not match. -/
theorem not_matchesItself_of_mem (hslash : '/' ∉ s) (h : '[' ∈ s) (hs : '*' ∉ s) :
    ¬MatchesItself s := by
  rintro ⟨ts, hts, hmatch⟩
  rcases (tokens_eq_ok_iff hslash).1 hts with hreads | ⟨rfl, -⟩
  · exact absurd ((hreads.length_le hs hmatch).2 h) (Nat.lt_irrefl _)
  · exact hs List.mem_cons_self

end Companion.Glob
