import Companion.Naming
import Companion.Proofs.JsonScalars

/-!
# Patterns between brackets

A pattern that is put between brackets means what it means by itself, as far as the brackets still
go around it. Every reader of patterns takes from a text what it takes from the same text with the
closing bracket after it (`Agrees`). White space and comments are the one thing that can take in the
bracket, and then the group stays open.
-/

namespace Companion.Pattern

variable {α β γ : Type} {s s' t t' : List Char} {f : Flags} {n m : Nat}

/-- What closes the brackets that names are matched in. -/
def closing : List Char := [')', '$']

/-- The second text is the first, or the first and the closing bracket after it. -/
def Followed (s s' : List Char) : Prop :=
  s' = s ++ closing ∨ s' = s

theorem Followed.length_le (h : Followed s s') : s.length ≤ s'.length := by
  rcases h with rfl | rfl <;> simp

theorem Followed.cons (c : Char) (h : Followed s s') : Followed (c :: s) (c :: s') :=
  h.imp (congrArg _) (congrArg _)

theorem followed_cons {c : Char} : Followed (c :: s) s' ↔ ∃ t, s' = c :: t ∧ Followed s t := by
  constructor
  · rintro (rfl | rfl)
    · exact ⟨_, rfl, .inl rfl⟩
    · exact ⟨_, rfl, .inr rfl⟩
  · rintro ⟨t, rfl, h⟩
    exact h.cons c

/-- What the second starts with, the first starts with, unless it is the bracket. -/
theorem Followed.of_cons {c : Char} (h : Followed s (c :: t')) (hc : c ≠ ')') :
    ∃ t, s = c :: t ∧ Followed t t' := by
  rcases s with _ | ⟨d, t⟩
  · rcases h with h | h
    · exact absurd (List.cons.inj h).1 hc
    · exact absurd h (List.cons_ne_nil c t')
  · obtain ⟨_, heq, ht⟩ := followed_cons.1 h
    obtain ⟨rfl, rfl⟩ := List.cons.inj heq
    exact ⟨t, rfl, ht⟩

/-- Both texts start with a character, or neither does, unless it is the bracket. -/
theorem Followed.startsWith (h : Followed s s') (c : Char) (hc : c != ')') :
    (∃ t t', s = c :: t ∧ s' = c :: t' ∧ Followed t t') ∨
      (∀ t, s ≠ c :: t) ∧ ∀ t', s' ≠ c :: t' := by
  by_cases hs : ∃ t, s = c :: t
  · obtain ⟨t, rfl⟩ := hs
    obtain ⟨t', rfl, ht⟩ := followed_cons.1 h
    exact .inl ⟨t, t', rfl, rfl, ht⟩
  · refine .inr ⟨fun t ht => hs ⟨t, ht⟩, ?_⟩
    rintro t' rfl
    obtain ⟨t, rfl, -⟩ := h.of_cons (bne_iff_ne.1 hc)
    exact hs ⟨t, rfl⟩

theorem Followed.startsWithPair (h : Followed s s') (c d : Char) (hc : c != ')')
    (hd : d != ')') :
    (∃ t t', s = c :: d :: t ∧ s' = c :: d :: t' ∧ Followed t t') ∨
      (∀ t, s ≠ c :: d :: t) ∧ ∀ t', s' ≠ c :: d :: t' := by
  obtain ⟨t, t', rfl, rfl, ht⟩ | ⟨hno, hno'⟩ := h.startsWith c hc
  · obtain ⟨u, u', rfl, rfl, hu⟩ | ⟨hno, hno'⟩ := ht.startsWith d hd
    · exact .inl ⟨u, u', rfl, rfl, hu⟩
    · exact .inr ⟨fun u hu => hno u (List.cons.inj hu).2,
        fun u' hu' => hno' u' (List.cons.inj hu').2⟩
  · exact .inr ⟨fun _ => hno _, fun _ => hno' _⟩

theorem Followed.dropWhile (h : Followed s s') {p : Char → Bool}
    (hp : Followed [] (closing.dropWhile p)) : Followed (s.dropWhile p) (s'.dropWhile p) := by
  rcases h with rfl | rfl
  · rw [List.dropWhile_append]
    split
    · next h => rwa [List.isEmpty_iff.1 h]
    · exact .inl rfl
  · exact .inr rfl

theorem skipVerbose_append (s : List Char) (inComment : Bool) :
    Followed (skipVerbose inComment s) (skipVerbose inComment (s ++ closing)) := by
  induction s generalizing inComment with
  | nil =>
    cases inComment with
    | false => exact .inl (by decide)
    | true => exact .inr (by decide)
  | cons c s ih =>
    simp only [List.cons_append, skipVerbose]
    split
    · exact ih _
    split
    · exact ih _
    split
    · exact ih _
    · exact .inl rfl

theorem skipVerbose_suffix (s : List Char) (inComment : Bool) :
    skipVerbose inComment s <:+ s := by
  induction s generalizing inComment with
  | nil => exact List.suffix_refl _
  | cons c s ih =>
    simp only [skipVerbose]
    split
    · exact (ih _).trans (List.suffix_cons c s)
    split
    · exact (ih _).trans (List.suffix_cons c s)
    split
    · exact (ih _).trans (List.suffix_cons c s)
    · exact List.suffix_refl _

theorem length_skip_le (f : Flags) (s : List Char) : (f.skip s).length ≤ s.length := by
  rw [Flags.skip]
  split
  · exact (skipVerbose_suffix s false).length_le
  · exact Nat.le_refl _

theorem Followed.skip (f : Flags) (h : Followed s s') : Followed (f.skip s) (f.skip s') := by
  rcases h with rfl | rfl
  · rw [Flags.skip, Flags.skip]
    split
    · exact skipVerbose_append s false
    · exact .inl rfl
  · exact .inr rfl

theorem Followed.head?_beq (h : Followed s s') (c : Char) (hc : c != ')') :
    (s'.head? == some c) = (s.head? == some c) := by
  rcases s with _ | ⟨d, t⟩
  · rcases h with rfl | rfl
    · simpa [closing] using (bne_iff_ne.1 hc).symm
    · rfl
  · obtain ⟨t', rfl, -⟩ := followed_cons.1 h
    rfl

/-- The first is at its end and the second at its end or at the bracket, or both go on with the same
character. -/
theorem Followed.head (h : Followed s s') :
    (s = [] ∧ (s' = closing ∨ s' = [])) ∨ ∃ c t t', s = c :: t ∧ s' = c :: t' ∧ Followed t t' := by
  rcases s with _ | ⟨c, t⟩
  · exact .inl ⟨rfl, h⟩
  · obtain ⟨t', rfl, ht⟩ := followed_cons.1 h
    exact .inr ⟨c, t, t', rfl, rfl, ht⟩

/-- If the first succeeds, so does the second, and their results are related. -/
def Agrees (R : α → β → Prop) (x : Except Fault α) (y : Except Fault β) : Prop :=
  ∀ a, x = .ok a → ∃ b, y = .ok b ∧ R a b

/-- The same first component, and second components that are related. -/
inductive OnSecond (R : β → β → Prop) : α × β → α × β → Prop
  | intro (a : α) {b b' : β} (h : R b b') : OnSecond R (a, b) (a, b')

variable {R : α → α → Prop} {S : β → β → Prop} {x x' : Except Fault α}

theorem agrees_ok {a a' : α} (h : R a a') : Agrees R (.ok a) (.ok a') := by
  rintro _ ⟨⟩
  exact ⟨a', rfl, h⟩

theorem agrees_error {e : Fault} : Agrees R (.error e) x' := by
  rintro _ ⟨⟩

theorem Agrees.bind {g g' : α → Except Fault β} (h : Agrees R x x')
    (hg : ∀ a a', R a a' → Agrees S (g a) (g' a')) : Agrees S (x >>= g) (x' >>= g') := by
  intro b hb
  obtain ⟨a, ha, hb⟩ := Json.except_bind_eq_ok.1 hb
  obtain ⟨a', ha', hR⟩ := h a ha
  obtain ⟨b', hb', hS⟩ := hg a a' hR b hb
  exact ⟨b', Json.except_bind_eq_ok.2 ⟨a', ha', hb'⟩, hS⟩

theorem agrees_bind (x : Except Fault α) {g g' : α → Except Fault β}
    (hg : ∀ a, Agrees S (g a) (g' a)) : Agrees S (x >>= g) (x >>= g') := by
  intro b hb
  obtain ⟨a, ha, hb⟩ := Json.except_bind_eq_ok.1 hb
  obtain ⟨b', hb', hS⟩ := hg a b hb
  exact ⟨b', Json.except_bind_eq_ok.2 ⟨a, ha, hb'⟩, hS⟩

theorem Agrees.map {g g' : α → β} (h : Agrees R x x') (hg : ∀ a a', R a a' → S (g a) (g' a')) :
    Agrees S (x.map g) (x'.map g') := by
  intro b hb
  obtain ⟨a, ha, rfl⟩ := Json.except_map_eq_ok.1 hb
  obtain ⟨a', ha', hR⟩ := h a ha
  exact ⟨_, Json.except_map_eq_ok.2 ⟨a', ha', rfl⟩, hg a a' hR⟩

theorem Agrees.mapFst {x x' : Except Fault (α × β)} (h : Agrees (OnSecond S) x x') (g : α → γ) :
    Agrees (OnSecond S) (x.map fun (a, b) => (g a, b)) (x'.map fun (a, b) => (g a, b)) :=
  h.map fun _ _ ⟨a, hb⟩ => .intro (g a) hb

theorem agrees_map_pair (x : Except Fault α) {b b' : β} (h : S b b') (g : α → γ) :
    Agrees (OnSecond S) (x.map fun a => (g a, b)) (x.map fun a => (g a, b')) := by
  intro p hp
  obtain ⟨a, rfl, rfl⟩ := Json.except_map_eq_ok.1 hp
  exact ⟨_, rfl, .intro (g a) h⟩

theorem agrees_readDigits (h : Followed s s') :
    Agrees (OnSecond Followed) (readDigits f n s) (readDigits f n s') := by
  induction n generalizing s s' with
  | zero => exact agrees_ok (.intro _ h)
  | succ n ih =>
    obtain ⟨rfl, -⟩ | ⟨c, t, t', rfl, rfl, ht⟩ := h.head
    · exact agrees_error
    simp only [readDigits]
    split
    · refine (ih (ht.skip f)).bind ?_
      rintro _ _ ⟨ds, hr⟩
      exact agrees_ok (.intro _ hr)
    · exact agrees_error

theorem followed_readBraced_go (h : Followed s s') (hn : n ≤ m) {a : List Char × List Char}
    (ha : readBraced.go f n s = some a) :
    ∃ b, readBraced.go f m s' = some b ∧ OnSecond Followed a b := by
  induction n generalizing s s' m a with
  | zero => simp [readBraced.go] at ha
  | succ n ih =>
    obtain ⟨m, rfl⟩ : ∃ l, m = l + 1 := ⟨m - 1, by omega⟩
    rw [readBraced.go] at ha ⊢
    obtain ⟨hs, -⟩ | ⟨c, t, t', hs, hs', ht⟩ := (h.skip f).head
    · simp [hs] at ha
    rw [hs] at ha
    rw [hs']
    simp only at ha ⊢
    split at ha
    · next hc =>
      obtain rfl := Option.some.inj ha
      exact ⟨_, if_pos hc, .intro _ ht⟩
    · next hc =>
      obtain ⟨⟨inside, r⟩, hgo, rfl⟩ := Option.map_eq_some_iff.1 ha
      obtain ⟨_, hgo', ⟨_, hr⟩⟩ := ih ht (Nat.le_of_succ_le_succ hn) hgo
      exact ⟨_, by rw [if_neg hc, hgo']; rfl, .intro _ hr⟩

theorem readBraced_cases (f : Flags) (h : Followed s s') :
    readBraced f s = none ∨ ∃ inside r r', readBraced f s = some (inside, r) ∧
      readBraced f s' = some (inside, r') ∧ Followed r r' := by
  rcases hs : readBraced f s with _ | a
  · exact .inl rfl
  · obtain ⟨_, hs', ⟨inside, hr⟩⟩ := followed_readBraced_go h h.length_le hs
    exact .inr ⟨inside, _, _, rfl, hs', hr⟩

theorem agrees_readCodePoint (h : Followed s s') (count : Nat) :
    Agrees (OnSecond Followed) (readCodePoint f count s) (readCodePoint f count s') := by
  unfold readCodePoint
  obtain ⟨t, t', hs, hs', ht⟩ | ⟨hno, hno'⟩ := (h.skip f).startsWith '\x7b' rfl
  · obtain hb | ⟨digits, r, r', hb, hb', hr⟩ := readBraced_cases f ht
    · simp only [hs, hb]
      exact agrees_error
    simp only [hs, hs', hb, hb']
    split
    · exact agrees_error
    split
    · exact agrees_ok (.intro _ (hr.skip f))
    · exact agrees_error
  · -- `hno` and `hno'` rule the brace out, and the match goes on with its last alternative
    simp only
    refine (agrees_readDigits (h.skip f)).bind ?_
    rintro _ _ ⟨digits, hr⟩
    simp only
    split
    · exact agrees_ok (.intro _ hr)
    · exact agrees_error

theorem agrees_readProperty (h : Followed s s') (negated : Bool) :
    Agrees (OnSecond Followed) (readProperty f negated s) (readProperty f negated s') := by
  unfold readProperty
  obtain ⟨hs, -⟩ | ⟨c, t, t', hs, hs', ht⟩ := (h.skip f).head
  · rw [hs]
    exact agrees_error
  rw [hs, hs']
  by_cases hbrace : c = '\x7b'
  · subst hbrace
    obtain hb | ⟨name, r, r', hb, hb', hr⟩ := readBraced_cases f ht
    · simp only [hb]
      exact agrees_error
    simp only [hb, hb']
    exact agrees_map_pair _ hr _
  by_cases hescape : c = '\\'
  · subst hescape
    exact agrees_error
  simp only
  exact agrees_map_pair _ (ht.skip f) _

theorem agrees_readBoundary (h : Followed s s') :
    Agrees (OnSecond Followed) (readBoundary f s) (readBoundary f s') := by
  unfold readBoundary
  obtain ⟨t, t', rfl, rfl, ht⟩ | ⟨hno, hno'⟩ := h.startsWith '\x7b' rfl
  · obtain ⟨hs, -⟩ | ⟨c, u, u', hs, hs', hu⟩ := (ht.skip f).head
    · simp only [hs]
      exact agrees_error
    simp only [hs, hs']
    split
    · exact agrees_ok (.intro _ h)
    obtain hb | ⟨name, r, r', hb, hb', hr⟩ := readBraced_cases f (hu.cons c)
    · simp only [hb]
      exact agrees_error
    simp only [hb, hb']
    split
    · exact agrees_ok (.intro _ hr)
    · exact agrees_error
  · simp only
    exact agrees_ok (.intro _ h)

theorem agrees_readEscape (h : Followed s s') :
    Agrees (OnSecond Followed) (readEscape f s) (readEscape f s') := by
  obtain ⟨rfl, -⟩ | ⟨c, t, t', rfl, rfl, ht⟩ := h.head
  · exact agrees_error
  have hletter (property : Property) (ascii : CharSet) (negated : Bool) :
      Agrees (OnSecond Followed)
        ((readClassLetter f property ascii negated).map fun set => (Escaped.set set, t))
        ((readClassLetter f property ascii negated).map fun set => (Escaped.set set, t')) :=
    agrees_map_pair _ ht _
  have hread (e : Escaped) : Agrees (OnSecond Followed) (.ok (e, t)) (.ok (e, t')) :=
    agrees_ok (.intro e ht)
  unfold readEscape
  simp only
  split
  · exact agrees_error
  split
  · refine (agrees_readCodePoint ht _).bind ?_
    rintro _ _ ⟨x, hr⟩
    simp only [(ht.skip f).head?_beq '\x7b' rfl]
    exact agrees_map_pair _ hr _
  · exact (agrees_readCodePoint ht _).mapFst _
  · exact (agrees_readCodePoint ht _).mapFst _
  · exact (agrees_readProperty ht _).mapFst _
  · exact (agrees_readProperty ht _).mapFst _
  · exact hletter _ _ _
  · exact hletter _ _ _
  · exact hletter _ _ _
  · exact hletter _ _ _
  · exact hletter _ _ _
  · exact hletter _ _ _
  · exact hread _
  · exact hread _
  · exact hread _
  · exact hread _
  · exact hread _
  · exact hread _
  · exact hread _
  · exact hread _
  · exact (agrees_readBoundary ht).mapFst _
  · exact hread _
  · exact hread _
  · exact hread _
  · split
    · exact hread _
    · exact agrees_error

/-! ## Classes -/

theorem Followed.takeWhile_eq {p : Char → Bool} (h : Followed s s') (hs : s.dropWhile p ≠ []) :
    s'.takeWhile p = s.takeWhile p := by
  rcases h with rfl | rfl
  · rw [List.takeWhile_append, if_neg]
    intro hlength
    have hall := congrArg List.length (List.takeWhile_append_dropWhile (p := p) (l := s))
    rw [List.length_append] at hall
    exact hs (List.length_eq_zero_iff.1 (by omega))
  · rfl

/-- Both texts have a name and the end of its brackets first, or neither does. -/
theorem Followed.bracketName (h : Followed s s') :
    (∃ rest rest', s.dropWhile (· != ':') = ':' :: ']' :: rest ∧
        s'.dropWhile (· != ':') = ':' :: ']' :: rest' ∧
        s'.takeWhile (· != ':') = s.takeWhile (· != ':') ∧ Followed rest rest') ∨
      (∀ rest, s.dropWhile (· != ':') ≠ ':' :: ']' :: rest) ∧
        ∀ rest, s'.dropWhile (· != ':') ≠ ':' :: ']' :: rest := by
  have hdrop := h.dropWhile (p := (· != ':')) (.inr (by decide))
  obtain ⟨rest, rest', hs, hs', hrest⟩ | hno := hdrop.startsWithPair ':' ']' rfl rfl
  · exact .inl ⟨rest, rest', hs, hs', h.takeWhile_eq (by simp [hs]), hrest⟩
  · exact .inr hno

theorem readBracketName?_cases (f : Flags) (h : Followed s s') :
    readBracketName? f s = none ∧ readBracketName? f s' = none ∨
      ∃ set r r', readBracketName? f s = some (set, r) ∧
        readBracketName? f s' = some (set, r') ∧ Followed r r' := by
  unfold readBracketName?
  obtain ⟨t, t', rfl, rfl, ht⟩ | ⟨hno, hno'⟩ := h.startsWith ':' rfl
  · obtain ⟨u, u', rfl, rfl, hu⟩ | ⟨hno, hno'⟩ := ht.startsWith '^' rfl
    · simp only
      obtain ⟨rest, rest', hs, hs', hname, hrest⟩ | ⟨hno, hno'⟩ := hu.bracketName
      · simp only [hs, hs', hname]
        rcases CharSet.ofBracketName? _ with _ | set
        · exact .inl ⟨rfl, rfl⟩
        rcases f.unicode
        · exact .inr ⟨_, rest, rest', rfl, rfl, hrest⟩
        · exact .inr ⟨_, rest, rest', rfl, rfl, hrest⟩
      · simp only
        exact .inl ⟨trivial, trivial⟩
    · simp only
      obtain ⟨rest, rest', hs, hs', hname, hrest⟩ | ⟨hno, hno'⟩ := ht.bracketName
      · simp only [hs, hs', hname]
        rcases CharSet.ofBracketName? _ with _ | set
        · exact .inl ⟨rfl, rfl⟩
        · exact .inr ⟨_, rest, rest', rfl, rfl, hrest⟩
      · simp only
        exact .inl ⟨trivial, trivial⟩
  · simp only
    exact .inl ⟨trivial, trivial⟩

theorem agrees_readClassAtom (h : Followed s s') :
    Agrees (OnSecond Followed) (readClassAtom f s) (readClassAtom f s') := by
  obtain ⟨rfl, -⟩ | ⟨c, t, t', rfl, rfl, ht⟩ := h.head
  · exact agrees_error
  by_cases hescape : c = '\\'
  · subst hescape
    exact agrees_readEscape ht
  · simp only [readClassAtom]
    exact agrees_ok (.intro _ ht)

theorem agrees_readClassItem (h : Followed s s') :
    Agrees (OnSecond Followed) (readClassItem f s) (readClassItem f s') := by
  unfold readClassItem
  refine (agrees_readClassAtom h).bind ?_
  rintro _ _ ⟨first, hr⟩
  simp only
  obtain ⟨hs, -⟩ | ⟨c, t, t', hs, hs', ht⟩ := (hr.skip f).head
  · rw [hs]
    exact agrees_error
  rw [hs, hs']
  by_cases hrange : c = '-'
  · subst hrange
    obtain ⟨hs, -⟩ | ⟨d, u, u', hs, hs', hu⟩ := (ht.skip f).head
    · simp only [hs]
      exact agrees_error
    simp only [hs, hs', List.head?_cons]
    split
    · exact agrees_bind _ fun set => agrees_ok (.intro set (ht.cons _))
    refine (agrees_readClassAtom (hu.cons d)).bind ?_
    rintro _ _ ⟨last, hr⟩
    refine agrees_bind _ fun a => agrees_bind _ fun b => ?_
    split
    · exact agrees_ok (.intro _ hr)
    · exact agrees_error
  · simp only [List.cons.injEq, hrange, false_and, imp_false, not_false_eq_true, implies_true]
    exact agrees_bind _ fun set => agrees_ok (.intro set (ht.cons c))

theorem leadingHyphens_of_followed (h : Followed [] s) (f : Flags) (n : Nat) :
    leadingHyphens f n s = (0, s) := by
  rcases h with rfl | rfl <;> cases n <;> rfl

theorem followed_leadingHyphens (h : Followed s s') (hn : s.length ≤ n) (hm : s'.length ≤ m) :
    OnSecond Followed (leadingHyphens f n s) (leadingHyphens f m s') := by
  induction n generalizing s s' m with
  | zero =>
    obtain rfl := List.length_eq_zero_iff.1 (Nat.le_zero.1 hn)
    rw [leadingHyphens_of_followed h]
    exact .intro 0 h
  | succ n ih =>
    obtain ⟨t, t', rfl, rfl, ht⟩ | ⟨hno, hno'⟩ := h.startsWith '-' rfl
    · obtain ⟨m, rfl⟩ : ∃ l, m = l + 1 := ⟨m - 1, by simp at hm; omega⟩
      have hrest := ih (ht.skip f)
        (Nat.le_trans (length_skip_le f t) (Nat.le_of_succ_le_succ hn))
        (Nat.le_trans (length_skip_le f t') (Nat.le_of_succ_le_succ hm))
      simp only [leadingHyphens]
      generalize leadingHyphens f n (f.skip t) = p, leadingHyphens f m (f.skip t') = p' at hrest ⊢
      obtain ⟨k, hr⟩ := hrest
      exact .intro (k + 1) hr
    · rcases m with _ | m
      · simp only [leadingHyphens]
        exact .intro 0 h
      · simp only [leadingHyphens]
        exact .intro 0 h

/-- The start of a class behind the caret that negates it. -/
def readHyphens (f : Flags) (negated : Bool) (s : List Char) :
    Except Fault (Bool × OpenClass × List Char) :=
  let (hyphens, s) := leadingHyphens f s.length s
  match s with
  | [] => .error .badClass
  | ']' :: rest =>
    if hyphens = 0 then
      if (f.skip rest).isEmpty then .error .badClass
      else .ok (negated, ⟨none, CharSet.single ']'⟩, f.skip rest)
    else .ok (negated, ⟨none, CharSet.single '-'⟩, s)
  | s => .ok (negated, ⟨none, if hyphens = 0 then CharSet.none else CharSet.single '-'⟩, s)

theorem readClassStart_eq (f : Flags) (s : List Char) :
    readClassStart f s =
      match f.skip s with
      | '^' :: s => readHyphens f true (f.skip s)
      | s => readHyphens f false s := by
  unfold readClassStart
  rcases f.skip s with _ | ⟨c, t⟩
  · rfl
  by_cases hc : c = '^'
  · subst hc
    rfl
  · simp only [List.cons.injEq, hc, false_and, imp_false, not_false_eq_true, implies_true]
    rfl

theorem agrees_readHyphens (h : Followed s s') (negated : Bool) :
    Agrees (OnSecond (OnSecond Followed)) (readHyphens f negated s)
      (readHyphens f negated s') := by
  unfold readHyphens
  have hhyphens := followed_leadingHyphens (f := f) h (Nat.le_refl _) (Nat.le_refl _)
  generalize leadingHyphens f s.length s = p, leadingHyphens f s'.length s' = p' at hhyphens ⊢
  obtain ⟨hyphens, hr⟩ := hhyphens
  simp only
  obtain ⟨rfl, -⟩ | ⟨d, u, u', hu, hu', -⟩ := hr.head
  · exact agrees_error
  obtain ⟨rest, rest', rfl, rfl, hrest⟩ | ⟨hno, hno'⟩ := hr.startsWith ']' rfl
  · simp only
    split
    · obtain ⟨hs, -⟩ | ⟨d, v, v', hs, hs', hv⟩ := (hrest.skip f).head
      · rw [hs]
        exact agrees_error
      · rw [hs, hs']
        exact agrees_ok (.intro negated (.intro _ (hv.cons d)))
    · exact agrees_ok (.intro negated (.intro _ hr))
  · have hne := hu ▸ List.cons_ne_nil d u
    have hne' := hu' ▸ List.cons_ne_nil d u'
    simp only
    exact agrees_ok (.intro negated (.intro _ hr))

theorem agrees_readClassStart (h : Followed s s') :
    Agrees (OnSecond (OnSecond Followed)) (readClassStart f s) (readClassStart f s') := by
  rw [readClassStart_eq, readClassStart_eq]
  obtain ⟨u, u', hs, hs', hu⟩ | ⟨hno, hno'⟩ := (h.skip f).startsWith '^' rfl
  · simp only [hs, hs']
    exact agrees_readHyphens (hu.skip f) true
  · simp only
    exact agrees_readHyphens (h.skip f) false

theorem agrees_readClassFrom (h : Followed s s') (hn : n ≤ m) (negated : Bool) (c : OpenClass) :
    Agrees (OnSecond Followed) (readClassFrom f n negated c s)
      (readClassFrom f m negated c s') := by
  induction n generalizing s s' m negated c with
  | zero => exact agrees_error
  | succ n ih =>
    obtain ⟨m, rfl⟩ : ∃ l, m = l + 1 := ⟨m - 1, by omega⟩
    have hn := Nat.le_of_succ_le_succ hn
    simp only [readClassFrom]
    have hs := h.skip f
    generalize f.skip s = t, f.skip s' = t' at hs ⊢
    obtain ⟨rfl, -⟩ | ⟨d, u, u', hu, hu', -⟩ := hs.head
    · exact agrees_error
    obtain ⟨r, r', rfl, rfl, hr⟩ | ⟨hbracket, hbracket'⟩ := hs.startsWith '[' rfl
    · simp only
      obtain ⟨hb, hb'⟩ | ⟨set, v, v', hb, hb', hv⟩ := readBracketName?_cases f hr
      · simp only [hb, hb']
        refine (agrees_readClassStart hr).bind ?_
        rintro _ _ ⟨inner, ⟨start, hv⟩⟩
        refine (ih hv hn inner start).bind ?_
        rintro _ _ ⟨set, hv⟩
        exact ih hv hn negated _
      · simp only [hb, hb']
        exact agrees_bind _ fun set => ih hv hn negated _
    obtain ⟨r, r', rfl, rfl, hr⟩ | ⟨hclose, hclose'⟩ := hs.startsWith ']' rfl
    · exact agrees_map_pair _ hr _
    obtain ⟨r, r', rfl, rfl, hr⟩ | ⟨hinter, hinter'⟩ := hs.startsWithPair '&' '&' rfl rfl
    · exact ih hr hn negated _
    obtain ⟨r, r', rfl, rfl, hr⟩ | ⟨hdiff, hdiff'⟩ := hs.startsWithPair '-' '-' rfl rfl
    · exact ih hr hn negated _
    obtain ⟨r, r', rfl, rfl, hr⟩ | ⟨hsymm, hsymm'⟩ := hs.startsWithPair '~' '~' rfl rfl
    · exact ih hr hn negated _
    have hne := hu ▸ List.cons_ne_nil d u
    have hne' := hu' ▸ List.cons_ne_nil d u'
    simp only
    refine (agrees_readClassItem hs).bind ?_
    rintro _ _ ⟨set, hr⟩
    exact ih hr hn negated _

theorem agrees_readClass (h : Followed s s') :
    Agrees (OnSecond Followed) (readClass f s) (readClass f s') := by
  unfold readClass
  refine (agrees_readClassStart h).bind ?_
  rintro _ _ ⟨negated, ⟨start, hr⟩⟩
  exact agrees_readClassFrom hr (Nat.succ_le_succ h.length_le) negated start

/-! ## Groups and repetitions -/

theorem agrees_readFlags (h : Followed s s') (f : Flags) (value : Bool) (seen : List Char) :
    Agrees (OnSecond (OnSecond fun r r' => r ≠ [] ∧ Followed r r')) (readFlags f value seen s)
      (readFlags f value seen s') := by
  induction s generalizing s' f value seen with
  | nil => exact agrees_error
  | cons c s ih =>
    obtain ⟨s', rfl, hs⟩ := followed_cons.1 h
    simp only [readFlags]
    split
    · split
      · exact agrees_error
      · exact agrees_ok (.intro f (.intro seen ⟨List.cons_ne_nil c s, h⟩))
    split
    · exact agrees_error
    split
    · exact ih hs f false (c :: seen)
    rcases f.set? value c with _ | g
    · exact agrees_error
    · exact ih hs g value (c :: seen)

theorem agrees_readGroupName (h : Followed s s') :
    Agrees (OnSecond Followed) (readGroupName s) (readGroupName s') := by
  have hdrop := h.dropWhile (p := (· != '>')) (.inr (by decide))
  unfold readGroupName
  rcases hs : s.dropWhile (· != '>') with _ | ⟨d, rest⟩
  · rcases s.takeWhile (· != '>') with _ | ⟨c, cs⟩
    · exact agrees_error
    · exact agrees_error
  · rw [hs] at hdrop
    obtain ⟨rest', hs', hrest⟩ := followed_cons.1 hdrop
    rw [hs', h.takeWhile_eq (by simp [hs])]
    rcases s.takeWhile (· != '>') with _ | ⟨c, cs⟩
    · exact agrees_error
    simp only
    split
    · exact agrees_ok (.intro _ hrest)
    · exact agrees_error

theorem agrees_readGroupStart (h : Followed s s') :
    Agrees (OnSecond Followed) (readGroupStart f s) (readGroupStart f s') := by
  unfold readGroupStart
  obtain ⟨t, t', hs, hs', ht⟩ | ⟨hno, hno'⟩ := (h.skip f).startsWith '?' rfl
  · rw [hs, hs']
    obtain ⟨u, u', rfl, rfl, hu⟩ | ⟨hahead, hahead'⟩ := ht.startsWith '=' rfl
    · exact agrees_error
    obtain ⟨u, u', rfl, rfl, hu⟩ | ⟨hnot, hnot'⟩ := ht.startsWith '!' rfl
    · exact agrees_error
    obtain ⟨u, u', rfl, rfl, hu⟩ | ⟨hangle, hangle'⟩ := ht.startsWith '<' rfl
    · obtain ⟨v, v', rfl, rfl, hv⟩ | ⟨hbehind, hbehind'⟩ := hu.startsWith '=' rfl
      · exact agrees_error
      obtain ⟨v, v', rfl, rfl, hv⟩ | ⟨hnot, hnot'⟩ := hu.startsWith '!' rfl
      · exact agrees_error
      simp only
      exact (agrees_readGroupName hu).mapFst _
    obtain ⟨u, u', rfl, rfl, hu⟩ | ⟨hnamed, hnamed'⟩ := ht.startsWithPair 'P' '<' rfl rfl
    · exact (agrees_readGroupName hu).mapFst _
    simp only [hangle, hangle', false_implies, implies_true]
    refine (agrees_readFlags ht f true []).bind ?_
    rintro _ _ ⟨g, ⟨seen, hne, hr⟩⟩
    obtain ⟨u, u', rfl, rfl, hu⟩ | ⟨hcolon, hcolon'⟩ := hr.startsWith ':' rfl
    · exact agrees_ok (.intro _ hu)
    simp only
    split
    · exact agrees_error
    · obtain ⟨rfl, -⟩ | ⟨c, v, v', rfl, rfl, hv⟩ := hr.head
      · exact absurd rfl hne
      · exact agrees_ok (.intro _ hv)
  · simp only [hno, hno', false_implies, implies_true]
    refine agrees_ok ?_
    exact .intro _ (h.skip f)

theorem readCount_go_of_followed (h : Followed [] s) (f : Flags) (n : Nat) :
    readCount.go f n s = ([], s) := by
  rcases h with rfl | rfl <;> cases n <;> rfl

theorem followed_readCount_go (h : Followed s s') (hn : s.length ≤ n) (hm : s'.length ≤ m) :
    OnSecond Followed (readCount.go f n s) (readCount.go f m s') := by
  induction n generalizing s s' m with
  | zero =>
    obtain rfl := List.length_eq_zero_iff.1 (Nat.le_zero.1 hn)
    rw [readCount_go_of_followed h]
    exact .intro [] h
  | succ n ih =>
    obtain ⟨rfl, -⟩ | ⟨c, t, t', rfl, rfl, ht⟩ := h.head
    · rw [readCount_go_of_followed h]
      exact .intro [] h
    obtain ⟨m, rfl⟩ : ∃ l, m = l + 1 := ⟨m - 1, by simp at hm; omega⟩
    have hrest := ih (ht.skip f)
      (Nat.le_trans (length_skip_le f t) (Nat.le_of_succ_le_succ hn))
      (Nat.le_trans (length_skip_le f t') (Nat.le_of_succ_le_succ hm))
    simp only [readCount.go]
    split
    · generalize readCount.go f n (f.skip t) = p, readCount.go f m (f.skip t') = p' at hrest ⊢
      obtain ⟨ds, hr⟩ := hrest
      exact .intro (c :: ds) hr
    · exact .intro [] h

theorem agrees_readCount (h : Followed s s') :
    Agrees (OnSecond Followed) (readCount f s) (readCount f s') := by
  have htrim {s s' : List Char} (h : Followed s s') :
      Followed (Text.trimStart s) (Text.trimStart s') :=
    h.dropWhile (.inl (by decide))
  unfold readCount
  simp only
  have hdigits := followed_readCount_go (f := f) (htrim h) (Nat.le_refl _) (Nat.le_refl _)
  generalize readCount.go f (Text.trimStart s).length (Text.trimStart s) = p,
    readCount.go f (Text.trimStart s').length (Text.trimStart s') = p' at hdigits ⊢
  obtain ⟨ds, hr⟩ := hdigits
  simp only
  split
  · exact agrees_error
  · exact agrees_ok (.intro _ ((htrim hr).skip f))

/-- The end of bounds, behind their counts. -/
def closeBounds (f : Flags) (least : Nat) (most : Option Nat) :
    List Char → Except Fault ((Nat × Option Nat) × List Char)
  | '\x7d' :: rest =>
    if most.any (· < least) then .error .badCount else .ok ((least, most), f.skip rest)
  | _ => .error .badCount

theorem agrees_closeBounds (h : Followed s s') (f : Flags) (least : Nat) (most : Option Nat) :
    Agrees (OnSecond Followed) (closeBounds f least most s) (closeBounds f least most s') := by
  obtain ⟨t, t', rfl, rfl, ht⟩ | ⟨hno, hno'⟩ := h.startsWith '\x7d' rfl
  · simp only [closeBounds]
    split
    · exact agrees_error
    · exact agrees_ok (.intro _ (ht.skip f))
  · simp only [closeBounds]
    exact agrees_error

theorem agrees_readBounds (h : Followed s s') :
    Agrees (OnSecond Followed) (readBounds f s) (readBounds f s') := by
  unfold readBounds
  refine (agrees_readCount (h.skip f)).bind ?_
  rintro _ _ ⟨least, hr⟩
  obtain ⟨t, t', rfl, rfl, ht⟩ | ⟨hno, hno'⟩ := hr.startsWith ',' rfl
  · obtain ⟨u, u', hs, hs', hu⟩ | ⟨hno, hno'⟩ := (ht.skip f).startsWith '\x7d' rfl
    · simp only [hs, hs']
      refine (agrees_ok (OnSecond.intro (none : Option Nat) (hu.cons _))).bind ?_
      rintro _ _ ⟨most, hr⟩
      exact agrees_closeBounds hr f least most
    · simp only
      refine ((agrees_readCount (ht.skip f)).mapFst some).bind ?_
      rintro _ _ ⟨most, hr⟩
      exact agrees_closeBounds hr f least most
  · simp only
    refine (agrees_ok (OnSecond.intro (some least) hr)).bind ?_
    rintro _ _ ⟨most, hr⟩
    exact agrees_closeBounds hr f least most

theorem agrees_repeatLast (h : Followed s s') (least : Nat) (most : Option Nat)
    (items : List Item) :
    Agrees (OnSecond Followed) (repeatLast f least most items s)
      (repeatLast f least most items s') := by
  unfold repeatLast
  split
  · obtain ⟨t, t', rfl, rfl, ht⟩ | ⟨hno, hno'⟩ := h.startsWith '?' rfl
    · exact agrees_ok (.intro _ ht)
    · simp only
      exact agrees_ok (.intro _ h)
  · exact agrees_error

/-! ## Patterns -/

/-- With at least so much fuel, items, alternatives and groups are read alike. -/
structure ReadsAlike (n : Nat) : Prop where
  alternatives : ∀ m ctx s s', n ≤ m → Followed s s' →
    Agrees (OnSecond (OnSecond Followed)) (readAlternatives n ctx s) (readAlternatives m ctx s')
  items : ∀ m ctx items s s', n ≤ m → Followed s s' →
    Agrees (OnSecond (OnSecond Followed)) (readItems n ctx items s) (readItems m ctx items s')
  group : ∀ m ctx s s', n ≤ m → Followed s s' →
    Agrees (OnSecond (OnSecond Followed)) (readGroup n ctx s) (readGroup m ctx s')

theorem agrees_readAlternatives (ih : ReadsAlike n) (ctx : Context) (hn : n ≤ m)
    (h : Followed s s') :
    Agrees (OnSecond (OnSecond Followed)) (readAlternatives (n + 1) ctx s)
      (readAlternatives (m + 1) ctx s') := by
  simp only [readAlternatives]
  refine (ih.items m ctx [] s s' hn h).bind ?_
  rintro _ _ ⟨items, ⟨ctx, hr⟩⟩
  obtain ⟨t, t', rfl, rfl, ht⟩ | ⟨hno, hno'⟩ := hr.startsWith '|' rfl
  · refine (ih.alternatives m ctx _ _ hn ht).bind ?_
    rintro _ _ ⟨others, ⟨ctx, hr⟩⟩
    exact agrees_ok (.intro _ (.intro ctx hr))
  · simp only
    exact agrees_ok (.intro _ (.intro ctx hr))

theorem agrees_readGroup (ih : ReadsAlike n) (ctx : Context) (hn : n ≤ m) (h : Followed s s') :
    Agrees (OnSecond (OnSecond Followed)) (readGroup (n + 1) ctx s)
      (readGroup (m + 1) ctx s') := by
  simp only [readGroup]
  refine (ih.alternatives m ctx s s' hn h).bind ?_
  rintro _ _ ⟨x, ⟨ctx, hr⟩⟩
  obtain ⟨rfl, -⟩ | ⟨c, t, t', rfl, rfl, ht⟩ := hr.head
  · exact agrees_error
  by_cases hc : c = ')'
  · subst hc
    exact agrees_ok (.intro x (.intro ctx ht))
  · simp only [List.cons.injEq, hc, false_and, imp_false, not_false_eq_true, implies_true]
    exact agrees_error

theorem ReadsAlike.times (ih : ReadsAlike n) (least : Nat) (most : Option Nat) (ctx : Context)
    (items : List Item) (hn : n ≤ m) (h : Followed s s') :
    Agrees (OnSecond (OnSecond Followed))
      (do
        let (items, s) ← repeatLast f least most items s
        readItems n ctx items s)
      (do
        let (items, s) ← repeatLast f least most items s'
        readItems m ctx items s) := by
  refine (agrees_repeatLast h least most items).bind ?_
  rintro _ _ ⟨items, hr⟩
  exact ih.items m ctx items _ _ hn hr

theorem ReadsAlike.grouped (ih : ReadsAlike n) (ctx : Context) (wrap : Node → Node)
    (items : List Item) (hn : n ≤ m) (h : Followed s s') :
    Agrees (OnSecond (OnSecond Followed))
      (do
        let (x, ctx, s) ← readGroup n ctx s
        readItems n { ctx with flags := f } (some (wrap x) :: items) s)
      (do
        let (x, ctx, s) ← readGroup m ctx s'
        readItems m { ctx with flags := f } (some (wrap x) :: items) s) := by
  refine (ih.group m ctx _ _ hn h).bind ?_
  rintro _ _ ⟨x, ⟨ctx, hr⟩⟩
  exact ih.items m _ _ _ _ hn hr

theorem agrees_readItems (ih : ReadsAlike n) (ctx : Context) (items : List Item) (hn : n ≤ m)
    (h : Followed s s') :
    Agrees (OnSecond (OnSecond Followed)) (readItems (n + 1) ctx items s)
      (readItems (m + 1) ctx items s') := by
  have htimes (least : Nat) (most : Option Nat) {r r' : List Char} (hr : Followed r r') :=
    ih.times (f := ctx.flags) least most ctx items hn hr
  have hgroup (inner : Context) (wrap : Node → Node) {r r' : List Char} (hr : Followed r r') :=
    ih.grouped (f := ctx.flags) inner wrap items hn hr
  have hmore (x : Node) {r r' : List Char} (hr : Followed r r') :=
    ih.items m ctx (some x :: items) r r' hn hr
  simp only [readItems]
  have hskip := h.skip ctx.flags
  obtain ⟨hs, hs' | hs'⟩ | ⟨c, t, t', hs, hs', ht⟩ := hskip.head
  · rw [hs, hs']
    exact agrees_ok (.intro items (.intro ctx (.inl rfl)))
  · rw [hs, hs']
    exact agrees_ok (.intro items (.intro ctx (.inr rfl)))
  rw [hs, hs']
  rw [hs, hs'] at hskip
  by_cases hbar : c = '|'
  · subst hbar
    exact agrees_ok (.intro items (.intro ctx hskip))
  by_cases hclose : c = ')'
  · subst hclose
    exact agrees_ok (.intro items (.intro ctx hskip))
  by_cases hopen : c = '('
  · subst hopen
    refine (agrees_readGroupStart ht).bind ?_
    rintro _ _ ⟨start, hr⟩
    cases start with
    | settings g => exact ih.items m _ _ _ _ hn hr
    | plain g => exact hgroup _ id hr
    | numbered => exact hgroup _ (.group (ctx.groups + 1)) hr
    | named name =>
      simp only
      split
      · exact agrees_error
      · exact hgroup _ (.group (ctx.groups + 1)) hr
  by_cases hclass : c = '['
  · subst hclass
    refine (agrees_readClass ht).bind ?_
    rintro _ _ ⟨set, hr⟩
    exact hmore _ hr
  by_cases hoptional : c = '?'
  · subst hoptional
    exact htimes 0 (some 1) ht
  by_cases hstar : c = '*'
  · subst hstar
    exact htimes 0 none ht
  by_cases hplus : c = '+'
  · subst hplus
    exact htimes 1 none ht
  by_cases hbrace : c = '\x7b'
  · subst hbrace
    rcases items with _ | ⟨_ | x, items⟩
    · exact agrees_error
    · exact agrees_error
    refine (agrees_readBounds ht).bind ?_
    rintro _ _ ⟨⟨least, most⟩, hr⟩
    exact htimes least most hr
  by_cases hdot : c = '.'
  · subst hdot
    exact agrees_bind _ fun set => hmore _ ht
  by_cases hstart : c = '^'
  · subst hstart
    exact hmore _ ht
  by_cases hend : c = '$'
  · subst hend
    exact hmore _ ht
  by_cases hescape : c = '\\'
  · subst hescape
    refine (agrees_readEscape ht).bind ?_
    rintro _ _ ⟨e, hr⟩
    exact hmore _ hr
  simp only
  exact hmore _ ht

theorem readsAlike (n : Nat) : ReadsAlike n := by
  induction n with
  | zero => exact ⟨fun _ _ _ _ _ _ => agrees_error, fun _ _ _ _ _ _ _ => agrees_error,
      fun _ _ _ _ _ _ => agrees_error⟩
  | succ n ih =>
    refine ⟨fun m ctx s s' hn h => ?_, fun m ctx items s s' hn h => ?_,
      fun m ctx s s' hn h => ?_⟩
    · obtain ⟨m, rfl⟩ : ∃ l, m = l + 1 := ⟨m - 1, by omega⟩
      exact agrees_readAlternatives ih ctx (Nat.le_of_succ_le_succ hn) h
    · obtain ⟨m, rfl⟩ : ∃ l, m = l + 1 := ⟨m - 1, by omega⟩
      exact agrees_readItems ih ctx items (Nat.le_of_succ_le_succ hn) h
    · obtain ⟨m, rfl⟩ : ∃ l, m = l + 1 := ⟨m - 1, by omega⟩
      exact agrees_readGroup ih ctx (Nat.le_of_succ_le_succ hn) h

theorem Regex.ofText_eq_ok {r : Regex} : Regex.ofText s = .ok r ↔
    ∃ ctx, readAlternatives (3 * s.length + 3) ⟨.default, 0, []⟩ s = .ok (r.root, ctx, []) ∧
      r.root.size ≤ maxSize ∧ r.names = ctx.names := by
  rw [Regex.ofText, Json.except_bind_eq_ok]
  constructor
  · rintro ⟨⟨root, ctx, rest⟩, hread, hr⟩
    rcases rest with _ | ⟨c, rest⟩
    · simp only at hr
      split at hr
      · cases hr
      · next hsize =>
        obtain rfl := Except.ok.inj hr
        exact ⟨ctx, hread, Nat.le_of_not_lt hsize, rfl⟩
    · cases hr
  · rintro ⟨ctx, hread, hsize, hnames⟩
    refine ⟨_, hread, ?_⟩
    simp only
    rw [if_neg (Nat.not_lt.2 hsize), ← hnames]

section wholeName

variable {groups : Nat} {names : List (List Char × Nat)} {items : List Item}

theorem readItems_caret : readItems (n + 1) ⟨.default, groups, names⟩ items ('^' :: s) =
    readItems n ⟨.default, groups, names⟩ (some (.look .textStart) :: items) s := by
  rw [readItems]
  rfl

theorem readItems_dollar : readItems (n + 1) ⟨.default, groups, names⟩ items ('$' :: s) =
    readItems n ⟨.default, groups, names⟩ (some (.look .textEnd) :: items) s := by
  rw [readItems]
  rfl

theorem readItems_plain :
    readItems (n + 1) ⟨.default, groups, names⟩ items ('(' :: '?' :: ':' :: s) = (do
      let (x, ctx, s) ← readGroup n ⟨.default, groups, names⟩ s
      readItems n { ctx with flags := .default } (some x :: items) s) := by
  rw [readItems]
  rfl

theorem readItems_nil : readItems (n + 1) ⟨.default, groups, names⟩ items [] =
    .ok (items, ⟨.default, groups, names⟩, []) := by
  rw [readItems]
  rfl

end wholeName

/-- A pattern that is one by itself is read the same between the brackets of a whole name, as far
as it is read there: a comment at its end may take in the closing bracket. -/
theorem ofText_bracketed {r whole : Regex} (hr : Regex.ofText s = .ok r)
    (hwhole : Regex.ofText ("^(?:".toList ++ s ++ ")$".toList) = .ok whole) :
    whole = ⟨.concat (.look .textStart) (.concat r.root (.look .textEnd)), r.names⟩ := by
  obtain ⟨ctx, hread, -, hnames⟩ := Regex.ofText_eq_ok.1 hr
  obtain ⟨ctx', hread', -, hnames'⟩ := Regex.ofText_eq_ok.1 hwhole
  obtain ⟨n, hn⟩ : ∃ n, 3 * ("^(?:".toList ++ s ++ ")$".toList).length + 3 = n + 5 ∧
      3 * s.length + 3 ≤ n + 1 := ⟨3 * s.length + 16, by simp; omega, by omega⟩
  have hs : "^(?:".toList ++ s ++ ")$".toList = '^' :: '(' :: '?' :: ':' :: (s ++ closing) := rfl
  obtain ⟨_, hinner, ⟨x, ⟨after, hrest⟩⟩⟩ :=
    (readsAlike _).alternatives (n + 1) _ s (s ++ closing) hn.2 (.inl rfl) _ hread
  rw [hn.1, hs, readAlternatives, readItems_caret, readItems_plain, readGroup, hinner] at hread'
  rcases hrest with rfl | rfl
  · simp only [closing, List.nil_append, bind, Except.bind] at hread'
    rw [readItems_dollar, readItems_nil] at hread'
    obtain ⟨hroot, hctx⟩ := Prod.mk.inj (Except.ok.inj hread')
    obtain ⟨rfl, -⟩ := Prod.mk.inj hctx
    rcases whole with ⟨root, names⟩
    obtain rfl : names = r.names := hnames'.trans hnames.symm
    obtain rfl : _ = root := hroot
    rfl
  · cases hread'

end Companion.Pattern
