import Companion.Proofs.JsonScalars

/-!
# Numbers are read by their grammar

Digits are taken up to the first character that is none, whether or not the number has room for
them, so what a reader of numbers gives depends on the digits and not on what follows
(`exists_appendDigits`, `exists_appendExponent`). Reading and skipping take a number of the grammar
(`scans_readNumber`, `skipNumber_eq_ok`), and skipping takes every one (`skipNumber_append`).
-/

namespace Companion.Json

variable {s t ds rest : List Char} {negative : Bool}

/-- Digits that stand before the text end there. -/
def EndsDigits (s : List Char) : Prop :=
  ∀ c ∈ s.head?, c.isDigit = false

theorem EndsNumber.endsDigits (h : EndsNumber s) : EndsDigits s := fun c hc => (h c hc).1

theorem endsDigits_dropWhile (s : List Char) : EndsDigits (s.dropWhile Char.isDigit) := by
  intro c hc
  have hnot := List.head?_dropWhile_not Char.isDigit s
  rw [Option.mem_def.1 hc] at hnot
  exact hnot

theorem takeWhile_digits (hds : ds.all Char.isDigit) (hrest : EndsDigits rest) :
    (ds ++ rest).takeWhile Char.isDigit = ds ∧ (ds ++ rest).dropWhile Char.isDigit = rest := by
  have hall := List.all_eq_true.1 hds
  rw [List.takeWhile_append_of_pos hall, List.dropWhile_append_of_pos hall]
  rcases rest with _ | ⟨c, rest⟩
  · simp
  · have hc := hrest c rfl
    simp [hc]

/-- A text that starts with a digit starts with digits that end. -/
theorem exists_digits (h : s.head?.any Char.isDigit) :
    ∃ ds rest, s = ds ++ rest ∧ IsDigits ds ∧ EndsDigits rest := by
  refine ⟨s.takeWhile Char.isDigit, s.dropWhile Char.isDigit, List.takeWhile_append_dropWhile.symm,
    ⟨?_, by simp⟩, endsDigits_dropWhile s⟩
  rcases s with _ | ⟨c, s⟩
  · simp at h
  · simp at h
    simp [h]

theorem IsDigits.head?_append (h : IsDigits ds) (rest : List Char) :
    (ds ++ rest).head?.any Char.isDigit := by
  obtain ⟨hne, hall⟩ := h
  obtain ⟨c, cs, rfl⟩ := List.exists_cons_of_ne_nil hne
  simpa using (List.all_eq_true.1 hall) c List.mem_cons_self

theorem EndsDigits.head? (h : EndsDigits rest) : rest.head?.any Char.isDigit = false := by
  rcases rest with _ | ⟨c, rest⟩
  · rfl
  · simpa using h c rfl

/-- How many digits a number takes in depends on the digits alone. -/
theorem exists_appendDigits (hds : ds.all Char.isDigit) (n : Nat) : ∃ m taken left,
    (∃ before, ds = before ++ left) ∧ ∀ rest, EndsDigits rest →
      appendDigits n (ds ++ rest) = (m, taken, left ++ rest) := by
  induction ds generalizing n with
  | nil =>
    refine ⟨n, 0, [], ⟨[], rfl⟩, fun rest hrest => ?_⟩
    rcases rest with _ | ⟨c, rest⟩
    · rfl
    · have hc := hrest c rfl
      simp [appendDigits, hc]
  | cons c ds ih =>
    obtain ⟨hc, hds⟩ : c.isDigit ∧ ds.all Char.isDigit := by simpa using hds
    by_cases hroom : 10 * n + digitValue c < Nat.pow 2 64
    · obtain ⟨m, taken, left, ⟨before, rfl⟩, hread⟩ := ih hds (10 * n + digitValue c)
      refine ⟨m, taken + 1, left, ⟨c :: before, rfl⟩, fun rest hrest => ?_⟩
      rw [List.cons_append, appendDigits, if_pos ⟨hc, hroom⟩, hread rest hrest]
    · refine ⟨n, 0, c :: ds, ⟨[], rfl⟩, fun rest _ => ?_⟩
      rw [List.cons_append, appendDigits, if_neg fun h => hroom h.2]

/-- Whether an exponent is too large depends on its digits alone. -/
theorem exists_appendExponent (hds : ds.all Char.isDigit) (n : Nat) : ∃ m left,
    left.all Char.isDigit ∧ (m.isSome → left = []) ∧ ∀ rest, EndsDigits rest →
      appendExponent n (ds ++ rest) = (m, left ++ rest) := by
  induction ds generalizing n with
  | nil =>
    refine ⟨some n, [], rfl, fun _ => rfl, fun rest hrest => ?_⟩
    rcases rest with _ | ⟨c, rest⟩
    · rfl
    · have hc := hrest c rfl
      simp [appendExponent, hc]
  | cons c ds ih =>
    obtain ⟨hc, hds⟩ : c.isDigit ∧ ds.all Char.isDigit := by simpa using hds
    by_cases hroom : maxExponent < 10 * n + digitValue c
    · refine ⟨none, ds, hds, by simp, fun rest _ => ?_⟩
      simp [appendExponent, hc, hroom]
    · obtain ⟨m, left, hleft, hsome, hread⟩ := ih hds (10 * n + digitValue c)
      refine ⟨m, left, hleft, hsome, fun rest hrest => ?_⟩
      simp [appendExponent, hc, hroom, hread rest hrest]

theorem exists_exponentSign (s : List Char) :
    ∃ sign ∈ [[], ['+'], ['-']], s = sign ++ (exponentSign s).2 := by
  unfold exponentSign
  split
  · exact ⟨['+'], by simp, rfl⟩
  · exact ⟨['-'], by simp, rfl⟩
  · exact ⟨[], by simp, rfl⟩

theorem exponentSign_append {sign : List Char} (hsign : sign ∈ [[], ['+'], ['-']])
    (hs : s.head?.any Char.isDigit) : exponentSign (sign ++ s) = (sign == ['-'], s) := by
  rcases s with _ | ⟨c, s⟩
  · simp at hs
  · have hc : c.isDigit := by simpa using hs
    have hplus : c ≠ '+' := by rintro rfl; exact absurd hc (by decide)
    have hminus : c ≠ '-' := by rintro rfl; exact absurd hc (by decide)
    simp only [List.mem_cons, List.not_mem_nil, or_false] at hsign
    rcases hsign with rfl | rfl | rfl
    · simp [exponentSign, hplus, hminus]
    · rfl
    · rfl

/-- What an exponent without its letter looks like. -/
def IsSignedDigits (t : List Char) : Prop :=
  ∃ sign ds, t = sign ++ ds ∧ sign ∈ [[], ['+'], ['-']] ∧ IsDigits ds

theorem IsSignedDigits.isExponent {e : Char} (h : IsSignedDigits t) (he : e ∈ ['e', 'E']) :
    IsExponent (e :: t) := by
  obtain ⟨sign, ds, rfl, hsign, hds⟩ := h
  exact .digits he hsign hds

theorem scans_realNumber (digits : Nat) (exponent : Int) :
    Scans Anything (· = []) (realNumber negative digits exponent) := by
  intro s x rest h
  unfold realNumber at h
  split at h
  · simp at h
  · rename_i y hy
    obtain ⟨rfl, rfl⟩ := Prod.mk.inj (Except.ok.inj h)
    exact ⟨[], rfl, rfl, fun rest' _ => by simp [realNumber, hy]⟩

/-- Reading an exponent is the same for all texts that start with its digits. -/
theorem exists_readExponent (negative : Bool) (digits : Nat) (scale : Int) {sign : List Char}
    (hsign : sign ∈ [[], ['+'], ['-']]) (hds : IsDigits ds) :
    (∃ d k, ∀ rest, EndsDigits rest →
      readExponent negative digits scale (sign ++ (ds ++ rest)) =
        realNumber negative d k rest) ∨
    ∀ rest, EndsDigits rest → ∃ fault,
      readExponent negative digits scale (sign ++ (ds ++ rest)) = .error fault := by
  obtain ⟨hne, hall⟩ := hds
  obtain ⟨c, ds, rfl⟩ := List.exists_cons_of_ne_nil hne
  obtain ⟨hc, hall⟩ : c.isDigit ∧ ds.all Char.isDigit := by simpa using hall
  obtain ⟨m, left, hleft, hsome, happend⟩ := exists_appendExponent hall (digitValue c)
  have hsigned (rest : List Char) :
      exponentSign (sign ++ (c :: ds ++ rest)) = (sign == ['-'], c :: ds ++ rest) :=
    exponentSign_append hsign (by simpa using hc)
  rcases m with _ | n
  · have hread (rest : List Char) (hrest : EndsDigits rest) :
        readExponent negative digits scale (sign ++ (c :: ds ++ rest)) =
          if digits ≠ 0 ∧ !(sign == ['-']) then .error (.here .numberTooLarge (left ++ rest))
          else realNumber negative 0 0 rest := by
      have hdrop := (takeWhile_digits hleft hrest).2
      rw [readExponent, hsigned]
      simp only [List.cons_append, hc, if_true, happend rest hrest, hdrop]
    by_cases hlarge : digits ≠ 0 ∧ !(sign == ['-'])
    · exact .inr fun rest hrest => ⟨_, by rw [hread rest hrest, if_pos hlarge]⟩
    · exact .inl ⟨0, 0, fun rest hrest => by rw [hread rest hrest, if_neg hlarge]⟩
  · obtain rfl := hsome rfl
    refine .inl ⟨digits, if sign == ['-'] then scale - n else scale + n, fun rest hrest => ?_⟩
    rw [readExponent, hsigned]
    simp only [List.cons_append, hc, if_true, happend rest hrest, List.nil_append]

theorem scans_readExponent (digits : Nat) (scale : Int) :
    Scans EndsNumber IsSignedDigits (readExponent negative digits scale) := by
  intro s x rest h
  obtain ⟨sign, hsign, hs⟩ := exists_exponentSign s
  have hhead : (exponentSign s).2.head?.any Char.isDigit := by
    unfold readExponent at h
    rcases he : exponentSign s with ⟨down, _ | ⟨c, cs⟩⟩
    · simp [he] at h
    · rcases hc : c.isDigit with _ | _
      · simp [he, hc] at h
      · simpa using hc
  obtain ⟨ds, rest₁, hsplit, hds, hrest₁⟩ := exists_digits hhead
  rw [hsplit] at hs
  rw [hs] at h ⊢
  rcases exists_readExponent negative digits scale hsign hds with ⟨d, k, hread⟩ | hfault
  · rw [hread rest₁ hrest₁] at h
    obtain ⟨t, rfl, rfl, hsame⟩ := scans_realNumber d k _ _ _ h
    refine ⟨sign ++ ds, by simp, ⟨sign, ds, rfl, hsign, hds⟩, fun rest' hends => ?_⟩
    rw [List.append_assoc, hread rest' hends.endsDigits]
    exact hsame rest' trivial
  · obtain ⟨fault, hfault⟩ := hfault rest₁ hrest₁
    simp [hfault] at h

theorem scans_readScale (digits : Nat) (scale : Int) :
    Scans EndsNumber IsExponent (readScale negative digits scale) := by
  intro s x rest h
  unfold readScale at h
  split at h
  · obtain ⟨t, rfl, ht, hsame⟩ := scans_readExponent digits scale _ _ _ h
    exact ⟨'e' :: t, rfl, ht.isExponent (by simp), hsame⟩
  · obtain ⟨t, rfl, ht, hsame⟩ := scans_readExponent digits scale _ _ _ h
    exact ⟨'E' :: t, rfl, ht.isExponent (by simp), hsame⟩
  · obtain ⟨t, rfl, rfl, hsame⟩ := scans_realNumber digits scale _ _ _ h
    refine ⟨[], rfl, .none, fun rest' hends => ?_⟩
    rw [List.nil_append]
    unfold readScale
    split
    · exact absurd (hends 'e' rfl).2 (by simp)
    · exact absurd (hends 'E' rfl).2 (by simp)
    · exact hsame rest' trivial

theorem IsExponent.endsDigits_append {e : List Char} (he : IsExponent e) (hrest : EndsNumber rest) :
    EndsDigits (e ++ rest) := by
  cases he with
  | none => exact hrest.endsDigits
  | digits he _ _ =>
    intro c hc
    obtain rfl : _ = c := Option.some.inj hc
    simp only [List.mem_cons, List.not_mem_nil, or_false] at he
    rcases he with rfl | rfl <;> rfl

theorem IsExponent.append_ne_point {e : List Char} (he : IsExponent e) (hrest : EndsNumber rest)
    (u : List Char) : e ++ rest ≠ '.' :: u := by
  intro hpoint
  cases he with
  | none =>
    rw [List.nil_append] at hpoint
    exact absurd (hrest '.' (by rw [hpoint]; rfl)).2 (by simp)
  | digits he _ _ =>
    obtain ⟨rfl, -⟩ := List.cons.inj hpoint
    simp at he

/-- What follows the point. -/
def IsPlaces (t : List Char) : Prop :=
  ∃ ds e, t = ds ++ e ∧ IsDigits ds ∧ IsExponent e

/-- What follows the digits up to the point. -/
def IsNumberEnd (t : List Char) : Prop :=
  ∃ f e, t = f ++ e ∧ IsFraction f ∧ IsExponent e

theorem IsPlaces.isNumberEnd (h : IsPlaces t) : IsNumberEnd ('.' :: t) := by
  obtain ⟨ds, e, rfl, hds, he⟩ := h
  exact ⟨'.' :: ds, e, rfl, .digits hds, he⟩

theorem IsExponent.isNumberEnd (h : IsExponent t) : IsNumberEnd t :=
  ⟨[], t, rfl, .none, h⟩

theorem IsNumberEnd.endsDigits_append (h : IsNumberEnd t) (hrest : EndsNumber rest) :
    EndsDigits (t ++ rest) := by
  obtain ⟨f, e, rfl, hf, he⟩ := h
  cases hf with
  | none => exact he.endsDigits_append hrest
  | digits _ =>
    intro c hc
    obtain rfl : '.' = c := Option.some.inj hc
    rfl

theorem scans_readPlaces (digits : Nat) (scale : Int) :
    Scans EndsNumber IsPlaces (readPlaces negative digits scale) := by
  intro s x rest h
  have hhead : s.head?.any Char.isDigit := by
    unfold readPlaces at h
    split_ifs at h with hhead
    exact hhead
  obtain ⟨ds, rest₁, rfl, hds, hrest₁⟩ := exists_digits hhead
  obtain ⟨m, taken, left, ⟨before, hbefore⟩, happend⟩ := exists_appendDigits hds.2 digits
  have hleft : left.all Char.isDigit := by
    have hall := hds.2
    rw [hbefore, List.all_append, Bool.and_eq_true] at hall
    exact hall.2
  have hread (rest : List Char) (hrest : EndsDigits rest) :
      readPlaces negative digits scale (ds ++ rest) =
        readScale negative m (scale - taken) rest := by
    rw [readPlaces, if_pos (hds.head?_append rest), happend rest hrest]
    simp only [(takeWhile_digits hleft hrest).2]
  rw [hread rest₁ hrest₁] at h
  obtain ⟨e, rfl, he, hsame⟩ := scans_readScale m _ _ _ _ h
  refine ⟨ds ++ e, by simp, ⟨ds, e, rfl, hds, he⟩, fun rest' hends => ?_⟩
  rw [List.append_assoc, hread _ (he.endsDigits_append hends)]
  exact hsame rest' hends

theorem scans_readWhole (digits : Nat) :
    Scans EndsNumber IsNumberEnd (readWhole negative digits) := by
  intro s x rest h
  unfold readWhole at h
  split at h
  · obtain ⟨t, rfl, ht, hsame⟩ := scans_readPlaces digits 0 _ _ _ h
    exact ⟨'.' :: t, rfl, ht.isNumberEnd, hsame⟩
  · obtain ⟨t, rfl, ht, hsame⟩ := scans_readExponent digits 0 _ _ _ h
    exact ⟨'e' :: t, rfl, (ht.isExponent (by simp)).isNumberEnd, hsame⟩
  · obtain ⟨t, rfl, ht, hsame⟩ := scans_readExponent digits 0 _ _ _ h
    exact ⟨'E' :: t, rfl, (ht.isExponent (by simp)).isNumberEnd, hsame⟩
  · obtain ⟨rfl, rfl⟩ := Prod.mk.inj (Except.ok.inj h)
    refine ⟨[], rfl, IsExponent.none.isNumberEnd, fun rest' hends => ?_⟩
    rw [List.nil_append]
    unfold readWhole
    split
    · exact absurd (hends '.' rfl).2 (by simp)
    · exact absurd (hends 'e' rfl).2 (by simp)
    · exact absurd (hends 'E' rfl).2 (by simp)
    · rfl

/-- Reads what follows more digits than a number has room for. -/
def readLong (negative : Bool) (digits : Nat) (scale : Int) : Reader Number
  | '.' :: s => readPlaces negative digits scale s
  | s => readScale negative digits scale s

theorem scans_readLong (digits : Nat) (scale : Int) :
    Scans EndsNumber IsNumberEnd (readLong negative digits scale) := by
  intro s x rest h
  unfold readLong at h
  split at h
  · obtain ⟨t, rfl, ht, hsame⟩ := scans_readPlaces digits scale _ _ _ h
    exact ⟨'.' :: t, rfl, ht.isNumberEnd, hsame⟩
  · obtain ⟨t, rfl, ht, hsame⟩ := scans_readScale digits scale _ _ _ h
    refine ⟨t, rfl, ht.isNumberEnd, fun rest' hends => ?_⟩
    rw [readLong]
    · exact hsame rest' hends
    · exact fun u => ht.append_ne_point hends u

/-- Reading a number without its sign goes on after its first digits in a way that depends on these
alone. -/
theorem exists_readMagnitude (negative : Bool) (hds : IsWhole ds) : ∃ read : Reader Number,
    Scans EndsNumber IsNumberEnd read ∧ ∀ rest, EndsDigits rest →
      readMagnitude negative (ds ++ rest) = read rest := by
  cases hds with
  | zero =>
    refine ⟨readWhole negative 0, scans_readWhole 0, fun rest hrest => ?_⟩
    rw [List.singleton_append, readMagnitude, hrest.head?, if_neg Bool.false_ne_true]
  | @digits c s hc hzero hs =>
    have hall : (c :: s).all Char.isDigit := by simp [hc, hs]
    obtain ⟨m, taken, left, ⟨before, hbefore⟩, happend⟩ := exists_appendDigits hall 0
    have hleft : left.all Char.isDigit := by
      rw [hbefore, List.all_append, Bool.and_eq_true] at hall
      exact hall.2
    have hread (rest : List Char) (hrest : EndsDigits rest) :
        readMagnitude negative (c :: s ++ rest) =
          if left.isEmpty then readWhole negative m (left ++ rest)
          else readLong negative m left.length rest := by
      obtain ⟨htake, hdrop⟩ := takeWhile_digits hleft hrest
      rw [List.cons_append, readMagnitude]
      · have hdigit : (c :: (s ++ rest)).head?.any Char.isDigit := by simpa using hc
        rw [if_pos hdigit, ← List.cons_append, happend rest hrest]
        simp only [htake, hdrop]
        rfl
      · exact List.cons_ne_nil _ _
      · intro u hu
        exact hzero (List.cons.inj hu).1
    rcases left with _ | ⟨l, left⟩
    · exact ⟨readWhole negative m, scans_readWhole m, fun rest hrest => hread rest hrest⟩
    · exact ⟨readLong negative m (l :: left).length, scans_readLong m _,
        fun rest hrest => hread rest hrest⟩

theorem IsWhole.exists_cons (h : IsWhole ds) : ∃ c s, ds = c :: s ∧ c.isDigit := by
  cases h with
  | zero => exact ⟨'0', [], rfl, rfl⟩
  | @digits c s hc _ _ => exact ⟨c, s, rfl, hc⟩

theorem IsDigits.isWhole (h : IsDigits ds) (hzero : ∀ u, ds ++ rest = '0' :: u → False) :
    IsWhole ds := by
  obtain ⟨hne, hall⟩ := h
  obtain ⟨c, ds, rfl⟩ := List.exists_cons_of_ne_nil hne
  obtain ⟨hc, hds⟩ : c.isDigit ∧ ds.all Char.isDigit := by simpa using hall
  refine .digits hc ?_ hds
  rintro rfl
  exact hzero _ rfl

theorem scans_readMagnitude : Scans EndsNumber
    (fun t => ∃ ds more, t = ds ++ more ∧ IsWhole ds ∧ IsNumberEnd more)
    (readMagnitude negative) := by
  intro s x rest h
  obtain ⟨ds, rest₁, rfl, hds, hrest₁⟩ : ∃ ds rest₁, s = ds ++ rest₁ ∧ IsWhole ds ∧
      EndsDigits rest₁ := by
    unfold readMagnitude at h
    split at h
    · simp at h
    · rename_i s
      split_ifs at h with hdigit
      refine ⟨['0'], s, rfl, .zero, fun c hc => ?_⟩
      rw [Option.mem_def.1 hc] at hdigit
      simpa using hdigit
    · rename_i s _ hzero
      split_ifs at h with hdigit
      obtain ⟨ds, rest₁, rfl, hds, hrest₁⟩ := exists_digits hdigit
      exact ⟨ds, rest₁, rfl, hds.isWhole hzero, hrest₁⟩
  obtain ⟨read, hscan, hread⟩ := exists_readMagnitude negative hds
  rw [hread rest₁ hrest₁] at h
  obtain ⟨t, rfl, ht, hsame⟩ := hscan _ _ _ h
  refine ⟨ds ++ t, by simp, ⟨ds, t, rfl, hds, ht⟩, fun rest' hends => ?_⟩
  rw [List.append_assoc, hread _ (ht.endsDigits_append hends)]
  exact hsame rest' hends

/-- A text that starts with a digit does not start with a sign. -/
theorem readNumber_of_isWhole (hds : IsWhole ds) (rest : List Char) :
    readNumber (ds ++ rest) = readMagnitude false (ds ++ rest) := by
  obtain ⟨c, s, rfl, hc⟩ := hds.exists_cons
  rw [List.cons_append, readNumber]
  intro u hu
  obtain ⟨rfl, -⟩ := List.cons.inj hu
  exact absurd hc (by decide)

theorem scans_readNumber : Scans EndsNumber IsNumber readNumber := by
  intro s x rest h
  unfold readNumber at h
  split at h
  · obtain ⟨_, rfl, ⟨ds, _, rfl, hds, f, e, rfl, hf, he⟩, hsame⟩ := scans_readMagnitude _ _ _ h
    exact ⟨'-' :: (ds ++ (f ++ e)), rfl, @IsNumber.mk ['-'] ds f e (by simp) hds hf he, hsame⟩
  · obtain ⟨_, rfl, ⟨ds, _, rfl, hds, f, e, rfl, hf, he⟩, hsame⟩ := scans_readMagnitude _ _ _ h
    refine ⟨ds ++ (f ++ e), rfl, @IsNumber.mk [] ds f e (by simp) hds hf he, fun rest' hends => ?_⟩
    rw [List.append_assoc, readNumber_of_isWhole hds, ← List.append_assoc]
    exact hsame rest' hends

theorem skipExponent_eq_ok (h : skipExponent s = .ok rest) :
    ∃ t, s = t ++ rest ∧ IsSignedDigits t := by
  obtain ⟨sign, hsign, hs⟩ := exists_exponentSign s
  unfold skipExponent at h
  dsimp only at h
  split_ifs at h with hdigit
  obtain ⟨ds, rest₁, hsplit, hds, hrest₁⟩ := exists_digits hdigit
  obtain rfl := Except.ok.inj h
  refine ⟨sign ++ ds, ?_, sign, ds, rfl, hsign, hds⟩
  rw [hsplit, (takeWhile_digits hds.2 hrest₁).2, List.append_assoc, ← hsplit]
  exact hs

theorem skipExponent_append (ht : IsSignedDigits t) (hrest : EndsDigits rest) :
    skipExponent (t ++ rest) = .ok rest := by
  obtain ⟨sign, ds, rfl, hsign, hds⟩ := ht
  have hhead := hds.head?_append rest
  rw [List.append_assoc, skipExponent, exponentSign_append hsign hhead]
  dsimp only
  rw [if_pos hhead, (takeWhile_digits hds.2 hrest).2]

theorem skipScale_eq_ok (h : skipScale s = .ok rest) : ∃ t, s = t ++ rest ∧ IsExponent t := by
  unfold skipScale at h
  split at h
  · obtain ⟨t, rfl, ht⟩ := skipExponent_eq_ok h
    exact ⟨'e' :: t, rfl, ht.isExponent (by simp)⟩
  · obtain ⟨t, rfl, ht⟩ := skipExponent_eq_ok h
    exact ⟨'E' :: t, rfl, ht.isExponent (by simp)⟩
  · obtain rfl := Except.ok.inj h
    exact ⟨[], rfl, .none⟩

theorem skipScale_append (ht : IsExponent t) (hrest : EndsNumber rest) :
    skipScale (t ++ rest) = .ok rest := by
  cases ht with
  | none =>
    rw [List.nil_append]
    unfold skipScale
    split
    · exact absurd (hrest 'e' rfl).2 (by simp)
    · exact absurd (hrest 'E' rfl).2 (by simp)
    · rfl
  | @digits e sign ds he hsign hds =>
    have hskip := skipExponent_append ⟨sign, ds, rfl, hsign, hds⟩ hrest.endsDigits
    simp only [List.mem_cons, List.not_mem_nil, or_false] at he
    rcases he with rfl | rfl
    · exact hskip
    · exact hskip

theorem skipPlaces_eq_ok (h : skipPlaces s = .ok rest) : ∃ t, s = t ++ rest ∧ IsNumberEnd t := by
  unfold skipPlaces at h
  split at h
  · split_ifs at h with hdigit
    obtain ⟨ds, rest₁, rfl, hds, hrest₁⟩ := exists_digits hdigit
    rw [(takeWhile_digits hds.2 hrest₁).2] at h
    obtain ⟨e, rfl, he⟩ := skipScale_eq_ok h
    exact ⟨'.' :: (ds ++ e), by simp, IsPlaces.isNumberEnd ⟨ds, e, rfl, hds, he⟩⟩
  · obtain ⟨t, rfl, ht⟩ := skipScale_eq_ok h
    exact ⟨t, rfl, ht.isNumberEnd⟩

theorem skipPlaces_append (ht : IsNumberEnd t) (hrest : EndsNumber rest) :
    skipPlaces (t ++ rest) = .ok rest := by
  obtain ⟨f, e, rfl, hf, he⟩ := ht
  have hskip := skipScale_append he hrest
  cases hf with
  | none =>
    rw [List.nil_append, skipPlaces]
    · exact hskip
    · exact fun u => he.append_ne_point hrest u
  | @digits ds hds =>
    have hhead := hds.head?_append (e ++ rest)
    rw [List.cons_append, List.cons_append, List.append_assoc, skipPlaces, if_pos hhead,
      (takeWhile_digits hds.2 (he.endsDigits_append hrest)).2]
    exact hskip

theorem skipMagnitude_eq_ok (h : skipMagnitude s = .ok rest) :
    ∃ ds more, s = ds ++ more ++ rest ∧ IsWhole ds ∧ IsNumberEnd more := by
  unfold skipMagnitude at h
  split at h
  · split_ifs at h with hdigit
    obtain ⟨t, rfl, ht⟩ := skipPlaces_eq_ok h
    exact ⟨['0'], t, rfl, .zero, ht⟩
  · rename_i s hzero
    split_ifs at h with hdigit
    obtain ⟨ds, rest₁, rfl, hds, hrest₁⟩ := exists_digits hdigit
    rw [(takeWhile_digits hds.2 hrest₁).2] at h
    obtain ⟨t, rfl, ht⟩ := skipPlaces_eq_ok h
    exact ⟨ds, t, by simp, hds.isWhole hzero, ht⟩

theorem skipMagnitude_append {more : List Char} (hds : IsWhole ds) (hmore : IsNumberEnd more)
    (hrest : EndsNumber rest) : skipMagnitude (ds ++ (more ++ rest)) = .ok rest := by
  have hends := hmore.endsDigits_append hrest
  have hskip := skipPlaces_append hmore hrest
  cases hds with
  | zero =>
    rw [List.singleton_append, skipMagnitude, hends.head?, if_neg Bool.false_ne_true]
    exact hskip
  | @digits c s hc hzero hs =>
    have hdigits : IsDigits (c :: s) := ⟨List.cons_ne_nil c s, by simp [hc, hs]⟩
    have hhead := hdigits.head?_append (more ++ rest)
    unfold skipMagnitude
    split
    · rename_i heq
      exact absurd (List.cons.inj heq).1 hzero
    · rw [if_pos hhead, (takeWhile_digits hdigits.2 hends).2]
      exact hskip

theorem skipNumber_eq_ok (h : skipNumber s = .ok rest) : ∃ t, s = t ++ rest ∧ IsNumber t := by
  unfold skipNumber at h
  split at h
  · obtain ⟨ds, _, rfl, hds, f, e, rfl, hf, he⟩ := skipMagnitude_eq_ok h
    exact ⟨'-' :: (ds ++ (f ++ e)), rfl, @IsNumber.mk ['-'] ds f e (by simp) hds hf he⟩
  · obtain ⟨ds, _, rfl, hds, f, e, rfl, hf, he⟩ := skipMagnitude_eq_ok h
    exact ⟨ds ++ (f ++ e), rfl, @IsNumber.mk [] ds f e (by simp) hds hf he⟩

theorem skipNumber_append (ht : IsNumber t) (hrest : EndsNumber rest) :
    skipNumber (t ++ rest) = .ok rest := by
  obtain ⟨hsign, hwhole, hfraction, hexponent⟩ := ht
  have hskip := skipMagnitude_append hwhole ⟨_, _, rfl, hfraction, hexponent⟩ hrest
  simp only [List.mem_cons, List.not_mem_nil, or_false] at hsign
  rcases hsign with rfl | rfl
  · obtain ⟨c, ds, rfl, hc⟩ := hwhole.exists_cons
    rw [List.nil_append, List.append_assoc, List.cons_append, skipNumber]
    · exact hskip
    · intro u hu
      obtain ⟨rfl, -⟩ := List.cons.inj hu
      exact absurd hc (by decide)
  · rw [List.append_assoc, List.append_assoc]
    exact hskip

end Companion.Json
