import Companion.Json.Scalar
import Companion.Json.Writer
import Mathlib.Tactic.SplitIfs

/-!
# Strings survive being written

A character that is escaped is read back from its escape (`readEscape_escape`), so a string that is
written with its quotes is read back whole, whatever follows it (`readStringBody_quote`).
-/

namespace Companion.Json

/-- Every control character has four digits that say its number. -/
theorem hexEscape_control {n : Nat} (h : n < 0x20) (s : List Char) :
    hexEscape ('0' :: '0' :: hexDigit (n / 16) :: hexDigit (n % 16) :: s) = .ok (n, s) := by
  have digits : ∀ n < 0x20,
      (['0', '0', hexDigit (n / 16), hexDigit (n % 16)].all fun x =>
        (Unicode.hexDigit? x).isSome) = true ∧
      Unicode.readHex ['0', '0', hexDigit (n / 16), hexDigit (n % 16)] = n := by decide
  obtain ⟨hall, hn⟩ := digits n h
  simp only [hexEscape]
  rw [if_pos hall, hn]

theorem readEscape_control {c : Char} (h : c.toNat < 0x20) (s : List Char) :
    readEscape ('u' :: '0' :: '0' :: hexDigit (c.toNat / 16) :: hexDigit (c.toNat % 16) :: s) =
      .ok (c, s) := by
  have hlow : isLowSurrogate c.toNat = false := by
    simp only [isLowSurrogate, Bool.and_eq_false_iff, decide_eq_false_iff_not]
    omega
  have hhigh : isHighSurrogate c.toNat = false := by
    simp only [isHighSurrogate, Bool.and_eq_false_iff, decide_eq_false_iff_not]
    omega
  simp [readEscape, hexEscape_control h, bind, Except.bind, hlow, hhigh]

/-- A character is written as it is, or as a backslash and an escape that reads back as it. -/
theorem escape_cases (c : Char) :
    (escape c = [c] ∧ c ≠ '"' ∧ c ≠ '\\' ∧ 0x20 ≤ c.toNat) ∨
      ∃ e, escape c = '\\' :: e ∧ ∀ s, readEscape (e ++ s) = .ok (c, s) := by
  unfold escape
  split_ifs with h1 h2 h3 h4 h5 h6 h7 h8
  · exact .inr ⟨_, rfl, fun s => by subst h1; rfl⟩
  · exact .inr ⟨_, rfl, fun s => by subst h2; rfl⟩
  · exact .inr ⟨_, rfl, fun s => by subst h3; rfl⟩
  · exact .inr ⟨_, rfl, fun s => by subst h4; rfl⟩
  · exact .inr ⟨_, rfl, fun s => by subst h5; rfl⟩
  · exact .inr ⟨_, rfl, fun s => by subst h6; rfl⟩
  · exact .inr ⟨_, rfl, fun s => by subst h7; rfl⟩
  · exact .inr ⟨_, rfl, fun s => readEscape_control h8 s⟩
  · exact .inl ⟨rfl, h1, h2, by omega⟩

theorem readStringFrom_escape (cs s : List Char) :
    ∀ fuel, cs.length < fuel →
      readStringFrom fuel (cs.flatMap escape ++ '"' :: s) = .ok (cs, s) := by
  induction cs with
  | nil =>
    intro fuel h
    obtain ⟨n, rfl⟩ := Nat.exists_eq_add_of_lt h
    simp [readStringFrom]
  | cons c cs ih =>
    intro fuel h
    obtain ⟨n, rfl⟩ : ∃ n, fuel = n + 1 := ⟨fuel - 1, by omega⟩
    have hcs := ih n (by simpa using h)
    rw [List.flatMap_cons, List.append_assoc]
    rcases escape_cases c with ⟨he, hq, hb, hc⟩ | ⟨e, he, hr⟩
    · have hc' : ¬ c.toNat < 0x20 := by omega
      simp [he, readStringFrom, hq, hb, hc', hcs, bind, Except.bind]
    · simp [he, readStringFrom, hr, hcs, bind, Except.bind]

theorem length_le_flatMap_escape (cs : List Char) : cs.length ≤ (cs.flatMap escape).length := by
  induction cs with
  | nil => simp
  | cons c cs ih =>
    have hc : 1 ≤ (escape c).length := by
      rcases escape_cases c with ⟨he, -⟩ | ⟨e, he, -⟩ <;> simp [he]
    simp only [List.flatMap_cons, List.length_append, List.length_cons]
    omega

/-- What follows the opening quote of a written string reads back as the string. -/
theorem readStringBody_escape (text : String) (s : List Char) :
    readStringBody (text.toList.flatMap escape ++ '"' :: s) = .ok (text, s) := by
  have hl := length_le_flatMap_escape text.toList
  unfold readStringBody
  rw [readStringFrom_escape _ _ _ (by simp only [List.length_append, List.length_cons]; omega)]
  simp [bind, Except.bind]

theorem quote_append (text : String) (s : List Char) :
    quote text ++ s = '"' :: (text.toList.flatMap escape ++ '"' :: s) := by
  simp [quote]

end Companion.Json
