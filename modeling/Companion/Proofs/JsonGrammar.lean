import Companion.Json.Reader

/-!
# The grammar of JSON

Which texts are values, by their form alone and without what they stand for. A list and an object
hold items with commas between them and white space around them (`Items`). A value ends where it
is complete, except that a number goes on as long as its text can (`EndsNumber`).
-/

namespace Companion.Json

def IsGap (s : List Char) : Prop :=
  s.all isSpace

def IsDigits (s : List Char) : Prop :=
  s ≠ [] ∧ s.all Char.isDigit

/-- The digits of a number up to the point. Zero stands alone. -/
inductive IsWhole : List Char → Prop where
  | zero : IsWhole ['0']
  | digits {c : Char} {s : List Char} :
    c.isDigit → c ≠ '0' → s.all Char.isDigit → IsWhole (c :: s)

/-- The point and the digits after it, if any. -/
inductive IsFraction : List Char → Prop where
  | none : IsFraction []
  | digits {s : List Char} : IsDigits s → IsFraction ('.' :: s)

inductive IsExponent : List Char → Prop where
  | none : IsExponent []
  | digits {e : Char} {sign s : List Char} :
    e ∈ ['e', 'E'] → sign ∈ [[], ['+'], ['-']] → IsDigits s → IsExponent (e :: (sign ++ s))

inductive IsNumber : List Char → Prop where
  | mk {sign whole fraction exponent : List Char} :
    sign ∈ [[], ['-']] → IsWhole whole → IsFraction fraction → IsExponent exponent →
      IsNumber (sign ++ (whole ++ (fraction ++ exponent)))

/-- What follows the opening quote of a string, with the closing quote. -/
inductive IsStringBody : List Char → Prop where
  | close : IsStringBody ['"']
  | char {c : Char} {s : List Char} :
    c ≠ '"' → c ≠ '\\' → 0x20 ≤ c.toNat → IsStringBody s → IsStringBody (c :: s)
  | escape {c : Char} {s : List Char} :
    c ∈ ['"', '\\', '/', 'b', 'f', 'n', 'r', 't'] → IsStringBody s →
      IsStringBody ('\\' :: c :: s)
  | unicode {a b c d : Char} {s : List Char} :
    ([a, b, c, d].all fun x => (Unicode.hexDigit? x).isSome) → IsStringBody s →
      IsStringBody ('\\' :: 'u' :: a :: b :: c :: d :: s)

/-- Characters that need no escape stand in a string as they are. -/
theorem isStringBody_append_quote {s : List Char}
    (h : s.all fun c => c ≠ '"' && c ≠ '\\' && 0x20 ≤ c.toNat) : IsStringBody (s ++ ['"']) := by
  induction s with
  | nil => exact .close
  | cons c s ih =>
    simp only [List.all_cons, Bool.and_eq_true, decide_eq_true_eq, ne_eq] at h
    obtain ⟨⟨⟨hquote, hslash⟩, hc⟩, hs⟩ := h
    exact .char hquote hslash hc (ih hs)

/-- What stands before an item: white space, and a comma unless the item is the first. -/
def Opens : Bool → List Char → Prop
  | true, s => IsGap s
  | false, s => ∃ before after, s = before ++ ',' :: after ∧ IsGap before ∧ IsGap after

/-- A text up to a closing bracket, made of items; `first` says that no item stands before it. -/
def Items (first : Bool) : List (List Char) → List Char → Prop
  | [], s => IsGap s
  | t :: ts, s => ∃ before more, s = before ++ (t ++ more) ∧ Opens first before ∧
      Items false ts more

/-- A member of an object in its parts: what follows the opening quote of the key, the white space
around the colon, and the value. -/
structure MemberText where
  key : List Char
  beforeColon : List Char
  afterColon : List Char
  value : List Char

namespace MemberText

def text (m : MemberText) : List Char :=
  '"' :: (m.key ++ (m.beforeColon ++ ':' :: (m.afterColon ++ m.value)))

/-- The parts of a member around its value have their form. -/
structure IsFrame (m : MemberText) : Prop where
  key : IsStringBody m.key
  beforeColon : IsGap m.beforeColon
  afterColon : IsGap m.afterColon

end MemberText

inductive IsValue : List Char → Prop where
  | word {s : List Char} :
    s ∈ ["null".toList, "true".toList, "false".toList] → IsValue s
  | number {s : List Char} : IsNumber s → IsValue s
  | string {s : List Char} : IsStringBody s → IsValue ('"' :: s)
  | array {ts : List (List Char)} {s : List Char} :
    Items true ts s → (∀ t ∈ ts, IsValue t) → IsValue ('[' :: (s ++ [']']))
  | object {ms : List MemberText} {s : List Char} :
    Items true (ms.map MemberText.text) s → (∀ m ∈ ms, m.IsFrame) → (∀ m ∈ ms, IsValue m.value) →
      IsValue ('\x7b' :: (s ++ ['\x7d']))

/-- A number that stands before the text ends there. -/
def EndsNumber (s : List Char) : Prop :=
  ∀ c ∈ s.head?, c.isDigit = false ∧ c ∉ ['.', 'e', 'E']

end Companion.Json
