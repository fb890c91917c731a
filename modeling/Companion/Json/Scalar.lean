import Companion.Json.Fault
import Companion.Json.Value
import Companion.Unicode.Ranges

/-!
# Reading JSON scalars

White space, words, numbers and strings, each read or skipped. Skipping checks the form alone:
numbers of any size and halves of surrogate pairs pass.
-/

namespace Companion.Json

def isSpace (c : Char) : Bool :=
  c == ' ' || c == '\n' || c == '\t' || c == '\r'

def dropSpace (s : List Char) : List Char :=
  s.dropWhile isSpace

def expectWord : List Char → List Char → Except Fault (List Char)
  | [], s => .ok s
  | _ :: _, [] => .error (.here .endInValue [])
  | w :: ws, c :: cs =>
    if w = c then expectWord ws cs else .error (.past 1 .wordExpected (c :: cs))

def digitValue (c : Char) : Nat :=
  c.toNat - '0'.toNat

/-- Appends the digits at the start of a text to a number while it has 64 bits: the number, how many
digits were taken, and the rest. -/
def appendDigits (n : Nat) : List Char → Nat × Nat × List Char
  | [] => (n, 0, [])
  | c :: cs =>
    if c.isDigit ∧ 10 * n + digitValue c < Nat.pow 2 64 then
      let (m, taken, rest) := appendDigits (10 * n + digitValue c) cs
      (m, taken + 1, rest)
    else (n, 0, c :: cs)

/-- `x * 10 ^ exponent` in steps of at most 308 decimal places, unless that is too large. -/
def scaleDecimal : Nat → Float → Int → Option Float
  | 0, x, _ => some x
  | steps + 1, x, exponent =>
    if exponent.natAbs ≤ 308 then
      let power := Float.ofScientific 1 false exponent.natAbs
      if 0 ≤ exponent then
        let y := x * power
        if y.isInf then none else some y
      else some (x / power)
    else if x == 0.0 then some x
    else if 0 ≤ exponent then none
    else scaleDecimal steps (x / 1e308) (exponent + 308)

def realNumber (negative : Bool) (digits : Nat) (exponent : Int) (rest : List Char) :
    Except Fault (Number × List Char) :=
  match scaleDecimal 4 (UInt64.ofNat digits).toFloat exponent with
  | none => .error (.here .numberTooLarge rest)
  | some x => .ok (.real (if negative then -x else x), rest)

def maxExponent : Nat := Nat.pow 2 31 - 1

/-- Appends the digits of an exponent. `none` stands for one that is too large; the text is then
what follows the first digit too many. -/
def appendExponent (n : Nat) : List Char → Option Nat × List Char
  | [] => (some n, [])
  | c :: cs =>
    if c.isDigit then
      if maxExponent < 10 * n + digitValue c then (none, cs)
      else appendExponent (10 * n + digitValue c) cs
    else (some n, c :: cs)

def exponentSign : List Char → Bool × List Char
  | '+' :: s => (false, s)
  | '-' :: s => (true, s)
  | s => (false, s)

/-- Reads a number from its exponent on; the `e` has been read. -/
def readExponent (negative : Bool) (digits : Nat) (scale : Int) (s : List Char) :
    Except Fault (Number × List Char) :=
  let (down, s) := exponentSign s
  match s with
  | [] => .error (.here .endInValue [])
  | c :: cs =>
    if c.isDigit then
      match appendExponent (digitValue c) cs with
      | (some n, rest) => realNumber negative digits (if down then scale - n else scale + n) rest
      | (none, rest) =>
        if digits ≠ 0 ∧ !down then .error (.here .numberTooLarge rest)
        else realNumber negative 0 0 (rest.dropWhile Char.isDigit)
    else .error (.past 1 .badNumber s)

/-- Reads a number from what follows its digits on, unless that is a point. -/
def readScale (negative : Bool) (digits : Nat) (scale : Int) (s : List Char) :
    Except Fault (Number × List Char) :=
  match s with
  | 'e' :: s => readExponent negative digits scale s
  | 'E' :: s => readExponent negative digits scale s
  | s => realNumber negative digits scale s

/-- Reads a number from its decimal places on; the point has been read. -/
def readPlaces (negative : Bool) (digits : Nat) (scale : Int) (s : List Char) :
    Except Fault (Number × List Char) :=
  if s.head?.any Char.isDigit then
    let (digits, taken, rest) := appendDigits digits s
    readScale negative digits (scale - taken) (rest.dropWhile Char.isDigit)
  else if s.isEmpty then .error (.here .endInValue s)
  else .error (.past 1 .badNumber s)

/-- The number with these digits and none after the point. -/
def wholeNumber (negative : Bool) (digits : Nat) : Number :=
  if !negative then .integer digits
  else if 0 < digits ∧ digits ≤ Nat.pow 2 63 then .integer (-digits)
  else .real (-(UInt64.ofNat digits).toFloat)

/-- Reads a number from what follows the digits of its whole part on. -/
def readWhole (negative : Bool) (digits : Nat) (s : List Char) :
    Except Fault (Number × List Char) :=
  match s with
  | '.' :: s => readPlaces negative digits 0 s
  | 'e' :: s => readExponent negative digits 0 s
  | 'E' :: s => readExponent negative digits 0 s
  | s => .ok (wholeNumber negative digits, s)

def readMagnitude (negative : Bool) (s : List Char) : Except Fault (Number × List Char) :=
  match s with
  | [] => .error (.here .endInValue [])
  | '0' :: s =>
    if s.head?.any Char.isDigit then .error (.past 1 .badNumber s) else readWhole negative 0 s
  | s =>
    if s.head?.any Char.isDigit then
      let (digits, _, rest) := appendDigits 0 s
      let more := rest.takeWhile Char.isDigit
      if more.isEmpty then readWhole negative digits rest
      else
        match rest.dropWhile Char.isDigit with
        | '.' :: s => readPlaces negative digits more.length s
        | s => readScale negative digits more.length s
    else .error (.past 1 .badNumber s)

def readNumber : Reader Number
  | '-' :: s => readMagnitude true s
  | s => readMagnitude false s

def skipExponent (s : List Char) : Except Fault (List Char) :=
  let (_, s) := exponentSign s
  if s.head?.any Char.isDigit then .ok (s.dropWhile Char.isDigit)
  else .error (.past 1 .badNumber s)

def skipScale : List Char → Except Fault (List Char)
  | 'e' :: s => skipExponent s
  | 'E' :: s => skipExponent s
  | s => .ok s

def skipPlaces : List Char → Except Fault (List Char)
  | '.' :: s =>
    if s.head?.any Char.isDigit then skipScale (s.dropWhile Char.isDigit)
    else .error (.past 1 .badNumber s)
  | s => skipScale s

def skipMagnitude : List Char → Except Fault (List Char)
  | '0' :: s =>
    if s.head?.any Char.isDigit then .error (.past 1 .badNumber s) else skipPlaces s
  | s =>
    if s.head?.any Char.isDigit then skipPlaces (s.dropWhile Char.isDigit)
    else .error (.past 1 .badNumber s)

def skipNumber : List Char → Except Fault (List Char)
  | '-' :: s => skipMagnitude s
  | s => skipMagnitude s

/-- The number written by four hexadecimal digits at the start of a text. -/
def hexEscape : Reader Nat
  | a :: b :: c :: d :: s =>
    if [a, b, c, d].all fun x => (Unicode.hexDigit? x).isSome then
      .ok (Unicode.readHex [a, b, c, d], s)
    else .error (.past 4 .badEscape (a :: b :: c :: d :: s))
  | s =>
    if Text.byteCount s < 4 then .error (.here .endInString [])
    else .error (.past 4 .badEscape s)

def escapedChar? : Char → Option Char
  | '"' => some '"'
  | '\\' => some '\\'
  | '/' => some '/'
  | 'b' => some '\x08'
  | 'f' => some '\x0c'
  | 'n' => some '\n'
  | 'r' => some '\r'
  | 't' => some '\t'
  | _ => none

def isHighSurrogate (n : Nat) : Bool :=
  0xD800 ≤ n && n ≤ 0xDBFF

def isLowSurrogate (n : Nat) : Bool :=
  0xDC00 ≤ n && n ≤ 0xDFFF

def surrogatePair (high low : Nat) : Char :=
  Char.ofNat (0x10000 + (high - 0xD800) * 0x400 + (low - 0xDC00))

/-- Reads the second half of a surrogate pair and gives the character. -/
def readLowSurrogate (high : Nat) : Reader Char
  | [] => .error (.here .endInString [])
  | ['\\'] => .error (.here .endInString [])
  | '\\' :: 'u' :: s => do
    let (low, s) ← hexEscape s
    if isLowSurrogate low then .ok (surrogatePair high low, s)
    else .error (.here .loneSurrogate s)
  | '\\' :: s => .error (.past 1 .surrogateCutOff s)
  | s => .error (.past 1 .surrogateCutOff s)

/-- Reads the character that an escape stands for; the backslash has been read. -/
def readEscape : Reader Char
  | [] => .error (.here .endInString [])
  | 'u' :: s => do
    let (n, s) ← hexEscape s
    if isLowSurrogate n then .error (.here .loneSurrogate s)
    else if isHighSurrogate n then readLowSurrogate n s
    else .ok (Char.ofNat n, s)
  | c :: s =>
    match escapedChar? c with
    | some e => .ok (e, s)
    | none => .error (.past 1 .badEscape (c :: s))

/-- Reads up to the closing quote of a string, in at most `fuel` characters. -/
def readStringFrom : Nat → Reader (List Char)
  | 0, s => .error (.here .endInString s)
  | _ + 1, [] => .error (.here .endInString [])
  | fuel + 1, c :: s =>
    if c = '"' then .ok ([], s)
    else if c = '\\' then do
      let (e, s) ← readEscape s
      let (cs, s) ← readStringFrom fuel s
      .ok (e :: cs, s)
    else if c.toNat < 0x20 then .error (.past 1 .controlCharacter (c :: s))
    else do
      let (cs, s) ← readStringFrom fuel s
      .ok (c :: cs, s)

def readStringBody : Reader String := fun s => do
  let (cs, rest) ← readStringFrom (s.length + 1) s
  .ok (String.ofList cs, rest)

def skipEscape : List Char → Except Fault (List Char)
  | [] => .error (.here .endInString [])
  | 'u' :: s => (hexEscape s).map (·.2)
  | c :: s => if (escapedChar? c).isSome then .ok s else .error (.past 1 .badEscape (c :: s))

/-- Skips to after the closing quote of a string, in at most `fuel` characters. -/
def skipStringFrom : Nat → List Char → Except Fault (List Char)
  | 0, s => .error (.here .endInString s)
  | _ + 1, [] => .error (.here .endInString [])
  | fuel + 1, c :: s =>
    if c = '"' then .ok s
    else if c = '\\' then do skipStringFrom fuel (← skipEscape s)
    else if c.toNat < 0x20 then .error (.here .controlCharacter (c :: s))
    else skipStringFrom fuel s

def skipStringBody (s : List Char) : Except Fault (List Char) :=
  skipStringFrom (s.length + 1) s

end Companion.Json
