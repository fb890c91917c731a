import Companion.Pattern.Fault
import Companion.Pattern.Node
import Companion.Text.Basic

/-!
# Escapes

What a backslash and the characters after it stand for, with the flags that decide about it.
-/

namespace Companion.Pattern

structure Flags where
  ignoreCase : Bool
  multiLine : Bool
  dotAll : Bool
  swapGreed : Bool
  anyLineEnds : Bool
  unicode : Bool
  verbose : Bool
  deriving DecidableEq, Repr

def Flags.default : Flags := ⟨false, false, false, false, false, true, false⟩

/-- Skips white space and comments, which end with their line. -/
def skipVerbose (inComment : Bool) : List Char → List Char
  | [] => []
  | c :: cs =>
    if inComment then skipVerbose (c != '\n') cs
    else if Unicode.isBlank c then skipVerbose false cs
    else if c = '#' then skipVerbose true cs
    else c :: cs

/-- What is skipped between the parts of a pattern. -/
def Flags.skip (f : Flags) (s : List Char) : List Char :=
  if f.verbose then skipVerbose false s else s

/-- The set without regard to case if the settings say so. -/
def Flags.fold (f : Flags) (s : CharSet) : CharSet :=
  if f.ignoreCase then (if f.unicode then .folded s else .foldedASCII s) else s

inductive Escaped where
  | char (c : Char)
  | look (condition : Look)
  | set (s : CharSet)
  deriving DecidableEq, Repr

/-- Characters with a meaning of their own. -/
def isMeta (c : Char) : Bool :=
  ['\\', '.', '+', '*', '?', '(', ')', '|', '[', ']', '\x7b', '\x7d', '^', '$', '#', '&', '-',
    '~'].contains c

/-- Characters that stand for themselves after a backslash. -/
def isEscapable (c : Char) : Bool :=
  isMeta c || (c.toNat < 0x80 && !c.isAlphanum && c != '<' && c != '>')

def codePoint? (digits : List Char) : Option Char :=
  let n := Unicode.readHex digits
  if n.isValidChar then some (Char.ofNat n) else none

def readDigits (f : Flags) : Nat → List Char → Except Fault (List Char × List Char)
  | 0, s => .ok ([], s)
  | n + 1, s =>
    match s with
    | [] => .error .badEscape
    | c :: cs =>
      if (Unicode.hexDigit? c).isSome then do
        let (ds, rest) ← readDigits f n (f.skip cs)
        .ok (c :: ds, rest)
      else .error .badEscape

def readBraced (f : Flags) : List Char → Option (List Char × List Char)
  | s => go s.length s
where
  go : Nat → List Char → Option (List Char × List Char)
  | 0, _ => none
  | fuel + 1, s =>
    match f.skip s with
    | [] => none
    | c :: cs =>
      if c = '\x7d' then some ([], cs)
      else (go fuel cs).map fun (inside, rest) => (c :: inside, rest)

/-- Reads a code point of so many digits, or of any number of them between braces. -/
def readCodePoint (f : Flags) (count : Nat) (s : List Char) :
    Except Fault (Char × List Char) :=
  match f.skip s with
  | '\x7b' :: s =>
    match readBraced f s with
    | none => .error .badEscape
    | some (digits, rest) =>
      if digits.isEmpty || !digits.all fun c => (Unicode.hexDigit? c).isSome then .error .badEscape
      else
        match codePoint? digits with
        | some c => .ok (c, f.skip rest)
        | none => .error .badEscape
  | s => do
    let (digits, rest) ← readDigits f count s
    match codePoint? digits with
    | some c => .ok (c, rest)
    | none => .error .badEscape

/-- The set of a property, written `name`, `name=value`, `name:value` or `name!=value`, and whether
it is the complement that is meant. -/
def propertySet? (text : List Char) : Option (Bool × CharSet) :=
  match Text.breakOn? ['!', '='] text with
  | some (name, value) => (CharSet.ofNameAndValue? name value).map fun set => (true, set)
  | none =>
    match (Text.breakOn? [':'] text).or (Text.breakOn? ['='] text) with
    | some (name, value) => (CharSet.ofNameAndValue? name value).map fun set => (false, set)
    | none => (CharSet.ofName? text).map fun set => (false, set)

def propertyClass (f : Flags) (negated : Bool) (text : List Char) : Except Fault CharSet :=
  if !f.unicode then .error .beyondASCII
  else
    match propertySet? text with
    | none => .error .unknownProperty
    | some (flipped, set) =>
      .ok (if negated == flipped then f.fold set else .complement (f.fold set))

def readProperty (f : Flags) (negated : Bool) (s : List Char) :
    Except Fault (CharSet × List Char) :=
  match f.skip s with
  | [] => .error .badEscape
  | '\x7b' :: s =>
    match readBraced f s with
    | none => .error .badEscape
    | some (name, rest) => (propertyClass f negated name).map fun set => (set, rest)
  | '\\' :: _ => .error .badEscape
  | c :: s => (propertyClass f negated [c]).map fun set => (set, f.skip s)

/-- One of the sets of digits, white space and word characters, or what it leaves out. -/
def readClassLetter (f : Flags) (property : Property) (ascii : CharSet) (negated : Bool) :
    Except Fault CharSet :=
  if f.unicode then .ok (if negated then .complement (.having property) else .having property)
  else if negated then .error .beyondASCII
  else .ok ascii

def boundaryOfName? (ascii : Bool) (name : List Char) : Option Look :=
  match String.ofList name with
  | "start" => some (.wordStart ascii)
  | "end" => some (.wordEnd ascii)
  | "start-half" => some (.halfWordStart ascii)
  | "end-half" => some (.halfWordEnd ascii)
  | _ => none

/-- Reads what follows `\b`: a kind of boundary between braces, or nothing. -/
def readBoundary (f : Flags) (s : List Char) : Except Fault (Look × List Char) :=
  let isPart (c : Char) := c.isAlpha || c == '-'
  match s with
  | '\x7b' :: rest =>
    match f.skip rest with
    | [] => .error .badEscape
    | c :: cs =>
      if !isPart c then .ok (.boundary (!f.unicode), s)
      else
        match readBraced f (c :: cs) with
        | none => .error .badEscape
        | some (name, rest) =>
          match boundaryOfName? (!f.unicode) name with
          | some look => .ok (look, rest)
          | none => .error .badEscape
  | _ => .ok (.boundary (!f.unicode), s)

/-- A character given by two hexadecimal digits, which is a byte where only ASCII is matched. -/
def byteEscape (f : Flags) (braced : Bool) (c : Char) : Except Fault Escaped :=
  if !f.unicode && !braced && 0x7F < c.toNat then .error .beyondASCII else .ok (.char c)

def readEscape (f : Flags) : List Char → Except Fault (Escaped × List Char)
  | [] => .error .badEscape
  | c :: s =>
    let letter (property : Property) (ascii : CharSet) (negated : Bool) :
        Except Fault (Escaped × List Char) :=
      (readClassLetter f property ascii negated).map fun set => (.set set, s)
    let look (condition : Look) : Except Fault (Escaped × List Char) := .ok (.look condition, s)
    let char (c : Char) : Except Fault (Escaped × List Char) := .ok (.char c, s)
    if c.isDigit then .error .backReference
    else
      match c with
      | 'x' => do
        let (x, rest) ← readCodePoint f 2 s
        (byteEscape f ((f.skip s).head? == some '\x7b') x).map fun e => (e, rest)
      | 'u' => (readCodePoint f 4 s).map fun (x, rest) => (.char x, rest)
      | 'U' => (readCodePoint f 8 s).map fun (x, rest) => (.char x, rest)
      | 'p' => (readProperty f false s).map fun (set, rest) => (.set set, rest)
      | 'P' => (readProperty f true s).map fun (set, rest) => (.set set, rest)
      | 'd' => letter .decimal CharSet.asciiDigit false
      | 'D' => letter .decimal CharSet.asciiDigit true
      | 's' => letter .whiteSpace CharSet.asciiBlank false
      | 'S' => letter .whiteSpace CharSet.asciiBlank true
      | 'w' => letter .word CharSet.asciiWord false
      | 'W' => letter .word CharSet.asciiWord true
      | 'a' => char '\x07'
      | 'f' => char '\x0c'
      | 't' => char '\t'
      | 'n' => char '\n'
      | 'r' => char '\r'
      | 'v' => char '\x0b'
      | 'A' => look .textStart
      | 'z' => look .textEnd
      | 'b' => (readBoundary f s).map fun (look, rest) => (.look look, rest)
      | 'B' => look (.noBoundary (!f.unicode))
      | '<' => look (.wordStart (!f.unicode))
      | '>' => look (.wordEnd (!f.unicode))
      | c => if isEscapable c then char c else .error .badEscape

end Companion.Pattern
