import Companion.Text.Basic
import Companion.Text.Quoted

/-!
# Faults of JSON texts

Why a text could not be read, where, and inside which value. A place is given by the text that is
left at it, so that a reader needs no positions; line and column are counted from the whole text
when a fault is shown. A loose fault has no place of its own: it is a fault of the value just read
and is placed where the list or object around that value stops being read.
-/

namespace Companion.Json

inductive Cause where
  | endInValue
  | endInList
  | endInObject
  | endInString
  | valueExpected
  | wordExpected
  | colonExpected
  | listSeparatorExpected
  | objectSeparatorExpected
  | keyExpected
  | trailingComma
  | trailingCharacters
  | badNumber
  | numberTooLarge
  | badEscape
  | controlCharacter
  | loneSurrogate
  | surrogateCutOff
  | tooDeep
  /-- A value of the wrong kind. -/
  | wrongType (found expected : String)
  /-- A list in place of an object that holds fewer values than the object needs. -/
  | tooShort (length : Nat) (expected : String)
  | missingField (name : String)
  | duplicateField (name : String)
  /-- No form of the named choice fits the value. -/
  | noForm (choice : String)
  deriving DecidableEq, Repr

def Cause.message : Cause → String
  | endInValue => "EOF while parsing a value"
  | endInList => "EOF while parsing a list"
  | endInObject => "EOF while parsing an object"
  | endInString => "EOF while parsing a string"
  | valueExpected => "expected value"
  | wordExpected => "expected ident"
  | colonExpected => "expected `:`"
  | listSeparatorExpected => "expected `,` or `]`"
  | objectSeparatorExpected => "expected `,` or `\x7d`"
  | keyExpected => "key must be a string"
  | trailingComma => "trailing comma"
  | trailingCharacters => "trailing characters"
  | badNumber => "invalid number"
  | numberTooLarge => "number out of range"
  | badEscape => "invalid escape"
  | controlCharacter => "control character (\\u0000-\\u001F) found while parsing a string"
  | loneSurrogate => "lone leading surrogate in hex escape"
  | surrogateCutOff => "unexpected end of hex escape"
  | tooDeep => "recursion limit exceeded"
  | wrongType found expected => "invalid type: " ++ found ++ ", expected " ++ expected
  | tooShort length expected => "invalid length " ++ toString length ++ ", expected " ++ expected
  | missingField name => "missing field `" ++ name ++ "`"
  | duplicateField name => "duplicate field `" ++ name ++ "`"
  | noForm choice => "data did not match any variant of untagged enum " ++ choice

/-- A step from a value into one that it holds. -/
inductive Segment where
  | index (i : Nat)
  | key (name : String)
  /-- The place of a member whose key could not be read. -/
  | unknown
  deriving DecidableEq, Repr

def pathTextFrom (first : Bool) : List Segment → String
  | [] => ""
  | .index i :: rest => "[" ++ toString i ++ "]" ++ pathTextFrom false rest
  | .key name :: rest => (if first then "" else ".") ++ name ++ pathTextFrom false rest
  | .unknown :: rest => (if first then "" else ".") ++ "?" ++ pathTextFrom false rest

def pathText : List Segment → String
  | [] => "."
  | path => pathTextFrom true path

/-- A fault: it lies `bytes` bytes into the text that was left. -/
structure Fault where
  cause : Cause
  rest : List Char
  bytes : Nat
  loose : Bool
  path : List Segment
  deriving DecidableEq, Repr

/-- The line, from 1, and the bytes of it before the place that lies so many bytes into the text. -/
def lineAndColumn (line column : Nat) : Nat → List Char → Nat × Nat
  | 0, _ => (line, column)
  | _, [] => (line, column)
  | left + 1, c :: cs =>
    if c = '\n' then lineAndColumn (line + 1) 0 left cs
    else lineAndColumn line (column + min c.utf8Size (left + 1)) (left + 1 - c.utf8Size) cs

namespace Fault

def here (cause : Cause) (rest : List Char) : Fault := ⟨cause, rest, 0, false, []⟩

/-- A fault just after the next bytes of the text that is left. -/
def past (bytes : Nat) (cause : Cause) (rest : List Char) : Fault := ⟨cause, rest, bytes, false, []⟩

def ofValue (cause : Cause) (rest : List Char) : Fault := ⟨cause, rest, 0, true, []⟩

/-- The fault as one inside of the value that the step leads from. -/
def under (segment : Segment) (f : Fault) : Fault := { f with path := segment :: f.path }

/-- Places a loose fault, given what is left of a text when a list or object stops being read. -/
def settle (close : List Char → List Char) (f : Fault) : Fault :=
  if f.loose then { f with rest := close f.rest, loose := false } else f

def position (text : List Char) (f : Fault) : Nat × Nat :=
  lineAndColumn 1 0 (Text.byteCount text - Text.byteCount f.rest + f.bytes) text

def message (text : List Char) (f : Fault) : String :=
  let place :=
    if f.loose then ""
    else
      let (line, column) := f.position text
      " at line " ++ toString line ++ " column " ++ toString column
  "at JSON path " ++ pathText f.path ++ " → " ++ f.cause.message ++ place

end Fault

/-- A reader of the start of a text: it gives a result and the text after it, or a fault. -/
abbrev Reader (α : Type) := List Char → Except Fault (α × List Char)

end Companion.Json
