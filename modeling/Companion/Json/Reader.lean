import Companion.Json.Scalar

/-!
# Reading JSON

Readers for the values that a program expects: texts, lists, maps and records, and for values of any
kind. They read the start of a text and say nothing about what follows. A record is an object, or a
list of its fields in their order; unknown members of the object are skipped.
-/

namespace Companion.Json

/-- Lists and objects nest at most this deep, unless they are skipped. -/
def maxDepth : Nat := 127

def closeList (s : List Char) : List Char :=
  match dropSpace s with
  | ']' :: s => s
  | ',' :: s => dropSpace s
  | s => s

def closeObject (s : List Char) : List Char :=
  match dropSpace s with
  | '\x7d' :: s => s
  | s => s

/-- The text at the next item of a list, or `none` at the closing bracket. -/
def nextItem? (first : Bool) (s : List Char) : Except Fault (Option (List Char)) :=
  match dropSpace s with
  | [] => .error (.here .endInList [])
  | ']' :: _ => .ok none
  | c :: s =>
    if first then .ok (some (c :: s))
    else if c = ',' then
      match dropSpace s with
      | [] => .error (.here .endInValue [])
      | ']' :: s => .error (.past 1 .trailingComma (']' :: s))
      | s => .ok (some s)
    else .error (.past 1 .listSeparatorExpected (c :: s))

/-- The text inside the key of the next member of an object, or `none` at the closing brace. -/
def nextKey? (first : Bool) (s : List Char) : Except Fault (Option (List Char)) :=
  let key (s : List Char) : Except Fault (Option (List Char)) :=
    match s with
    | [] => .error (.here .endInValue [])
    | '"' :: s => .ok (some s)
    | '\x7d' :: s => .error (.past 1 .trailingComma ('\x7d' :: s))
    | s => .error (.past 1 .keyExpected s)
  match dropSpace s with
  | [] => .error (.here .endInObject [])
  | '\x7d' :: _ => .ok none
  | c :: s =>
    if first then key (c :: s)
    else if c = ',' then key (dropSpace s)
    else .error (.past 1 .objectSeparatorExpected (c :: s))

def expectColon (s : List Char) : Except Fault (List Char) :=
  match dropSpace s with
  | [] => .error (.here .endInObject [])
  | ':' :: s => .ok s
  | s => .error (.past 1 .colonExpected s)

def skipKey (s : List Char) : Except Fault (List Char) :=
  match dropSpace s with
  | [] => .error (.here .endInObject [])
  | '"' :: s => do expectColon (← skipStringBody s)
  | s => .error (.past 1 .keyExpected s)

mutual

/-- Skips a value, in at most `fuel` steps. -/
def skipValueFrom : Nat → List Char → Except Fault (List Char)
  | 0, s => .error (.here .endInValue s)
  | fuel + 1, s =>
    match dropSpace s with
    | [] => .error (.here .endInValue [])
    | 'n' :: s => expectWord "ull".toList s
    | 't' :: s => expectWord "rue".toList s
    | 'f' :: s => expectWord "alse".toList s
    | '"' :: s => skipStringBody s
    | '[' :: s =>
      match dropSpace s with
      | [] => .error (.here .endInList [])
      | ']' :: s => .ok s
      | s => do skipItemsFrom fuel (← skipValueFrom fuel s)
    | '\x7b' :: s =>
      match dropSpace s with
      | [] => .error (.here .endInObject [])
      | '\x7d' :: s => .ok s
      | s => do skipMembersFrom fuel (← skipValueFrom fuel (← skipKey s))
    | c :: s =>
      if c = '-' ∨ c.isDigit then skipNumber (c :: s)
      else .error (.past 1 .valueExpected (c :: s))

def skipItemsFrom : Nat → List Char → Except Fault (List Char)
  | 0, s => .error (.here .endInList s)
  | fuel + 1, s =>
    match dropSpace s with
    | [] => .error (.here .endInList [])
    | ']' :: s => .ok s
    | ',' :: s => do skipItemsFrom fuel (← skipValueFrom fuel s)
    | s => .error (.past 1 .listSeparatorExpected s)

def skipMembersFrom : Nat → List Char → Except Fault (List Char)
  | 0, s => .error (.here .endInObject s)
  | fuel + 1, s =>
    match dropSpace s with
    | [] => .error (.here .endInObject [])
    | '\x7d' :: s => .ok s
    | ',' :: s => do skipMembersFrom fuel (← skipValueFrom fuel (← skipKey s))
    | s => .error (.past 1 .objectSeparatorExpected s)

end

def skipValue (s : List Char) : Except Fault (List Char) :=
  skipValueFrom (s.length + 1) s

/-- The fault of a value that is not what was expected. Words, numbers and strings are read first;
lists and objects are not. -/
def wrongType (expected : String) (s : List Char) : Fault :=
  let found (text : String) (rest : List Char) : Fault := .here (.wrongType text expected) rest
  let word (w : String) (text : String) (s : List Char) : Fault :=
    match expectWord w.toList s with
    | .ok rest => found text rest
    | .error f => f
  match dropSpace s with
  | [] => .here .endInValue []
  | 'n' :: s => word "ull" "null" s
  | 't' :: s => word "rue" "boolean `true`" s
  | 'f' :: s => word "alse" "boolean `false`" s
  | '"' :: s =>
    match readStringBody s with
    | .ok (text, rest) => found ("string " ++ Text.quoted text) rest
    | .error f => f
  | '[' :: s => found "sequence" ('[' :: s)
  | '\x7b' :: s => found "map" ('\x7b' :: s)
  | c :: s =>
    if c = '-' ∨ c.isDigit then
      match readNumber (c :: s) with
      | .ok (.integer n, rest) => found ("integer `" ++ (Number.integer n).text ++ "`") rest
      | .ok (.real x, rest) => found ("floating point `" ++ (Number.real x).text ++ "`") rest
      | .error f => f
    else .past 1 .valueExpected (c :: s)

def readText (expected : String) : Reader String := fun s =>
  match dropSpace s with
  | '"' :: s => readStringBody s
  | s => .error (wrongType expected s)

/-- Reads `null` as nothing. -/
def readOptional {α : Type} (read : Reader α) : Reader (Option α) := fun s =>
  match dropSpace s with
  | 'n' :: s => (expectWord "ull".toList s).map fun rest => (none, rest)
  | s => (read s).map fun (x, rest) => (some x, rest)

/-- Reads the items of a list from the one with that index on, in at most `fuel` steps. The rest
starts with the closing bracket. -/
def readItemsFrom {α : Type} (item : Reader α) : Nat → Nat → Reader (List α)
  | 0, _, s => .error (.here .endInList s)
  | fuel + 1, i, s => do
    match ← nextItem? (i == 0) s with
    | none => .ok ([], dropSpace s)
    | some s =>
      let (x, s) ← (item s).mapError (.under (.index i))
      let (xs, s) ← readItemsFrom item fuel (i + 1) s
      .ok (x :: xs, s)

def readListBody {α : Type} (item : Reader α) : Reader (List α) := fun s => do
  let (xs, rest) ← (readItemsFrom item (s.length + 1) 0 s).mapError (.settle closeList)
  .ok (xs, rest.drop 1)

/-- Reads a list. Its items are read with one level less. -/
def readList {α : Type} (depth : Nat) (item : Nat → Reader α) : Reader (List α) := fun s =>
  match dropSpace s with
  | '[' :: s =>
    match depth with
    | 0 => .error (.past 1 .tooDeep ('[' :: s))
    | depth + 1 => readListBody (item depth) s
  | s => .error (wrongType "a sequence" s)

/-- Reads the members of an object, in at most `fuel` steps. `member` says for a key how to read its
value, or why there may be no such member. The rest starts with the closing brace. -/
def readMembersFrom {σ : Type} (member : String → σ → Except Cause (Reader σ)) :
    Nat → Bool → σ → Reader σ
  | 0, _, _, s => .error (.here .endInObject s)
  | fuel + 1, first, state, s => do
    match ← (nextKey? first s).mapError (.under .unknown) with
    | none => .ok (state, dropSpace s)
    | some s =>
      let (key, s) ← (readStringBody s).mapError (.under .unknown)
      match member key state with
      | .error cause => .error (.ofValue cause s)
      | .ok read =>
        let (state, s) ← (read (← expectColon s)).mapError (.under (.key key))
        readMembersFrom member fuel false state s

/-- Reads an object whose opening brace has been read. `finish` checks the result. -/
def readObjectBody {σ : Type} (member : String → σ → Except Cause (Reader σ))
    (finish : σ → Except Cause σ) (start : σ) : Reader σ := fun s => do
  let read : Except Fault (σ × List Char) := do
    let (state, rest) ← readMembersFrom member (s.length + 1) true start s
    match finish state with
    | .error cause => .error (.ofValue cause rest)
    | .ok state => .ok (state, rest)
  let (state, rest) ← read.mapError (.settle closeObject)
  .ok (state, rest.drop 1)

/-- Reads an object of texts. `insert` puts a member in, given its key. -/
def readTextMap {σ : Type} (depth : Nat) (insert : String → String → σ → σ) (start : σ) :
    Reader σ := fun s =>
  match dropSpace s with
  | '\x7b' :: s =>
    match depth with
    | 0 => .error (.past 1 .tooDeep ('\x7b' :: s))
    | _ + 1 =>
      readObjectBody (fun key map => .ok fun s => do
        let (value, rest) ← readText "a string" s
        .ok (insert key value map, rest)) .ok start s
  | s => .error (wrongType "a map" s)

def readValue : Nat → Reader Value
  | depth, s =>
    match dropSpace s with
    | [] => .error (.here .endInValue [])
    | 'n' :: s => (expectWord "ull".toList s).map fun rest => (.null, rest)
    | 't' :: s => (expectWord "rue".toList s).map fun rest => (.bool true, rest)
    | 'f' :: s => (expectWord "alse".toList s).map fun rest => (.bool false, rest)
    | '"' :: s => (readStringBody s).map fun (text, rest) => (.string text, rest)
    | '[' :: s =>
      match depth with
      | 0 => .error (.past 1 .tooDeep ('[' :: s))
      | depth + 1 => (readListBody (readValue depth) s).map fun (xs, rest) => (.array xs, rest)
    | '\x7b' :: s =>
      match depth with
      | 0 => .error (.past 1 .tooDeep ('\x7b' :: s))
      | depth + 1 =>
        let member (key : String) (members : List (String × Value)) :
            Except Cause (Reader (List (String × Value))) :=
          .ok fun s => (readValue depth s).map fun (v, rest) => (members ++ [(key, v)], rest)
        (readObjectBody member .ok [] s).map fun (ms, rest) => (.object ms, rest)
    | c :: s =>
      if c = '-' ∨ c.isDigit then
        (readNumber (c :: s)).map fun (n, rest) => (.number n, rest)
      else .error (.past 1 .valueExpected (c :: s))

/-- A field of a record: its name, whether the record needs it, and how it is read into one. -/
structure RecordField (σ : Type) where
  name : String
  required : Bool
  read : Nat → σ → Reader σ

/-- The kind of a record: its name and its fields. -/
structure Record (σ : Type) where
  name : String
  fields : List (RecordField σ)

namespace Record

variable {σ : Type}

def title (r : Record σ) : String :=
  "struct " ++ r.name

def listTitle (r : Record σ) : String :=
  r.title ++ " with " ++ toString r.fields.length ++ " elements"

def readInOrder (r : Record σ) (depth : Nat) : Nat → List (RecordField σ) → σ → Reader σ
  | _, [], state, s =>
    match dropSpace s with
    | [] => .error (.here .endInList [])
    | ']' :: s => .ok (state, s)
    | ',' :: s =>
      match dropSpace s with
      | ']' :: s => .error (.past 1 .trailingComma (']' :: s))
      | s => .error (.past 1 .trailingCharacters s)
    | s => .error (.past 1 .trailingCharacters s)
  | i, f :: fs, state, s => do
    match ← nextItem? (i == 0) s with
    | none =>
      if f.required then .error (.ofValue (.tooShort i r.listTitle) s)
      else readInOrder r depth (i + 1) fs state s
    | some s =>
      let (state, s) ← (f.read depth state s).mapError (.under (.index i))
      readInOrder r depth (i + 1) fs state s

/-- The member of a record with that key, given the fields that have been read. -/
def member (r : Record σ) (depth : Nat) (key : String) (state : List String × σ) :
    Except Cause (Reader (List String × σ)) :=
  match r.fields.find? (·.name == key) with
  | none => .ok fun s => (skipValue s).map fun rest => (state, rest)
  | some f =>
    if state.1.contains key then .error (.duplicateField key)
    else .ok fun s => (f.read depth state.2 s).map fun (x, rest) => ((key :: state.1, x), rest)

/-- The first required field that has not been read is missing. -/
def complete (r : Record σ) (state : List String × σ) : Except Cause (List String × σ) :=
  match r.fields.find? fun f => f.required && !state.1.contains f.name with
  | some f => .error (.missingField f.name)
  | none => .ok state

/-- Reads a record into one that holds the defaults. -/
def read (r : Record σ) (depth : Nat) (start : σ) : Reader σ := fun s =>
  match dropSpace s with
  | '[' :: s =>
    match depth with
    | 0 => .error (.past 1 .tooDeep ('[' :: s))
    | depth + 1 => (r.readInOrder depth 0 r.fields start s).mapError (.settle closeList)
  | '\x7b' :: s =>
    match depth with
    | 0 => .error (.past 1 .tooDeep ('\x7b' :: s))
    | depth + 1 =>
      (readObjectBody (r.member depth) r.complete ([], start) s).map fun (x, rest) => (x.2, rest)
  | s => .error (wrongType r.title s)

end Record

def Value.ofText? (text : String) : Option Value :=
  match readValue maxDepth text.toList with
  | .ok (v, _) => some v
  | .error _ => none

end Companion.Json
