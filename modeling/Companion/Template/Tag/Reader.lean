import Companion.Json.Reader
import Companion.Template.Tag
import Companion.Text.Basic

/-!
# Reading tags

A tag is read from the text after its opening braces. White space may stand between its parts.
-/

namespace Companion.Template

/-- The text after the white space that may stand between the parts of a tag. -/
def skip (s : List Char) : List Char :=
  Json.dropSpace s

def isNameChar (c : Char) : Bool :=
  c.isAlphanum || c == '_' || c == '-' || c == '$' || 0x80 ≤ c.toNat

def readName? (s : List Char) : Option (String × List Char) :=
  let part (c : Char) := isNameChar c || c == '/'
  if s.head?.any isNameChar then some (String.ofList (s.takeWhile part), s.dropWhile part)
  else none

def isSeparator (c : Char) : Bool :=
  c == '.' || c == '/'

/-- The step of a name. The name `this` leads nowhere. -/
def namedStep (name : List Char) : List Step :=
  if name = "this".toList then [] else [.name (String.ofList name)]

def readStep? : List Char → Option (List Step × List Char)
  | '.' :: '.' :: s => some ([.up], s)
  | '[' :: s =>
    match s.dropWhile (· != ']') with
    | [] => none
    | _ :: rest => some ([.name (String.ofList (s.takeWhile (· != ']')))], rest)
  | '.' :: '/' :: s => some ([], s)
  | s =>
    if s.head?.any isNameChar then some (namedStep (s.takeWhile isNameChar), s.dropWhile isNameChar)
    else none

/-- Reads the steps of a path after the first, in at most `fuel` characters. -/
def readSteps : Nat → List Char → List Step × List Char
  | 0, s => ([], s)
  | fuel + 1, s =>
    match s with
    | c :: rest =>
      if isSeparator c then
        match readStep? rest with
        | some (steps, rest) =>
          let (more, rest) := readSteps fuel rest
          (steps ++ more, rest)
        | none => ([], s)
      else ([], s)
    | [] => ([], [])

/-- The text after a start of a path that a separator follows. -/
def afterStart? (start : List Char) (s : List Char) : Option (List Char) :=
  match Text.afterPiece? start s with
  | some (c :: rest) => if isSeparator c then some rest else none
  | _ => none

def readPath? (s : List Char) : Option (Path × List Char) :=
  let body := ((Text.afterPiece? ['.', '/'] s).or (afterStart? "this".toList s)).getD s
  let (origin, body) :=
    match afterStart? "@root".toList body with
    | some rest => (Origin.root, rest)
    | none =>
      match body with
      | '@' :: rest => (.local, rest)
      | body => (.here, body)
  match readStep? body with
  | none => none
  | some (first, rest) =>
    let (more, rest) := readSteps rest.length rest
    some (⟨String.ofList (s.take (s.length - rest.length)), origin, first ++ more⟩, rest)

/-- Reads a string between the quotes; the first one has been read. -/
def readQuoted? (quote : Char) : List Char → Option (List Char × List Char)
  | [] => none
  | '\\' :: c :: s => (readQuoted? quote s).map fun (inside, rest) => ('\\' :: c :: inside, rest)
  | c :: s =>
    if c = quote then some ([], s)
    else (readQuoted? quote s).map fun (inside, rest) => (c :: inside, rest)

/-- A string in single quotes as it is written in double quotes. -/
def requote : List Char → List Char
  | '\\' :: '\'' :: s => '\'' :: requote s
  | '\\' :: c :: s => '\\' :: c :: requote s
  | '"' :: s => '\\' :: '"' :: requote s
  | c :: s => c :: requote s
  | [] => []

def readString? : List Char → Option (String × List Char)
  | '"' :: s => do
    let (inside, rest) ← readQuoted? '"' s
    let (text, _) ← (Json.readStringBody (inside ++ ['"'])).toOption
    some (text, rest)
  | '\'' :: s => do
    let (inside, rest) ← readQuoted? '\'' s
    let (text, _) ← (Json.readStringBody (requote inside ++ ['"'])).toOption
    some (text, rest)
  | _ => none

/-- Reads a literal that is no string: a number, a word, a list or an object. -/
def readLiteral? (s : List Char) : Option (Json.Value × List Char) :=
  match readString? s with
  | some (text, rest) => some (.string text, rest)
  | none =>
    match Json.readValue Json.maxDepth s with
    | .ok (v, rest) =>
      match v with
      | .array _ => some (v, rest)
      | .object _ => some (v, rest)
      | .string _ => none
      | _ => if rest.head?.any isNameChar then none else some (v, rest)
    | .error _ => none

/-- The text starts with a word that is no parameter. -/
def startsKeyword (s : List Char) : Bool :=
  ["as", "else"].any fun word =>
    match Text.afterPiece? word.toList s with
    | some rest => !rest.head?.any isNameChar
    | none => false

mutual

/-- Reads a parameter, in at most `fuel` steps. -/
def readParam? : Nat → List Char → Option (Param × List Char)
  | 0, _ => none
  | fuel + 1, s =>
    if startsKeyword s then none
    else
      match readLiteral? s with
      | some (v, rest) => some (.literal v, rest)
      | none =>
        match readPath? s with
        | some (p, rest) => some (.path p, rest)
        | none => readInner? fuel s

def readInner? : Nat → List Char → Option (Param × List Char)
  | 0, _ => none
  | fuel + 1, s =>
    match s with
    | '(' :: s =>
      let called : Option (Param × List Char) := do
        let (name, rest) ← readName? (skip s)
        let (params, named, rest) := readParams fuel rest
        if params.isEmpty && named.isEmpty then none
        else
          match skip rest with
          | ')' :: rest => some (.call name params named, rest)
          | _ => none
      match called with
      | some found => some found
      | none => do
        let (p, rest) ← readPath? (skip s)
        match skip rest with
        | ')' :: rest => some (.call p.text [] [], rest)
        | _ => none
    | _ => none

def readParams : Nat → List Char → List Param × List (String × Param) × List Char
  | 0, s => ([], [], s)
  | fuel + 1, s =>
    let at_ := skip s
    let isNamed : Option (String × Param × List Char) := do
      let (name, rest) ← readName? at_
      match skip rest with
      | '=' :: rest =>
        let (p, rest) ← readParam? fuel (skip rest)
        some (name, p, rest)
      | _ => none
    match isNamed with
    | some (name, p, rest) =>
      let (params, named, rest) := readParams fuel rest
      (params, (name, p) :: named, rest)
    | none =>
      match readParam? fuel at_ with
      | some (p, rest) =>
        let (params, named, rest) := readParams fuel rest
        (p :: params, named, rest)
      | none => ([], [], s)

end

def readBinders (s : List Char) : List String × List Char :=
  let found : Option (List String × List Char) := do
    let rest ← Text.afterPiece? ['a', 's'] (skip s)
    let rest ← Text.afterPiece? ['|'] (skip rest)
    let (first, rest) ← readName? (skip rest)
    match readName? (skip rest) with
    | some (second, rest) => do some ([first, second], ← Text.afterPiece? ['|'] (skip rest))
    | none => do some ([first], ← Text.afterPiece? ['|'] (skip rest))
  found.getD ([], s)

/-- Reads what a block starts with. -/
def readBlockStart? (s : List Char) : Option (BlockStart × List Char) := do
  let (name, rest) ← readName? (skip s)
  let (params, named, rest) := readParams (2 * rest.length + 2) rest
  let (binders, rest) := readBinders rest
  some (⟨name, params, named, binders⟩, rest)

def readHelperCall? (s : List Char) : Option (Call × List Char) := do
  let (name, rest) ← readName? s
  let (params, named, rest) := readParams (2 * rest.length + 2) rest
  if params.isEmpty && named.isEmpty then none
  else some (⟨.path ⟨name, .here, [.name name]⟩, params, named⟩, rest)

/-- Reads a value: a path or the result of a call in brackets. -/
def readSubject? (s : List Char) : Option (Call × List Char) :=
  match readInner? (2 * s.length + 2) s with
  | some (p, rest) => some (⟨p, [], []⟩, rest)
  | none => (readPath? s).map fun (p, rest) => (⟨.path p, [], []⟩, rest)

/-- Reads the end of a tag, with the tilde that may stand before it. -/
def readEnd? (closing : List Char) (s : List Char) : Option (Bool × List Char) :=
  match skip s with
  | '~' :: s => (Text.afterPiece? closing (skip s)).map fun rest => (true, rest)
  | s => (Text.afterPiece? closing s).map fun rest => (false, rest)

/-- Reads a call with parameters up to the end of its tag, or else a value. -/
def readValueTag? (closing : List Char) (s : List Char) : Option (Call × Bool × List Char) :=
  let ended (found : Option (Call × List Char)) : Option (Call × Bool × List Char) := do
    let (call, rest) ← found
    let (trim, rest) ← readEnd? closing rest
    some (call, trim, rest)
  (ended (readHelperCall? s)).or (ended (readSubject? s))

def braces : List Char := ['\x7d', '\x7d']

/-- Reads a comment; the braces and the exclamation mark have been read. A comment that starts with
two hyphens may hold braces and ends with two hyphens, if it does. -/
def readComment? (s : List Char) : Option (List Char) :=
  let long := do
    let rest ← Text.afterPiece? ['-', '-'] (skip s)
    (Text.breakOn? ['-', '-', '\x7d', '\x7d'] rest).map Prod.snd
  long.or ((Text.breakOn? braces s).map Prod.snd)

/-- Reads a block whose body is text; four braces have been read. -/
def readRaw? (s : List Char) : Option (Tag × List Char) := do
  let four := ['\x7d', '\x7d', '\x7d', '\x7d']
  let (trimBefore, s) := match skip s with
    | '~' :: s => (true, s)
    | s => (false, s)
  let (start, rest) ← readBlockStart? s
  let (_, rest) ← readEnd? four rest
  let (body, rest) ← Text.breakOn? ['\x7b', '\x7b', '\x7b', '\x7b'] (skip rest)
  let rest := match skip rest with
    | '~' :: s => s
    | s => s
  let rest ← Text.afterPiece? ['/'] (skip rest)
  let (name, rest) ← readName? (skip rest)
  let (trimAfter, rest) ← readEnd? four rest
  some (⟨.raw start body name, trimBefore, trimAfter⟩, rest)

/-- Reads what follows the word that starts an else part. -/
def readOtherwise? (trimBefore : Bool) (s : List Char) : Option (Tag × List Char) :=
  match readEnd? braces s with
  | some (trimAfter, rest) => some (⟨.otherwise, trimBefore, trimAfter⟩, rest)
  | none => do
    let (start, rest) ← readBlockStart? s
    let (trimAfter, rest) ← readEnd? braces rest
    some (⟨.otherwiseOpen start, trimBefore, trimAfter⟩, rest)

def readPartialName? (s : List Char) : Option (String × List Char) :=
  let part (c : Char) := isNameChar c || c == '/' || c == '.'
  match readQuotedName? s with
  | some found => some found
  | none =>
    if s.head?.any part then some (String.ofList (s.takeWhile part), s.dropWhile part) else none
where
  /-- Reads a name between quotes or square brackets. -/
  readQuotedName? : List Char → Option (String × List Char)
    | '\'' :: s => (readQuoted? '\'' s).map fun (inside, rest) => (String.ofList inside, rest)
    | '[' :: s =>
      match s.dropWhile (· != ']') with
      | [] => none
      | _ :: rest => some (String.ofList (s.takeWhile (· != ']')), rest)
    | _ => none

/-- Reads a tag; the double braces have been read. -/
def readTag? (s : List Char) : Option (Tag × List Char) :=
  match s with
  | '!' :: s => (readComment? s).map fun rest => (⟨.comment, false, false⟩, rest)
  | '\x7b' :: '\x7b' :: s => readRaw? s
  | '\x7b' :: s =>
    let (trimBefore, s) := match skip s with
      | '~' :: s => (true, s)
      | s => (false, s)
    let three := ['\x7d', '\x7d', '\x7d']
    (readValueTag? three (skip s)).map fun (call, trimAfter, rest) =>
      (⟨.value call, trimBefore, trimAfter⟩, rest)
  | s =>
    let (trimBefore, s) := match skip s with
      | '~' :: s => (true, skip s)
      | s => (false, s)
    let ended (found : Option (TagKind × List Char)) : Option (Tag × List Char) := do
      let (kind, rest) ← found
      let (trimAfter, rest) ← readEnd? braces rest
      some (⟨kind, trimBefore, trimAfter⟩, rest)
    match s with
    | '#' :: '*' :: _ => none
    | '#' :: '>' :: _ => none
    | '#' :: s => ended ((readBlockStart? s).map fun (start, rest) => (.open_ start, rest))
    | '/' :: s => ended ((readName? (skip s)).map fun (name, rest) => (.close name, rest))
    | '^' :: s => readOtherwise? trimBefore s
    | '>' :: s => ended do
      let (name, rest) ← readPartialName? (skip s)
      let (params, named, rest) := readParams (2 * rest.length + 2) rest
      some (.partial_ name params named, rest)
    | '*' :: s => ended ((readBlockStart? s).map fun (_, rest) => (.decorator, rest))
    | '&' :: s => ended ((readSubject? (skip s)).map fun (call, rest) => (.value call, rest))
    | '\x7b' :: s => do
      let (call, rest) ← (readHelperCall? (skip s)).or (readSubject? (skip s))
      let rest ← Text.afterPiece? ['\x7d'] (skip rest)
      let (trimAfter, rest) ← readEnd? braces rest
      some (⟨.value call, trimBefore, trimAfter⟩, rest)
    | s =>
      let value := (readValueTag? braces s).map fun (call, trimAfter, rest) =>
        (⟨.value call, trimBefore, trimAfter⟩, rest)
      match Text.afterPiece? "else".toList s with
      | none => value
      | some rest =>
        if rest.head?.any isNameChar then value else readOtherwise? trimBefore rest

end Companion.Template
