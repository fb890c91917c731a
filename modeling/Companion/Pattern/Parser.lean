import Companion.Pattern.Class
import Companion.Pattern.Search

/-!
# Reading patterns

The text of a regular expression as a pattern. Groups are numbered in the order of their opening
brackets; settings hold from where they are changed to the end of the group around that place.
-/

namespace Companion.Pattern

/-- What is known on the way through a pattern: the settings, the number of groups opened, and the
names of groups with their numbers. -/
structure Context where
  flags : Flags
  groups : Nat
  names : List (List Char × Nat)

/-- A pattern of a sequence, or nothing where settings were changed, which cannot be repeated. -/
abbrev Item := Option Node

def sequence (items : List Item) : Node :=
  match items.filterMap id with
  | [] => .empty
  | x :: xs => xs.foldl (fun tail head => .concat head tail) x

/-- The setting that a letter stands for, set to `value`. -/
def Flags.set? (f : Flags) (value : Bool) : Char → Option Flags
  | 'i' => some { f with ignoreCase := value }
  | 'm' => some { f with multiLine := value }
  | 's' => some { f with dotAll := value }
  | 'U' => some { f with swapGreed := value }
  | 'u' => some { f with unicode := value }
  | 'R' => some { f with anyLineEnds := value }
  | 'x' => some { f with verbose := value }
  | _ => none

/-- Reads settings up to a colon or a closing bracket. `seen` are the letters read, the last one
first, and `value` is what they are set to. -/
def readFlags (f : Flags) (value : Bool) (seen : List Char) :
    List Char → Except Fault (Flags × List Char × List Char)
  | [] => .error .badFlags
  | c :: cs =>
    if c = ':' ∨ c = ')' then
      if seen.head? = some '-' then .error .badFlags else .ok (f, seen, c :: cs)
    else if seen.contains c then .error .badFlags
    else if c = '-' then readFlags f false (c :: seen) cs
    else
      match f.set? value c with
      | some f => readFlags f value (c :: seen) cs
      | none => .error .badFlags

def isNamePart (first : Bool) (c : Char) : Bool :=
  if first then c == '_' || Unicode.isAlphabetic c
  else c == '_' || c == '.' || c == '[' || c == ']' || Unicode.isAlphanumeric c

/-- Reads the name of a group up to the closing angle bracket, which is read too. -/
def readGroupName (s : List Char) : Except Fault (List Char × List Char) :=
  let name := s.takeWhile (· != '>')
  match name, s.dropWhile (· != '>') with
  | c :: cs, _ :: rest =>
    if isNamePart true c && cs.all (isNamePart false) then .ok (name, rest)
    else .error .badGroupName
  | _, _ => .error .badGroupName

inductive GroupStart where
  /-- Settings for the rest of the group around. -/
  | settings (flags : Flags)
  | plain (flags : Flags)
  | numbered
  | named (name : List Char)

/-- Reads how a group starts; the opening bracket has been read. -/
def readGroupStart (f : Flags) (s : List Char) : Except Fault (GroupStart × List Char) :=
  match f.skip s with
  | '?' :: '=' :: _ => .error .lookAround
  | '?' :: '!' :: _ => .error .lookAround
  | '?' :: '<' :: '=' :: _ => .error .lookAround
  | '?' :: '<' :: '!' :: _ => .error .lookAround
  | '?' :: 'P' :: '<' :: s => (readGroupName s).map fun (name, rest) => (.named name, rest)
  | '?' :: '<' :: s => (readGroupName s).map fun (name, rest) => (.named name, rest)
  | '?' :: s => do
    match ← readFlags f true [] s with
    | (g, _, ':' :: rest) => .ok (.plain g, rest)
    | (g, seen, rest) =>
      if seen.isEmpty then .error .nothingToRepeat else .ok (.settings g, rest.drop 1)
  | s => .ok (.numbered, s)

/-- Reads a count; white space may stand around it. -/
def readCount (f : Flags) (s : List Char) : Except Fault (Nat × List Char) :=
  let digits (s : List Char) : List Char × List Char := go s.length s
  let (ds, rest) := digits (Text.trimStart s)
  let n := ds.foldl (fun n c => 10 * n + (c.toNat - '0'.toNat)) 0
  if ds.isEmpty || Nat.pow 2 32 ≤ n then .error .badCount else .ok (n, f.skip (Text.trimStart rest))
where
  go : Nat → List Char → List Char × List Char
  | 0, s => ([], s)
  | fuel + 1, s =>
    match s with
    | [] => ([], [])
    | c :: cs =>
      if c.isDigit then
        let (ds, rest) := go fuel (f.skip cs)
        (c :: ds, rest)
      else ([], c :: cs)

/-- Reads the bounds of a repetition; the opening brace has been read. -/
def readBounds (f : Flags) (s : List Char) : Except Fault ((Nat × Option Nat) × List Char) := do
  let (least, s) ← readCount f (f.skip s)
  let (most, s) ← match s with
    | ',' :: s =>
      match f.skip s with
      | '\x7d' :: s => .ok (none, '\x7d' :: s)
      | s => (readCount f s).map fun (n, rest) => (some n, rest)
    | s => .ok (some least, s)
  match s with
  | '\x7d' :: rest =>
    if most.any (· < least) then .error .badCount else .ok ((least, most), f.skip rest)
  | _ => .error .badCount

/-- Repeats the last item, lazily if a question mark follows. -/
def repeatLast (f : Flags) (least : Nat) (most : Option Nat) (items : List Item) (s : List Char) :
    Except Fault ((List Item) × List Char) :=
  match items with
  | some x :: items =>
    let (lazy, rest) := match s with
      | '?' :: rest => (true, rest)
      | rest => (false, rest)
    .ok (some (Node.repeated least most (lazy == f.swapGreed) x) :: items, rest)
  | _ => .error .nothingToRepeat

/-- Any character, but for the ends of lines unless they are asked for. -/
def anyChar (f : Flags) : Except Fault CharSet :=
  if !f.unicode then .error .beyondASCII
  else if f.dotAll then .ok CharSet.all
  else if f.anyLineEnds then .ok (.complement (CharSet.ranges [('\n', '\n'), ('\r', '\r')]))
  else .ok (.complement (CharSet.single '\n'))

/-- The condition of `^`. -/
def startLook (f : Flags) : Look :=
  if !f.multiLine then .textStart else if f.anyLineEnds then .anyLineStart else .lineStart

/-- The condition of `$`. -/
def endLook (f : Flags) : Look :=
  if !f.multiLine then .textEnd else if f.anyLineEnds then .anyLineEnd else .lineEnd

/-- The pattern of an escape or of a character that stands for itself. -/
def atom (f : Flags) : Escaped → Node
  | .char c => .one (f.fold (CharSet.single c))
  | .look l => .look l
  | .set s => .one s

mutual

/-- Reads alternatives, in at most `fuel` steps. -/
def readAlternatives : Nat → Context → List Char → Except Fault (Node × Context × List Char)
  | 0, _, _ => .error .tooLarge
  | fuel + 1, ctx, s => do
    let (items, ctx, s) ← readItems fuel ctx [] s
    match s with
    | '|' :: s =>
      let (others, ctx, s) ← readAlternatives fuel ctx s
      .ok (.either (sequence items) others, ctx, s)
    | s => .ok (sequence items, ctx, s)

/-- Reads the items up to a bar, a closing bracket or the end. `items` are those before, the last
one first. -/
def readItems : Nat → Context → List Item → List Char →
    Except Fault (List Item × Context × List Char)
  | 0, _, _, _ => .error .tooLarge
  | fuel + 1, ctx, items, s =>
    let f := ctx.flags
    let times (least : Nat) (most : Option Nat) (rest : List Char) := do
      let (items, rest) ← repeatLast f least most items rest
      readItems fuel ctx items rest
    let more (x : Node) (rest : List Char) := readItems fuel ctx (some x :: items) rest
    match f.skip s with
    | [] => .ok (items, ctx, [])
    | '|' :: rest => .ok (items, ctx, '|' :: rest)
    | ')' :: rest => .ok (items, ctx, ')' :: rest)
    | '(' :: rest => do
      let (start, rest) ← readGroupStart f rest
      match start with
      | .settings g => readItems fuel { ctx with flags := g } (none :: items) rest
      | .plain g =>
        let (x, ctx, rest) ← readGroup fuel { ctx with flags := g } rest
        readItems fuel { ctx with flags := f } (some x :: items) rest
      | .numbered =>
        let number := ctx.groups + 1
        let (x, ctx, rest) ← readGroup fuel { ctx with groups := number } rest
        readItems fuel { ctx with flags := f } (some (.group number x) :: items) rest
      | .named name =>
        let number := ctx.groups + 1
        if (ctx.names.lookup name).isSome then .error .repeatedGroupName
        else
          let ctx := { ctx with groups := number, names := (name, number) :: ctx.names }
          let (x, ctx, rest) ← readGroup fuel ctx rest
          readItems fuel { ctx with flags := f } (some (.group number x) :: items) rest
    | '[' :: rest => do
      let (set, rest) ← readClass f rest
      more (.one set) rest
    | '?' :: rest => times 0 (some 1) rest
    | '*' :: rest => times 0 none rest
    | '+' :: rest => times 1 none rest
    | '\x7b' :: rest =>
      match items with
      | some _ :: _ => do
        let ((least, most), rest) ← readBounds f rest
        times least most rest
      | _ => .error .nothingToRepeat
    | '.' :: rest => do more (.one (← anyChar f)) rest
    | '^' :: rest => more (.look (startLook f)) rest
    | '$' :: rest => more (.look (endLook f)) rest
    | '\\' :: rest => do
      let (e, rest) ← readEscape f rest
      more (atom f e) rest
    | c :: rest => more (atom f (.char c)) rest

def readGroup : Nat → Context → List Char → Except Fault (Node × Context × List Char)
  | 0, _, _ => .error .tooLarge
  | fuel + 1, ctx, s => do
    let (x, ctx, s) ← readAlternatives fuel ctx s
    match s with
    | ')' :: rest => .ok (x, ctx, rest)
    | _ => .error .unclosedGroup

end

/-- A regular expression: its pattern, and the names of its groups with their numbers. -/
structure Regex where
  root : Node
  names : List (List Char × Nat)
  deriving DecidableEq, Repr

def maxSize : Nat := 327680

def Regex.ofText (text : List Char) : Except Fault Regex := do
  match ← readAlternatives (3 * text.length + 3) ⟨.default, 0, []⟩ text with
  | (root, ctx, []) =>
    if maxSize < root.size then .error .tooLarge else .ok ⟨root, ctx.names⟩
  | _ => .error .unopenedGroup

/-- What the group of that name matched, or else what the first group matched, in the preferred
match of a text. -/
def Regex.capture? (r : Regex) (name : List Char) (text : List Char) : Option (List Char) :=
  match search r.root text with
  | none => none
  | some found => ((r.names.lookup name).bind found.capture?).or (found.capture? 1)

end Companion.Pattern
