import Companion.Pattern.Escape

/-!
# Bracketed classes

A class lists characters, ranges and sets between brackets. Classes nest, and `&&`, `--` and `~~`
join what stands on their sides, from left to right. Case is set aside for a class as a whole,
before it is negated.
-/

namespace Companion.Pattern

inductive SetOperator where
  | inter | diff | symmDiff
  deriving DecidableEq, Repr

def SetOperator.apply (f : Flags) : SetOperator → CharSet → CharSet → CharSet
  | inter, s, t => .inter (f.fold s) (f.fold t)
  | diff, s, t => CharSet.diff (f.fold s) (f.fold t)
  | symmDiff, s, t => CharSet.symmDiff (f.fold s) (f.fold t)

/-- What has been read of a class: the set on the left of an operator, and the set since. -/
structure OpenClass where
  left : Option (SetOperator × CharSet)
  items : CharSet

def OpenClass.close (f : Flags) (c : OpenClass) : CharSet :=
  match c.left with
  | none => c.items
  | some (op, s) => op.apply f s c.items

def OpenClass.add (s : CharSet) (c : OpenClass) : OpenClass :=
  { c with items := if c.items = CharSet.none then s else .union c.items s }

/-- Reads a set like `[:alpha:]`; the first bracket has been read. -/
def readBracketName? (f : Flags) (s : List Char) : Option (Except Fault CharSet × List Char) :=
  match s with
  | ':' :: s =>
    let (negated, s) := match s with
      | '^' :: s => (true, s)
      | s => (false, s)
    match s.dropWhile (· != ':') with
    | ':' :: ']' :: rest =>
      (CharSet.ofBracketName? (String.ofList (s.takeWhile (· != ':')))).map fun set =>
        if !negated then (.ok (f.fold set), rest)
        else if f.unicode then (.ok (.complement (f.fold set)), rest)
        else (.error .beyondASCII, rest)
    | _ => none
  | _ => none

def readClassAtom (f : Flags) : List Char → Except Fault (Escaped × List Char)
  | [] => .error .badClass
  | '\\' :: s => readEscape f s
  | c :: s => .ok (.char c, s)

/-- A single character of a class, which has to be within ASCII where only ASCII is matched. -/
def classChar (f : Flags) : Escaped → Except Fault Char
  | .char c => if !f.unicode && 0x7F < c.toNat then .error .beyondASCII else .ok c
  | _ => .error .badClass

def classItem (f : Flags) : Escaped → Except Fault CharSet
  | .set s => .ok s
  | e => (classChar f e).map CharSet.single

def readClassItem (f : Flags) (s : List Char) : Except Fault (CharSet × List Char) := do
  let (first, s) ← readClassAtom f s
  match f.skip s with
  | [] => .error .badClass
  | '-' :: rest =>
    let next := (f.skip rest).head?
    if next = some ']' ∨ next = some '-' then .ok (← classItem f first, '-' :: rest)
    else
      match f.skip rest with
      | [] => .error .badClass
      | rest =>
        let (last, rest) ← readClassAtom f rest
        let a ← classChar f first
        let b ← classChar f last
        if a ≤ b then .ok (.range a b, rest) else .error .badClass
  | rest => .ok (← classItem f first, rest)

/-- The hyphens that a class may start with, and the text after them. -/
def leadingHyphens (f : Flags) : Nat → List Char → Nat × List Char
  | 0, s => (0, s)
  | fuel + 1, s =>
    match s with
    | '-' :: rest =>
      let (n, rest) := leadingHyphens f fuel (f.skip rest)
      (n + 1, rest)
    | s => (0, s)

/-- Reads the start of a class: whether it is negated, and the characters that stand for themselves
only there. -/
def readClassStart (f : Flags) (s : List Char) : Except Fault (Bool × OpenClass × List Char) :=
  let s := f.skip s
  let (negated, s) := match s with
    | '^' :: s => (true, f.skip s)
    | s => (false, s)
  let (hyphens, s) := leadingHyphens f s.length s
  match s with
  | [] => .error .badClass
  | ']' :: rest =>
    if hyphens = 0 then
      if (f.skip rest).isEmpty then .error .badClass
      else .ok (negated, ⟨none, CharSet.single ']'⟩, f.skip rest)
    else .ok (negated, ⟨none, CharSet.single '-'⟩, s)
  | s => .ok (negated, ⟨none, if hyphens = 0 then CharSet.none else CharSet.single '-'⟩, s)

/-- The set of a class from the set of its items. -/
def finishClass (f : Flags) (negated : Bool) (s : CharSet) : Except Fault CharSet :=
  if !negated then .ok (f.fold s)
  else if f.unicode then .ok (.complement (f.fold s))
  else .error .beyondASCII

/-- Reads the rest of a class, in at most `fuel` steps; `c` holds what has been read of it. -/
def readClassFrom (f : Flags) :
    Nat → Bool → OpenClass → List Char → Except Fault (CharSet × List Char)
  | 0, _, _, _ => .error .badClass
  | fuel + 1, negated, c, s =>
    let operator (op : SetOperator) (rest : List Char) : Except Fault (CharSet × List Char) :=
      readClassFrom f fuel negated ⟨some (op, c.close f), CharSet.none⟩ rest
    match f.skip s with
    | [] => .error .badClass
    | '[' :: rest =>
      match readBracketName? f rest with
      | some (set, rest) => do readClassFrom f fuel negated (c.add (← set)) rest
      | none => do
        let (inner, start, rest) ← readClassStart f rest
        let (set, rest) ← readClassFrom f fuel inner start rest
        readClassFrom f fuel negated (c.add set) rest
    | ']' :: rest => (finishClass f negated (c.close f)).map fun set => (set, rest)
    | '&' :: '&' :: rest => operator .inter rest
    | '-' :: '-' :: rest => operator .diff rest
    | '~' :: '~' :: rest => operator .symmDiff rest
    | s => do
      let (set, rest) ← readClassItem f s
      readClassFrom f fuel negated (c.add set) rest

def readClass (f : Flags) (s : List Char) : Except Fault (CharSet × List Char) := do
  let (negated, start, rest) ← readClassStart f s
  readClassFrom f (s.length + 1) negated start rest

end Companion.Pattern
