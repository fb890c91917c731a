import Companion.Text.Basic
import Mathlib.Algebra.Group.Int.Defs
import Mathlib.Algebra.Group.Nat.Defs

/-!
# Offsets into texts

Offsets count the bytes of a text in UTF-8. Cutting a text fails outside of it, inside of a
character, and where the end comes before the start. Indices fail outside of a table, and counters
outside of their type.
-/

namespace Companion.Text

inductive Panic where
  | slice (start stop : Nat)
  | index (i : Nat)
  | overflow
  deriving DecidableEq, Repr

/-- The text before and after an offset between two characters. -/
def splitAtByte? : Nat → List Char → Option (List Char × List Char)
  | 0, s => some ([], s)
  | _ + 1, [] => none
  | n + 1, c :: cs =>
    if c.utf8Size ≤ n + 1 then
      (splitAtByte? (n + 1 - c.utf8Size) cs).map fun (before, after) => (c :: before, after)
    else none

def slice (s : List Char) (start stop : Nat) : Except Panic (List Char) :=
  if start ≤ stop then
    match splitAtByte? start s with
    | none => .error (.slice start stop)
    | some (_, after) =>
      match splitAtByte? (stop - start) after with
      | none => .error (.slice start stop)
      | some (piece, _) => .ok piece
  else .error (.slice start stop)

def sliceFrom (s : List Char) (start : Nat) : Except Panic (List Char) :=
  slice s start (byteCount s)

def sliceTo (s : List Char) (stop : Nat) : Except Panic (List Char) :=
  slice s 0 stop

/-- The element of a table. -/
def entryAt {α : Type} (xs : List α) (i : Nat) : Except Panic α :=
  match xs[i]? with
  | some x => .ok x
  | none => .error (.index i)

/-- The value of a counter with 32 bits and a sign. -/
def counted (n : Int) : Except Panic Int :=
  if -2 ^ 31 ≤ n ∧ n < 2 ^ 31 then .ok n else .error .overflow

def countedNat (n : Nat) : Except Panic Nat :=
  if n < 2 ^ 32 then .ok n else .error .overflow

def backBy (n m : Nat) : Except Panic Nat :=
  if m ≤ n then .ok (n - m) else .error .overflow

/-- The characters of a text at their offsets, where the first one is at `i`. -/
def charIndicesFrom (i : Nat) : List Char → List (Nat × Char)
  | [] => []
  | c :: cs => (i, c) :: charIndicesFrom (i + c.utf8Size) cs

def charIndices (s : List Char) : List (Nat × Char) :=
  charIndicesFrom 0 s

/-- The offset of the first nonempty end of a text that `p` holds of. -/
def firstAt? (p : List Char → Bool) : List Char → Option Nat
  | [] => none
  | c :: cs => if p (c :: cs) then some 0 else (firstAt? p cs).map (c.utf8Size + ·)

/-- The offset of the last nonempty end of a text that `p` holds of. -/
def lastAt? (p : List Char → Bool) : List Char → Option Nat
  | [] => none
  | c :: cs =>
    match lastAt? p cs with
    | some i => some (c.utf8Size + i)
    | none => if p (c :: cs) then some 0 else none

def startsWith (c : Char) (s : List Char) : Bool :=
  s.head? == some c

end Companion.Text
