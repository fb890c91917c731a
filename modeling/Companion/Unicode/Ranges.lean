/-!
# Tables of code points

Ranges of code points written as hexadecimal text: `41-5A 61-7A AA`. `lastAtMost` is the search
that every table is read by.
-/

namespace Companion.Unicode

/-- The value of a hexadecimal digit; nothing else is one. -/
def hexDigit? (c : Char) : Option Nat :=
  if c.isDigit then some (c.toNat - '0'.toNat)
  else if 'a' ≤ c ∧ c ≤ 'f' then some (c.toNat - 'a'.toNat + 10)
  else if 'A' ≤ c ∧ c ≤ 'F' then some (c.toNat - 'A'.toNat + 10)
  else none

/-- The value of hexadecimal digits, the most significant first. -/
def readHex (cs : List Char) : Nat :=
  cs.foldl (fun n c => 16 * n + (hexDigit? c).getD 0) 0

def tokens (row : String) : List (List Char) :=
  row.toList.splitOn ' '

/-- Ranges of code points, both ends included, ascending and apart. -/
abbrev Ranges := Array (Nat × Nat)

/-- The index of the last of the ascending starts `start lo, …, start (hi - 1)` that is at most
`n`, or `lo` if none is. -/
def lastAtMost (start : Nat → Nat) (n lo hi : Nat) : Nat :=
  if lo + 1 < hi then
    let mid := (lo + hi) / 2
    if start mid ≤ n then lastAtMost start n mid hi else lastAtMost start n lo mid
  else lo
termination_by hi - lo

namespace Ranges

private def ofToken (token : List Char) : Nat × Nat :=
  match token.splitOn '-' with
  | [lo, hi] => (readHex lo, readHex hi)
  | _ => (readHex token, readHex token)

def ofRows (rows : List String) : Ranges :=
  (rows.flatMap fun row => (tokens row).map ofToken).toArray

def contains (r : Ranges) (n : Nat) : Bool :=
  match r[lastAtMost (fun i => (r.getD i (0, 0)).1) n 0 r.size]? with
  | some (lo, hi) => lo ≤ n && n ≤ hi
  | none => false

end Ranges

end Companion.Unicode
