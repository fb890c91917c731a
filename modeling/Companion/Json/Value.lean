import Companion.Decimal.Shortest

/-!
# JSON values

Values whose objects keep the order of their members.
-/

namespace Companion.Json

/-- A number: an integer of 64 bits, or else a double precision number. -/
inductive Number where
  | integer (n : Int)
  | real (x : Float)
  deriving Repr, BEq

def Number.text : Number → String
  | integer n => toString n
  | real x => Decimal.text x

inductive Value where
  | null
  | bool (b : Bool)
  | number (n : Number)
  | string (s : String)
  | array (items : List Value)
  | object (members : List (String × Value))
  deriving Repr, BEq

namespace Value

def ofNat (n : Nat) : Value :=
  number (.integer n)

def member? (key : String) : Value → Option Value
  | object members => members.lookup key
  | _ => none

def string? : Value → Option String
  | string s => some s
  | _ => none

def bool? : Value → Option Bool
  | bool b => some b
  | _ => none

def nat? : Value → Option Nat
  | number (.integer (.ofNat n)) => some n
  | _ => none

def array? : Value → Option (List Value)
  | array items => some items
  | _ => none

end Value

end Companion.Json
