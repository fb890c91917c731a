import Companion.Template.Scope

/-!
# Helpers

The functions that templates may call, and how values are written and tested. Numbers count as
true unless they are zero, all other values unless they are empty.
-/

namespace Companion.Template

mutual

def written : Json.Value → String
  | .null => ""
  | .bool b => toString b
  | .number n => n.text
  | .string s => s
  | .array items => "[" ++ writtenItems items ++ "]"
  | .object _ => "[object]"

def writtenItems : List Json.Value → String
  | [] => ""
  | [v] => written v
  | v :: vs => written v ++ ", " ++ writtenItems vs

end

def isZero : Json.Number → Bool
  | .integer n => n == 0
  | .real x => x == 0

/-- The value counts as true. -/
def isTrue (zeroCounts : Bool) : Json.Value → Bool
  | .null => false
  | .bool b => b
  | .number n => zeroCounts || !isZero n
  | .string s => !s.isEmpty
  | .array items => !items.isEmpty
  | .object members => !members.isEmpty

def compareNumbers : Json.Number → Json.Number → Option Ordering
  | .integer m, .integer n => some (compare m n)
  | m, n =>
    let real : Json.Number → Float
      | .integer n => Float.ofInt n
      | .real x => x
    if real m < real n then some .lt
    else if real n < real m then some .gt
    else if real m == real n then some .eq
    else none

/-- The order of two values of one kind. -/
def compareValues : Json.Value → Json.Value → Option Ordering
  | .number m, .number n => compareNumbers m n
  | .string s, .string t => some (compare s t)
  | .bool a, .bool b => some (compare a b)
  | _, _ => none

/-- The number of items, of members or of bytes. -/
def size : Json.Value → Nat
  | .array items => items.length
  | .object members => members.length
  | .string s => s.utf8ByteSize
  | _ => 0

/-- The item of a list or the member of an object. -/
def itemAt (collection key : Json.Value) : Json.Value :=
  match collection with
  | .array items => (key.nat?.bind (items[·]?)).getD .null
  | .object members => (key.string?.bind fun k => members.lookup k).getD .null
  | _ => .null

inductive Function where
  | lookup | eq | ne | gt | gte | lt | lte | and | or | not | len
  deriving DecidableEq, Repr

namespace Function

def name : Function → String
  | lookup => "lookup"
  | eq => "eq"
  | ne => "ne"
  | gt => "gt"
  | gte => "gte"
  | lt => "lt"
  | lte => "lte"
  | and => "and"
  | or => "or"
  | not => "not"
  | len => "len"

def ofName? (name : String) : Option Function :=
  [lookup, eq, ne, gt, gte, lt, lte, and, or, not, len].find? (·.name == name)

def applyOne : Function → Json.Value → Option Json.Value
  | not, v => some (.bool (!isTrue false v))
  | len, v => some (.ofNat (size v))
  | _, _ => none

def applyTwo : Function → Json.Value → Json.Value → Option Json.Value
  | lookup, v, w => some (itemAt v w)
  | eq, v, w => some (.bool (v == w))
  | ne, v, w => some (.bool (v != w))
  | gt, v, w => some (.bool (compareValues v w == some .gt))
  | gte, v, w => some (.bool ((compareValues v w).any (· != .lt)))
  | lt, v, w => some (.bool (compareValues v w == some .lt))
  | lte, v, w => some (.bool ((compareValues v w).any (· != .gt)))
  | and, v, w => some (.bool (isTrue false v && isTrue false w))
  | or, v, w => some (.bool (isTrue false v || isTrue false w))
  | _, _, _ => none

/-- The value of a function. Parameters that it does not take do not count. -/
def value (f : Function) (params : List Json.Value) : Except Fault Json.Value :=
  let found := match params with
    | [] => none
    | [v] => f.applyOne v
    | v :: w :: _ => (f.applyOne v).or (f.applyTwo v w)
  match found with
  | some v => .ok v
  | none => .error (.missingParameter f.name)

end Function

inductive Helper where
  | function (f : Function)
  /-- `if`, or `unless` if it is negated. -/
  | condition (negated : Bool)
  | each
  | with_
  /-- Writes its body. -/
  | raw
  /-- Writes nothing. -/
  | log
  deriving DecidableEq, Repr

def Helper.ofName? (name : String) : Option Helper :=
  match name with
  | "if" => some (.condition false)
  | "unless" => some (.condition true)
  | "each" => some .each
  | "with" => some .with_
  | "raw" => some .raw
  | "log" => some .log
  | name => (Function.ofName? name).map .function

def levelNames : List String := ["error", "warn", "info", "debug", "trace"]

/-- The parameter `level` of a log helper, if it is given, is a level. -/
def checkLevel (named : List (String × Json.Value)) : Except Fault Unit :=
  match (named.lookup "level").bind Json.Value.string? with
  | none => .ok ()
  | some level =>
    if levelNames.contains (String.ofList (level.toList.map Char.toLower)) then .ok ()
    else .error (.unknownLevel level)

end Companion.Template
