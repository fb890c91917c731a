import Companion.Json.Value

/-!
# Writing JSON

The compact form has no white space at all. The indented form puts every item and member on a line
of its own, two spaces deeper than what holds it.
-/

namespace Companion.Json

def hexDigit (n : Nat) : Char :=
  if n < 10 then Char.ofNat ('0'.toNat + n) else Char.ofNat ('a'.toNat + (n - 10))

/-- A character inside a string: quotes, backslashes and control characters are escaped. -/
def escape (c : Char) : List Char :=
  if c = '"' then ['\\', '"']
  else if c = '\\' then ['\\', '\\']
  else if c = '\x08' then ['\\', 'b']
  else if c = '\x0c' then ['\\', 'f']
  else if c = '\n' then ['\\', 'n']
  else if c = '\r' then ['\\', 'r']
  else if c = '\t' then ['\\', 't']
  else if c.toNat < 0x20 then
    ['\\', 'u', '0', '0', hexDigit (c.toNat / 16), hexDigit (c.toNat % 16)]
  else [c]

def quote (s : String) : List Char :=
  '"' :: s.toList.flatMap escape ++ ['"']

def numeral (n : Number) : List Char :=
  n.text.toList

def boolWord (b : Bool) : List Char :=
  if b then "true".toList else "false".toList

mutual

def compact : Value → List Char
  | .null => "null".toList
  | .bool b => boolWord b
  | .number n => numeral n
  | .string s => quote s
  | .array items => '[' :: compactItems items ++ [']']
  | .object members => '\x7b' :: compactMembers members ++ ['\x7d']

def compactItems : List Value → List Char
  | [] => []
  | [v] => compact v
  | v :: vs => compact v ++ ',' :: compactItems vs

def compactMembers : List (String × Value) → List Char
  | [] => []
  | [(k, v)] => quote k ++ ':' :: compact v
  | (k, v) :: ms => quote k ++ ':' :: compact v ++ ',' :: compactMembers ms

end

def newLine (depth : Nat) : List Char :=
  '\n' :: List.replicate (2 * depth) ' '

mutual

def indented (depth : Nat) : Value → List Char
  | .null => "null".toList
  | .bool b => boolWord b
  | .number n => numeral n
  | .string s => quote s
  | .array [] => ['[', ']']
  | .array (v :: vs) =>
    '[' :: newLine (depth + 1) ++ indented (depth + 1) v ++ indentedItems (depth + 1) vs ++
      newLine depth ++ [']']
  | .object [] => ['\x7b', '\x7d']
  | .object ((k, v) :: ms) =>
    '\x7b' :: newLine (depth + 1) ++ quote k ++ [':', ' '] ++ indented (depth + 1) v ++
      indentedMembers (depth + 1) ms ++ newLine depth ++ ['\x7d']

/-- The items after the first. -/
def indentedItems (depth : Nat) : List Value → List Char
  | [] => []
  | v :: vs => ',' :: newLine depth ++ indented depth v ++ indentedItems depth vs

def indentedMembers (depth : Nat) : List (String × Value) → List Char
  | [] => []
  | (k, v) :: ms =>
    ',' :: newLine depth ++ quote k ++ [':', ' '] ++ indented depth v ++ indentedMembers depth ms

end

def Value.compress (v : Value) : String :=
  String.ofList (compact v)

def Value.pretty (v : Value) : String :=
  String.ofList (indented 0 v)

end Companion.Json
