/-!
# Matching brackets

`closing? o c` splits a text that follows an opening bracket at the bracket that closes it. The
same function with the brackets exchanged, on the reversed text, finds the bracket that opens.
-/

namespace Companion.Java

/-- The text inside and after the bracket that closes the outermost of `depth + 1` open ones. -/
def closingFrom? (o c : Char) : Nat → List Char → Option (List Char × List Char)
  | _, [] => none
  | depth, x :: xs =>
    if x = o then (closingFrom? o c (depth + 1) xs).map fun (inside, after) => (x :: inside, after)
    else if x = c then
      match depth with
      | 0 => some ([], xs)
      | depth + 1 => (closingFrom? o c depth xs).map fun (inside, after) => (x :: inside, after)
    else (closingFrom? o c depth xs).map fun (inside, after) => (x :: inside, after)

/-- The text inside and after the bracket that closes the one just before the text. -/
def closing? (o c : Char) (text : List Char) : Option (List Char × List Char) :=
  closingFrom? o c 0 text

end Companion.Java
