import Companion.Unicode.Property

/-!
# Quoted text

Text as it is shown inside messages: between double quotes, with a backslash before what would end
it, and with the code points of characters that cannot be shown.
-/

namespace Companion.Text

private def hexText (n : Nat) : List Char :=
  Nat.toDigits 16 n

def quoteChar (c : Char) : List Char :=
  if c = '\x00' then ['\\', '0']
  else if c = '\t' then ['\\', 't']
  else if c = '\r' then ['\\', 'r']
  else if c = '\n' then ['\\', 'n']
  else if c = '"' ∨ c = '\\' then ['\\', c]
  else if Unicode.extendsGrapheme c || !Unicode.isPrintable c then
    '\\' :: 'u' :: '\x7b' :: hexText c.toNat ++ ['\x7d']
  else [c]

/-- A character of a file path between quotes, where single quotes are escaped too. -/
def quotePathChar (c : Char) : List Char :=
  if c = '\'' then ['\\', c] else quoteChar c

/-- A text between quotes. -/
def quoted (s : String) : String :=
  String.ofList ('"' :: s.toList.flatMap quoteChar ++ ['"'])

/-- A file path between quotes. -/
def quotedPath (s : String) : String :=
  String.ofList ('"' :: s.toList.flatMap quotePathChar ++ ['"'])

end Companion.Text
