import Companion.Text.Basic

/-!
# The text of types

Lists of types and parameters split at their outer commas, the type at the start of a text, and
the layout that types are compared and printed in: no space inside brackets, one after each comma.
-/

namespace Companion.Java

open Unicode (isBlank)
open Text

def isIdentChar (c : Char) : Bool :=
  Unicode.isAlphanumeric c || c == '_' || c == '$'

/-- The pieces between the commas at depth 0, where angle and round brackets count. -/
def commaPieces : Int → List Char → List (List Char)
  | _, [] => [[]]
  | depth, c :: cs =>
    if c = ',' ∧ depth = 0 then [] :: commaPieces depth cs
    else if c = '<' ∨ c = '(' then consFirst c (commaPieces (depth + 1) cs)
    else if c = '>' ∨ c = ')' then consFirst c (commaPieces (depth - 1) cs)
    else consFirst c (commaPieces depth cs)

/-- The trimmed pieces between outer commas, without empty ones. -/
def splitTopLevel (text : List Char) : List (List Char) :=
  ((commaPieces 0 text).map trim).filter (!·.isEmpty)

def typeParameterNames (text : List Char) : List String :=
  (splitTopLevel text).filterMap fun p => (words p).head?.map String.ofList

/-- The longest start of a text that reads as a type: anything between angle brackets; outside of
them identifiers, dots, angle brackets and the white space before an opening one. -/
def typeSpan : Int → List Char → List Char
  | _, [] => []
  | depth, c :: cs =>
    if c = '<' then c :: typeSpan (depth + 1) cs
    else if c = '>' then c :: typeSpan (depth - 1) cs
    else if depth > 0 ∨ isIdentChar c ∨ c = '.' ∨
        (isBlank c ∧ (trimStart cs).head? = some '<') then c :: typeSpan depth cs
    else []

def readType (text : List Char) : List Char :=
  trimEnd (typeSpan 0 (trimStart text))

/-- Writes a type whose white space is single spaces. `out` is what is written, the last character
first; spaces are left out while `skip` holds. -/
def normalizeFrom (out : List Char) (skip : Bool) : List Char → List Char
  | [] => out.reverse
  | c :: cs =>
    if c = ',' then normalizeFrom (' ' :: ',' :: out.dropWhile (· == ' ')) true cs
    else if c = '<' ∨ c = '[' then normalizeFrom (c :: out.dropWhile (· == ' ')) true cs
    else if c = '>' ∨ c = ']' then normalizeFrom (c :: out.dropWhile (· == ' ')) false cs
    else if c = ' ' ∧ skip then normalizeFrom out skip cs
    else normalizeFrom (c :: out) false cs

def normalizeType (text : List Char) : List Char :=
  normalizeFrom [] false (join [' '] (words text))

end Companion.Java
