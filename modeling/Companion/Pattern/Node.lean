import Companion.Pattern.CharSet

/-!
# Patterns

The tree of a regular expression. Repetition takes its bounds and whether more copies are tried
first; a group has a number, under which what it matched is kept.
-/

namespace Companion.Pattern

inductive Look where
  | textStart
  | textEnd
  | lineStart
  | lineEnd
  /-- As `lineStart`, where a carriage return ends lines too, alone or with a line feed after it. -/
  | anyLineStart
  | anyLineEnd
  | boundary (ascii : Bool)
  | noBoundary (ascii : Bool)
  | wordStart (ascii : Bool)
  | wordEnd (ascii : Bool)
  /-- No word character before the place. -/
  | halfWordStart (ascii : Bool)
  /-- No word character after the place. -/
  | halfWordEnd (ascii : Bool)
  deriving DecidableEq, Repr

inductive Node where
  | empty
  | one (set : CharSet)
  | look (condition : Look)
  | concat (first second : Node)
  | either (first second : Node)
  | several (least : Nat) (most : Option Nat) (greedy : Bool) (body : Node)
  | group (number : Nat) (body : Node)
  deriving DecidableEq, Repr

namespace Node

def isWord (ascii : Bool) (c : Char) : Bool :=
  if ascii then CharSet.asciiWord.contains c else Unicode.isWordChar c

end Node

def Look.holds (before after : Option Char) : Look → Bool
  | textStart => before.isNone
  | textEnd => after.isNone
  | lineStart => before.isNone || before == some '\n'
  | lineEnd => after.isNone || after == some '\n'
  | anyLineStart =>
    before.isNone || before == some '\n' || (before == some '\r' && after != some '\n')
  | anyLineEnd =>
    after.isNone || after == some '\r' || (after == some '\n' && before != some '\r')
  | boundary ascii => before.any (Node.isWord ascii) != after.any (Node.isWord ascii)
  | noBoundary ascii => before.any (Node.isWord ascii) == after.any (Node.isWord ascii)
  | wordStart ascii => !before.any (Node.isWord ascii) && after.any (Node.isWord ascii)
  | wordEnd ascii => before.any (Node.isWord ascii) && !after.any (Node.isWord ascii)
  | halfWordStart ascii => !before.any (Node.isWord ascii)
  | halfWordEnd ascii => !after.any (Node.isWord ascii)

namespace Node

/-- The pattern matches only empty texts. -/
def isBlank : Node → Bool
  | empty => true
  | one _ => false
  | look _ => true
  | concat a b => a.isBlank && b.isBlank
  | either a b => a.isBlank && b.isBlank
  | several _ most _ x => most == some 0 || x.isBlank
  | group _ x => x.isBlank

/-- A repetition. A body that matches only empty texts is taken at most once, a repetition without
copies is empty, and one of exactly one copy is the body. -/
def repeated (least : Nat) (most : Option Nat) (greedy : Bool) (body : Node) : Node :=
  let (least, most) :=
    if body.isBlank then (min least 1, some (min (most.getD 1) 1)) else (least, most)
  if most = some 0 then empty
  else if least = 1 ∧ most = some 1 then body
  else several least most greedy body

def hasGroup : Node → Bool
  | empty => false
  | one _ => false
  | look _ => false
  | concat a b => a.hasGroup || b.hasGroup
  | either a b => a.hasGroup || b.hasGroup
  | several _ _ _ x => x.hasGroup
  | group _ _ => true

/-- How many characters and conditions the pattern has once its counted copies are written out. -/
def size : Node → Nat
  | empty => 1
  | one _ => 1
  | look _ => 1
  | concat a b => a.size + b.size
  | either a b => a.size + b.size + 1
  | several least most _ x => max 1 (max least (most.getD 0)) * (x.size + 1)
  | group _ x => x.size + 2

end Node

end Companion.Pattern
