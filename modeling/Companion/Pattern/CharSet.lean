import Companion.Unicode.CaseFold
import Companion.Unicode.Property
import Companion.Unicode.Script

/-!
# Sets of characters

The sets that patterns are made of, as terms: a set says what it is made of, and `contains` what
belongs to it. `ofName?` knows the general categories, the scripts and the common properties of the
character database by their names.
-/

namespace Companion.Pattern

open Unicode

inductive Property where
  | alphabetic
  | uppercase
  | lowercase
  | whiteSpace
  | decimal
  | word
  | joinControl
  | hexDigit
  | asciiHexDigit
  | graphemeExtend
  | idStart
  | idContinue
  deriving DecidableEq, Repr

/-- The characters that identifiers of the character database may start with. -/
def isIdStart (c : Char) : Bool :=
  let n := c.toNat
  if n < 0x80 then c.isAlpha
  else n != 0x2E2F && (n == 0x1885 || n == 0x1886 || n == 0x2118 || n == 0x212E || n == 0x309B ||
    n == 0x309C || match category c with
      | .lu | .ll | .lt | .lm | .lo | .nl => true
      | _ => false)

/-- The characters that identifiers of the character database may go on with. -/
def isIdContinue (c : Char) : Bool :=
  let n := c.toNat
  isIdStart c || n == 0xB7 || n == 0x387 || (0x1369 ≤ n && n ≤ 0x1371) || n == 0x19DA ||
    n == 0x200C || n == 0x200D || n == 0x30FB || n == 0xFF65 || match category c with
      | .mn | .mc | .nd | .pc => true
      | _ => false

def Property.holds : Property → Char → Bool
  | alphabetic, c => isAlphabetic c
  | uppercase, c => isUppercase c
  | lowercase, c => isLowercase c
  | whiteSpace, c => isBlank c
  | decimal, c => isDecimal c
  | word, c => isWordChar c
  | joinControl, c => c.toNat == 0x200C || c.toNat == 0x200D
  | hexDigit, c =>
    let n := c.toNat
    (hexDigit? c).isSome || (0xFF10 ≤ n && n ≤ 0xFF19) || (0xFF21 ≤ n && n ≤ 0xFF26) ||
      (0xFF41 ≤ n && n ≤ 0xFF46)
  | asciiHexDigit, c => (hexDigit? c).isSome
  | graphemeExtend, c => extendsGrapheme c
  | idStart, c => isIdStart c
  | idContinue, c => isIdContinue c

inductive CharSet where
  | range (first last : Char)
  | having (property : Property)
  | ofCategory (categories : List Category)
  | ofScript (name : String)
  | complement (s : CharSet)
  | union (s t : CharSet)
  | inter (s t : CharSet)
  /-- The characters that are in the set but for case. -/
  | folded (s : CharSet)
  /-- The characters that are in the set but for the case of the letters from A to Z. -/
  | foldedASCII (s : CharSet)
  deriving DecidableEq, Repr

namespace CharSet

def single (c : Char) : CharSet := range c c

def all : CharSet := range '\x00' (Char.ofNat 0x10FFFF)

def none : CharSet := complement all

def diff (s t : CharSet) : CharSet := inter s (complement t)

/-- The characters in exactly one of two sets. -/
def symmDiff (s t : CharSet) : CharSet := union (diff s t) (diff t s)

def ranges : List (Char × Char) → CharSet
  | [] => none
  | [(a, b)] => range a b
  | (a, b) :: rest => union (range a b) (ranges rest)

/-- The letters that differ from `c` in case alone, with `c` itself, looking only at A to Z. -/
def asciiVariants (c : Char) : List Char :=
  if c.isUpper then [c, c.toLower] else if c.isLower then [c, c.toUpper] else [c]

def contains : CharSet → Char → Bool
  | range first last, c => first ≤ c && c ≤ last
  | having p, c => p.holds c
  | ofCategory cs, c => cs.contains (category c)
  | ofScript name, c => (Script.ofName? name).any (·.ranges.contains c.toNat)
  | complement s, c => !s.contains c
  | union s t, c => s.contains c || t.contains c
  | inter s t, c => s.contains c && t.contains c
  | folded s, c => (caseVariants c).any s.contains
  | foldedASCII s, c => (asciiVariants c).any s.contains

def asciiDigit : CharSet := range '0' '9'

def asciiBlank : CharSet := ranges [('\t', '\r'), (' ', ' ')]

def asciiWord : CharSet := ranges [('0', '9'), ('A', 'Z'), ('_', '_'), ('a', 'z')]

/-- The set that is called `[:name:]`. -/
def ofBracketName? : String → Option CharSet
  | "alnum" => some (ranges [('0', '9'), ('A', 'Z'), ('a', 'z')])
  | "alpha" => some (ranges [('A', 'Z'), ('a', 'z')])
  | "ascii" => some (range '\x00' '\x7f')
  | "blank" => some (ranges [('\t', '\t'), (' ', ' ')])
  | "cntrl" => some (ranges [('\x00', '\x1f'), ('\x7f', '\x7f')])
  | "digit" => some asciiDigit
  | "graph" => some (range '!' '~')
  | "lower" => some (range 'a' 'z')
  | "print" => some (range ' ' '~')
  | "punct" => some (ranges [('!', '/'), (':', '@'), ('[', '\x60'), ('\x7b', '~')])
  | "space" => some asciiBlank
  | "upper" => some (range 'A' 'Z')
  | "word" => some asciiWord
  | "xdigit" => some (ranges [('0', '9'), ('A', 'F'), ('a', 'f')])
  | _ => Option.none

/-- A name as names of properties are compared: in lower case, without spaces, hyphens, underscores
and a leading `is`. -/
def plainName (name : List Char) : String :=
  let lower := name.map Char.toLower
  let start := if ['i', 's'].isPrefixOf lower then lower.drop 2 else lower
  let kept := start.filter fun c => !(c == ' ' || c == '_' || c == '-') && c.toNat < 0x80
  String.ofList (if kept = ['c'] ∧ start.length < lower.length then "isc".toList else kept)

def categories? : String → Option (List Category)
  | "c" | "other" => some [.cc, .cf, .cn, .co, .cs]
  | "cc" | "control" | "cntrl" => some [.cc]
  | "cf" | "format" => some [.cf]
  | "cn" | "unassigned" => some [.cn]
  | "co" | "privateuse" => some [.co]
  | "l" | "letter" => some [.lu, .ll, .lt, .lm, .lo]
  | "lc" | "casedletter" => some [.lu, .ll, .lt]
  | "ll" | "lowercaseletter" => some [.ll]
  | "lm" | "modifierletter" => some [.lm]
  | "lo" | "otherletter" => some [.lo]
  | "lt" | "titlecaseletter" => some [.lt]
  | "lu" | "uppercaseletter" => some [.lu]
  | "m" | "mark" | "combiningmark" => some [.mn, .mc, .me]
  | "mc" | "spacingmark" => some [.mc]
  | "me" | "enclosingmark" => some [.me]
  | "mn" | "nonspacingmark" => some [.mn]
  | "n" | "number" => some [.nd, .nl, .no]
  | "nd" | "decimalnumber" | "digit" => some [.nd]
  | "nl" | "letternumber" => some [.nl]
  | "no" | "othernumber" => some [.no]
  | "p" | "punctuation" | "punct" => some [.pc, .pd, .ps, .pe, .pi, .pf, .po]
  | "pc" | "connectorpunctuation" => some [.pc]
  | "pd" | "dashpunctuation" => some [.pd]
  | "pe" | "closepunctuation" => some [.pe]
  | "pf" | "finalpunctuation" => some [.pf]
  | "pi" | "initialpunctuation" => some [.pi]
  | "po" | "otherpunctuation" => some [.po]
  | "ps" | "openpunctuation" => some [.ps]
  | "s" | "symbol" => some [.sm, .sc, .sk, .so]
  | "sc" | "currencysymbol" => some [.sc]
  | "sk" | "modifiersymbol" => some [.sk]
  | "sm" | "mathsymbol" => some [.sm]
  | "so" | "othersymbol" => some [.so]
  | "z" | "separator" => some [.zs, .zl, .zp]
  | "zl" | "lineseparator" => some [.zl]
  | "zp" | "paragraphseparator" => some [.zp]
  | "zs" | "spaceseparator" => some [.zs]
  | _ => Option.none

/-- The set of a general category, where three more names stand for sets of categories. -/
def ofCategoryName? (name : String) : Option CharSet :=
  match name with
  | "any" => some all
  | "ascii" => some (range '\x00' '\x7f')
  | "assigned" => some (complement (ofCategory [.cn]))
  | _ => (categories? name).map ofCategory

def ofScriptName? (name : String) : Option CharSet :=
  (Script.ofName? name).map fun _ => ofScript name

def propertyOfName? : String → Option Property
  | "alphabetic" | "alpha" => some .alphabetic
  | "uppercase" | "upper" => some .uppercase
  | "lowercase" | "lower" => some .lowercase
  | "whitespace" | "wspace" | "space" => some .whiteSpace
  | "joincontrol" | "joinc" => some .joinControl
  | "hexdigit" | "hex" => some .hexDigit
  | "asciihexdigit" | "ahex" => some .asciiHexDigit
  | "graphemeextend" | "grext" => some .graphemeExtend
  | "idstart" | "ids" => some .idStart
  | "idcontinue" | "idc" => some .idContinue
  | _ => Option.none

/-- The set that a property, a general category or a script names. -/
def ofName? (name : List Char) : Option CharSet :=
  let plain := plainName name
  match propertyOfName? plain with
  | some p => some (having p)
  | Option.none =>
    match ofCategoryName? plain with
    | some s => some s
    | Option.none => ofScriptName? plain

def ofNameAndValue? (name value : List Char) : Option CharSet :=
  match plainName name with
  | "gc" | "generalcategory" => ofCategoryName? (plainName value)
  | "sc" | "script" | "scx" | "scriptextensions" => ofScriptName? (plainName value)
  | _ => Option.none

end CharSet

end Companion.Pattern
