import Companion.Pattern.Parser

/-!
# Naming conventions

A convention reads the stem off a name: a regular expression has to match the whole name, and the
stem is what its group `stem` matched, or else its first group.
-/

namespace Companion

inductive NameSource where
  | subclass | superclass
  deriving DecidableEq, Repr

namespace NameSource

def name : NameSource → String
  | subclass => "subclass"
  | superclass => "superclass"

def ofName? (name : String) : Option NameSource :=
  [subclass, superclass].find? (·.name == name)

end NameSource

inductive NamingFault where
  | badPattern (fault : Pattern.Fault)
  | noGroup (pattern : String)
  deriving DecidableEq, Repr

structure Naming where
  pattern : String
  regex : Pattern.Regex
  source : NameSource
  deriving DecidableEq, Repr

namespace Naming

/-- The pattern with the conditions that it starts at the start of a name and ends at its end. The
pattern is put between them as text. -/
def anchored (pattern : String) : List Char :=
  "^(?:".toList ++ pattern.toList ++ ")$".toList

def ofPattern (pattern : String) (source : NameSource) : Except NamingFault Naming :=
  match Pattern.Regex.ofText (anchored pattern) with
  | .error fault => .error (.badPattern fault)
  | .ok regex =>
    if regex.root.hasGroup then .ok ⟨pattern, regex, source⟩ else .error (.noGroup pattern)

/-- The stem of a name that follows the convention. -/
def stem? (n : Naming) (name : String) : Option String :=
  (n.regex.capture? "stem".toList name.toList).map String.ofList

/-- A word with `Event`, `Request` or `Response` after its stem, or without. -/
def defaultPattern : String :=
  "^(?P<stem>[A-Za-z_$][A-Za-z0-9_$]*?)(?:Event|Request|Response)?$"

def default : Naming :=
  (ofPattern defaultPattern .subclass).toOption.get (by decide +kernel)

end Naming

end Companion
