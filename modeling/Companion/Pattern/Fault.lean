/-!
# Faults of patterns

Why a text is no pattern.
-/

namespace Companion.Pattern

inductive Fault where
  | unclosedGroup
  | unopenedGroup
  | lookAround
  | backReference
  | nothingToRepeat
  | badCount
  | badFlags
  | badGroupName
  | repeatedGroupName
  | badEscape
  | unknownProperty
  | badClass
  /-- Something that needs characters beyond ASCII where only ASCII is matched. -/
  | beyondASCII
  | tooLarge
  deriving DecidableEq, Repr

end Companion.Pattern
