/-!
# Log events

What a run reports beside its result. An event has a level, a message and named fields, all of
them text.
-/

namespace Companion.Log

/-- The levels, the most severe first. -/
inductive Level where
  | error | warn | info | debug | trace
  deriving DecidableEq, Repr

namespace Level

def name : Level → String
  | error => "error"
  | warn => "warn"
  | info => "info"
  | debug => "debug"
  | trace => "trace"

/-- The place of a level, starting with the most severe. -/
def rank : Level → Nat
  | error => 0
  | warn => 1
  | info => 2
  | debug => 3
  | trace => 4

def ofName? (name : String) : Option Level :=
  [error, warn, info, debug, trace].find? (·.name == name)

end Level

structure Event where
  level : Level
  message : String
  fields : List (String × String)
  deriving DecidableEq, Repr

/-- The events of that level and of the more severe ones. -/
def upTo (level : Level) (events : List Event) : List Event :=
  events.filter (·.level.rank ≤ level.rank)

end Companion.Log
