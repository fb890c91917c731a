import Companion.Json.Value
import Companion.Template.Tag

/-!
# Scopes

What the names of a template mean at one of its places. A name is looked up in the value of the
innermost block; blocks may also give names to values and set variables for their bodies.
-/

namespace Companion.Template

inductive Fault where
  | unknownHelper (name : String)
  | missingParameter (helper : String)
  /-- A list has no member of that name. -/
  | notAnIndex (name : String)
  | unknownTemplate (name : String)
  | includesItself (name : String)
  | unknownLevel (name : String)
  | unknownDecorator
  deriving DecidableEq, Repr

structure Block where
  value : Json.Value
  /-- Variables of the body, such as the index of an item. -/
  locals : List (String × Json.Value)
  /-- Names that the template gives to values. -/
  bound : List (String × Json.Value)

/-- The blocks around a place, the innermost first, and the value of the whole. -/
structure Scope where
  root : Json.Value
  blocks : List Block

namespace Scope

/-- The scope outside of all blocks. -/
def ofValue (v : Json.Value) : Scope :=
  ⟨v, [⟨v, [], []⟩]⟩

def enter (scope : Scope) (b : Block) : Scope :=
  { scope with blocks := b :: scope.blocks }

/-- The value that a template gave that name. -/
def bound? (scope : Scope) (name : String) : Option Json.Value :=
  scope.blocks.findSome? (·.bound.lookup name)

/-- The value of the block at that distance. There is nothing outside of all blocks, where the
distance does not count. -/
def valueAt (scope : Scope) (depth : Nat) : Json.Value :=
  match scope.blocks[depth]?.or scope.blocks.head? with
  | some b => b.value
  | none => scope.root

end Scope

def index? (name : String) : Option Nat :=
  let digits := match name.toList with
    | '+' :: s => s
    | s => s
  if digits.isEmpty || !digits.all Char.isDigit then none
  else some (digits.foldl (fun n c => 10 * n + (c.toNat - '0'.toNat)) 0)

/-- The member of a value, if there is one. The names of the members of a list are indexes. -/
def member (name : String) : Json.Value → Except Fault (Option Json.Value)
  | .array items =>
    match index? name with
    | some i => .ok items[i]?
    | none => .error (.notAnIndex name)
  | .object members => .ok (members.lookup name)
  | _ => .ok none

def follow : List String → Json.Value → Except Fault (Option Json.Value)
  | [], v => .ok (some v)
  | name :: names, v => do
    match ← member name v with
    | none => .ok none
    | some v => follow names v

def Step.name? : Step → Option String
  | .up => none
  | .name s => some s

namespace Path

/-- The number of blocks that a path leaves at its start. -/
def depth (p : Path) : Nat :=
  (p.steps.takeWhile (· = .up)).length

def names (p : Path) : List String :=
  p.steps.filterMap Step.name?

/-- The value of a path from the block that it leads to. -/
def valueFrom (p : Path) (scope : Scope) : Except Fault (Option Json.Value) :=
  match p.names with
  | [] => .ok (some (scope.valueAt p.depth))
  | name :: names =>
    match scope.bound? name with
    | some v => follow names v
    | none => follow (name :: names) (scope.valueAt p.depth)

def value (p : Path) (scope : Scope) : Except Fault (Option Json.Value) :=
  match p.origin with
  | .root => follow p.names scope.root
  | .here => p.valueFrom scope
  | .local =>
    match p.steps.drop p.depth with
    | .name s :: _ => .ok (scope.blocks[p.depth]?.bind (·.locals.lookup s))
    | _ => follow p.names (scope.valueAt 0)

end Path

end Companion.Template
