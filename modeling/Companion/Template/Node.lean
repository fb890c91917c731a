import Companion.Template.Layout

/-!
# Templates as trees

The blocks of a template hold its texts and tags. The parts of a chain of blocks end together, by
the name of the first one.
-/

namespace Companion.Template

inductive Node where
  | text (s : String)
  | value (call : Call)
  /-- A block, with an else part that may be empty. -/
  | block (start : BlockStart) (body otherwise : List Node)
  | include (name : String) (params : List Param) (named : List (String × Param))
  | decorator
  deriving Repr

/-- A block that has not ended. -/
structure Open where
  start : BlockStart
  /-- The body, if the else part has begun. -/
  body : Option (List Node)
  /-- The block is the else part of the one around it, and ends with it. -/
  chained : Bool
  /-- What stands before the block in the same body, the last part first. -/
  before : List Node

/-- The block that ends after these parts, the last of which comes first. -/
def Open.node (o : Open) (parts : List Node) : Node :=
  match o.body with
  | none => .block o.start parts.reverse []
  | some body => .block o.start body parts.reverse

/-- Ends the innermost block of that name and those chained to it. -/
def closeBlock? (name : String) : List Node → List Open → Option (List Node × List Open)
  | _, [] => none
  | parts, o :: around =>
    if o.chained then closeBlock? name (o.node parts :: o.before) around
    else if o.start.name = name then some (o.node parts :: o.before, around)
    else none

/-- The else part of the innermost block begins, and a chained block in it if there is a start. -/
def otherwise? (chain : Option BlockStart) (parts : List Node) :
    List Open → Option (List Node × List Open)
  | [] => none
  | o :: around =>
    match o.body with
    | some _ => none
    | none =>
      let o := { o with body := some parts.reverse }
      match chain with
      | none => some ([], o :: around)
      | some start => some ([], ⟨start, none, true, []⟩ :: o :: around)

/-- The parts of a template. `parts` are those before in the innermost open block, the last one
first. -/
def nodesOf? (parts : List Node) (openBlocks : List Open) : List Token → Option (List Node)
  | [] => if openBlocks.isEmpty then some parts.reverse else none
  | .text s :: rest => nodesOf? (.text (String.ofList s) :: parts) openBlocks rest
  | .tag kind :: rest =>
    match kind with
    | .comment => nodesOf? parts openBlocks rest
    | .value call => nodesOf? (.value call :: parts) openBlocks rest
    | .partial_ name params named => nodesOf? (.include name params named :: parts) openBlocks rest
    | .decorator => nodesOf? (.decorator :: parts) openBlocks rest
    | .raw start body name =>
      if start.name = name then
        nodesOf? (.block start [.text (String.ofList body)] [] :: parts) openBlocks rest
      else none
    | .open_ start => nodesOf? [] (⟨start, none, false, parts⟩ :: openBlocks) rest
    | .otherwise =>
      match otherwise? none parts openBlocks with
      | some (parts, openBlocks) => nodesOf? parts openBlocks rest
      | none => none
    | .otherwiseOpen start =>
      match otherwise? (some start) parts openBlocks with
      | some (parts, openBlocks) => nodesOf? parts openBlocks rest
      | none => none
    | .close name =>
      match closeBlock? name parts openBlocks with
      | some (parts, openBlocks) => nodesOf? parts openBlocks rest
      | none => none

/-- The parts of the template that a text is, if it is one. -/
def Node.ofText? (s : String) : Option (List Node) :=
  (readTokens? s.toList).bind (nodesOf? [] [])

end Companion.Template
