import Companion.Json.Value

/-!
# Tags of templates

What stands between the double braces of a template: values, calls of helpers with parameters and
named parameters, the starts, middles and ends of blocks, comments and partials.
-/

namespace Companion.Template

inductive Step where
  /-- To the block around. -/
  | up
  | name (s : String)
  deriving DecidableEq, Repr

inductive Origin where
  /-- The value of the block. -/
  | here
  /-- The attributes. -/
  | root
  /-- A variable that a block sets for its body. -/
  | local
  deriving DecidableEq, Repr

/-- A path to a value, with its text. -/
structure Path where
  text : String
  origin : Origin
  steps : List Step
  deriving DecidableEq, Repr

inductive Param where
  | literal (value : Json.Value)
  | path (p : Path)
  /-- The result of a helper. -/
  | call (name : String) (params : List Param) (named : List (String × Param))
  deriving Repr

/-- A call of a helper, or a value if there are no parameters. -/
structure Call where
  subject : Param
  params : List Param
  named : List (String × Param)
  deriving Repr

/-- The start of a block: what is called, and names for what the body is rendered with. -/
structure BlockStart where
  name : String
  params : List Param
  named : List (String × Param)
  binders : List String
  deriving Repr

inductive TagKind where
  | comment
  | value (call : Call)
  | open_ (start : BlockStart)
  | otherwise
  /-- The start of a block in place of the else part of the block around. -/
  | otherwiseOpen (start : BlockStart)
  | close (name : String)
  | partial_ (name : String) (params : List Param) (named : List (String × Param))
  /-- A block whose body is text. -/
  | raw (start : BlockStart) (body : List Char) (name : String)
  /-- A decorator, of which there are none but those of blocks. -/
  | decorator
  deriving Repr

/-- A tag, and whether it takes the white space before and after it away. -/
structure Tag where
  kind : TagKind
  trimBefore : Bool
  trimAfter : Bool
  deriving Repr

end Companion.Template
