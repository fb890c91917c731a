import Companion.CommandLine.Command
import Companion.Text.Quoted

/-!
# Command lines as they are shown

A command line is shown as nested records, with every field and item on a line of its own.
-/

namespace Companion.CommandLine

inductive Shown where
  | word (text : String)
  | list (items : List Shown)
  | wrapped (name : String) (inside : Shown)
  | record (name : String) (fields : List (String × Shown))

def lineAt (depth : Nat) : String :=
  String.ofList ('\n' :: List.replicate (4 * depth) ' ')

mutual

/-- The text of what is shown, inside `depth` others. -/
def Shown.text (depth : Nat) : Shown → String
  | .word text => text
  | .list [] => "[]"
  | .list (item :: items) =>
    "[" ++ Shown.itemsText (depth + 1) (item :: items) ++ lineAt depth ++ "]"
  | .wrapped name inside =>
    name ++ "(" ++ lineAt (depth + 1) ++ inside.text (depth + 1) ++ "," ++ lineAt depth ++ ")"
  | .record name fields =>
    name ++ " \x7b" ++ Shown.fieldsText (depth + 1) fields ++ lineAt depth ++ "\x7d"

def Shown.itemsText (depth : Nat) : List Shown → String
  | [] => ""
  | item :: items => lineAt depth ++ item.text depth ++ "," ++ Shown.itemsText depth items

def Shown.fieldsText (depth : Nat) : List (String × Shown) → String
  | [] => ""
  | (name, value) :: fields =>
    lineAt depth ++ name ++ ": " ++ value.text depth ++ "," ++ Shown.fieldsText depth fields

end

def Shown.bool (b : Bool) : Shown :=
  .word (toString b)

def Shown.quoted (s : String) : Shown :=
  .word (Text.quoted s)

def Shown.path (s : String) : Shown :=
  .word (Text.quotedPath s)

/-- A path that may be missing. -/
def Shown.optionalPath : Option String → Shown
  | none => .word "None"
  | some s => .wrapped "Some" (.path s)

def nameSourceWord : NameSource → String
  | .subclass => "Subclass"
  | .superclass => "Superclass"

def inputsShown (i : Inputs) : Shown :=
  .record "InputSettings" [
    ("source", .list (i.sources.map .quoted)),
    ("model", .list (i.models.map .path)),
    ("ndjson", .bool i.lines)]

def Command.shown : Command → Shown
  | .generate o => .wrapped "Generate" (.record "GenerateOut" [
    ("input_settings", inputsShown o.inputs),
    ("out", .path o.out),
    ("extension", .quoted o.extension),
    ("templates", .optionalPath o.templates),
    ("naming_pattern", .quoted o.namingPattern),
    ("partner_from", .word (nameSourceWord o.nameSource)),
    ("reject_multi_tag", .bool o.rejectMultiTag),
    ("dry_run", .bool o.dryRun),
    ("no_op", .bool o.noOp)])
  | .model o => .wrapped "Model" (.record "ModelOut" [
    ("input_settings", inputsShown o.inputs),
    ("out", .optionalPath o.out),
    ("no_op", .bool o.noOp)])

def Invocation.shown (i : Invocation) : String :=
  (Shown.record "CommandLineInterface" [
    ("cmd", i.command.shown),
    ("verbose", .word (toString i.verbosity))]).text 0

end Companion.CommandLine
