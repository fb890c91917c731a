import Companion.Declaration
import Companion.Json.Reader
import Companion.Json.Writer

/-!
# Declarations in JSON

The form that models are read from and written in. Empty and absent parts are not written, except
the package, the names and the parameters of constructors. A type is written as an object; it is
also read from a string, which stands for a resolved type.
-/

namespace Companion

open Json

/-- The members without those that are absent. -/
def present (members : List (String × Option Value)) : Value :=
  .object (members.filterMap fun (key, value) => value.map fun v => (key, v))

/-- The list as a value unless it is empty. -/
def listed {α : Type} (toJson : α → Value) (xs : List α) : Option Value :=
  if xs.isEmpty then none else some (.array (xs.map toJson))

namespace TypeRef

def toJson (t : TypeRef) : Value :=
  .object [("text", .string t.text), ("resolved", .bool t.resolved)]

/-- Puts the member into the text and the flag that were found so far. -/
def ofMembers? : List (String × Value) → Option String → Option Bool → Option TypeRef
  | [], text, resolved => text.map fun text => ⟨text, resolved.getD true⟩
  | ("text", v) :: rest, none, resolved => do ofMembers? rest (some (← v.string?)) resolved
  | ("resolved", v) :: rest, text, none => do ofMembers? rest text (some (← v.bool?))
  | (key, _) :: rest, text, resolved =>
    if key = "text" ∨ key = "resolved" then none else ofMembers? rest text resolved

def ofJson? : Value → Option TypeRef
  | .string text => some ⟨text, true⟩
  | .object members => ofMembers? members none none
  | _ => none

def read (depth : Nat) : Reader TypeRef := fun s => do
  let (v, rest) ← readValue depth s
  match ofJson? v with
  | some t => .ok (t, rest)
  | none => .error (.ofValue (.noForm "TypeRefRepr") rest)

end TypeRef

def field {σ α : Type} (name : String) (required : Bool) (read : Nat → Reader α)
    (set : σ → α → σ) : RecordField σ :=
  ⟨name, required, fun depth state s => (read depth s).map fun (x, rest) => (set state x, rest)⟩

def readName : Nat → Reader String := fun _ => readText "a string"

namespace Tag

def toJson (t : Tag) : Value :=
  present [
    ("name", some (.string t.name)),
    ("value", if t.value.isEmpty then none else some (.string t.value)),
    ("params", if t.params.isEmpty then none
      else some (.object (t.params.map fun (k, v) => (k, .string v))))]

def record : Record Tag where
  name := "Tag"
  fields := [
    field "name" true readName fun t x => { t with name := x },
    field "value" false readName fun t x => { t with value := x },
    field "params" false (fun depth => readTextMap depth Params.insert .empty)
      fun t x => { t with params := x.1, nodup := x.2 }]

def read (depth : Nat) : Reader Tag :=
  record.read depth ⟨"", "", [], List.nodup_nil⟩

end Tag

namespace Parameter

def toJson (p : Parameter) : Value :=
  .object [("name", .string p.name), ("type", p.type.toJson)]

def record : Record Parameter where
  name := "Param"
  fields := [
    field "name" true readName fun p x => { p with name := x },
    field "type" true TypeRef.read fun p x => { p with type := x }]

def read (depth : Nat) : Reader Parameter :=
  record.read depth ⟨"", ⟨"", true⟩⟩

end Parameter

namespace Constructor

def toJson (c : Constructor) : Value :=
  .object [("name", .string c.name), ("params", .array (c.params.map Parameter.toJson))]

def record : Record Constructor where
  name := "Constructor"
  fields := [
    field "name" true readName fun c x => { c with name := x },
    field "params" false (fun depth => readList depth Parameter.read)
      fun c x => { c with params := x }]

def read (depth : Nat) : Reader Constructor :=
  record.read depth ⟨"", []⟩

end Constructor

namespace Declaration

def toJson (d : Declaration) : Value :=
  present [
    ("package", some (.string d.package)),
    ("name", some (.string d.name)),
    ("superclass", d.superclass.map TypeRef.toJson),
    ("type_parameters", listed Value.string d.typeParameters),
    ("tags", listed Tag.toJson d.tags),
    ("constructors", listed Constructor.toJson d.constructors),
    ("source", d.source.map Value.string)]

def record : Record Declaration where
  name := "Declaration"
  fields := [
    field "package" false readName fun d x => { d with package := x },
    field "name" true readName fun d x => { d with name := x },
    field "superclass" false (fun depth => readOptional (TypeRef.read depth))
      fun d x => { d with superclass := x },
    field "type_parameters" false (fun depth => readList depth readName)
      fun d x => { d with typeParameters := x },
    field "tags" false (fun depth => readList depth Tag.read) fun d x => { d with tags := x },
    field "constructors" false (fun depth => readList depth Constructor.read)
      fun d x => { d with constructors := x },
    field "source" false (fun _ => readOptional (readText "path string"))
      fun d x => { d with source := x }]

def read (depth : Nat) : Reader Declaration :=
  record.read depth ⟨"", "", none, [], [], [], none⟩

def readAll (depth : Nat) : Reader (List Declaration) :=
  readList depth Declaration.read

def listToJson (ds : List Declaration) : Value :=
  .array (ds.map toJson)

end Declaration

/-- What the reader reads at the start of a text, or the message of the fault. -/
def Json.readText? {α : Type} (read : Nat → Reader α) (text : String) : Except String α :=
  match read maxDepth text.toList with
  | .ok (x, _) => .ok x
  | .error f => .error (f.message text.toList)

def Json.readLine? {α : Type} (read : Nat → Reader α) (line : Nat) (text : String) :
    Except String α :=
  (readText? read text).mapError fun message => "line " ++ toString line ++ ": " ++ message

end Companion
