import Companion.Descriptor
import Companion.Json.Value
import Companion.Variant

/-!
# Template attributes

What a template is rendered with. Constructors of the superclass and the partner are attributes of
requests and responses alone.
-/

namespace Companion

structure Attributes where
  variant : Variant
  packageName : String
  className : String
  subclassName : String
  eventName : String
  constructors : List ConstructorDescriptor
  superClass : String
  superclassConstructors : List ConstructorDescriptor
  partnerClass : Option String
  deriving DecidableEq, Repr

/-- The name of the event that a declaration stands for: its own without `Event` at the end. -/
def eventName (name : String) : String :=
  match Text.afterPiece? "Event".toList.reverse name.toList.reverse with
  | some stem => String.ofList stem.reverse
  | none => name

def ConstructorDescriptor.toJson (c : ConstructorDescriptor) : Json.Value :=
  .object [("name", .string c.name), ("args", .array (c.args.map fun a =>
    .object [("type", .string a.type), ("name", .string a.name)]))]

def Attributes.toJson (a : Attributes) : Json.Value :=
  let listed (cs : List ConstructorDescriptor) : Json.Value :=
    .array (cs.map ConstructorDescriptor.toJson)
  let common := [
    ("packageName", .string a.packageName),
    ("className", .string a.className),
    ("subclassName", .string a.subclassName),
    ("eventName", .string a.eventName),
    ("constructors", listed a.constructors),
    ("superClass", .string a.superClass)]
  match a.variant with
  | .event => .object common
  | _ => .object (common ++ ("superclassConstructors", listed a.superclassConstructors) ::
      match a.partnerClass with
      | none => []
      | some partner => [("partnerClass", .string partner)])

end Companion
