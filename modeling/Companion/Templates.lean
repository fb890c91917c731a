import Companion.Attributes
import Companion.Run
import Companion.Template.Render
import Companion.Template.Standard

/-!
# Templates of a run

A template for each variant: the standard ones, of which a directory may replace some.
-/

namespace Companion

abbrev Renderer := Attributes → Except Failure String

/-- The templates of a run, those given last first. -/
structure Templates where
  entries : List (Variant × List Template.Node)

namespace Templates

def get? (t : Templates) (v : Variant) : Option (List Template.Node) :=
  t.entries.lookup v

/-- Adds templates. A later template of a variant replaces an earlier one. -/
def addAll (t : Templates) : List (Variant × String) → Except Failure Templates
  | [] => .ok t
  | (v, text) :: rest =>
    match Template.Node.ofText? text with
    | none => .error (.template v.name)
    | some nodes => addAll ⟨(v, nodes) :: t.entries⟩ rest

def ofTexts (texts : List (Variant × String)) : Except Failure Templates :=
  addAll ⟨[]⟩ texts

/-- The most templates that may be inside each other. -/
def maxDepth : Nat := 100

/-- The text of the template of that name where `current` includes it. -/
def include? (t : Templates) : Nat → String → String → Template.Scope →
    Except Template.Fault String
  | 0, _, name, _ => .error (.unknownTemplate name)
  | fuel + 1, current, name, scope =>
    if name = current then .error (.includesItself name)
    else
      match (Variant.ofName? name).bind t.get? with
      | none => .error (.unknownTemplate name)
      | some nodes => Template.Node.renderAll (t.include? fuel name) scope nodes

/-- The text of a template for attributes. -/
def renderNodes (t : Templates) (name : String) (nodes : List Template.Node)
    (attributes : Json.Value) : Except Template.Fault String :=
  Template.Node.renderAll (t.include? maxDepth name) (.ofValue attributes) nodes

def render (t : Templates) : Renderer := fun a =>
  match t.get? a.variant with
  | none => .error (.render a.variant.name)
  | some nodes =>
    (t.renderNodes a.variant.name nodes a.toJson).mapError fun _ => .render a.variant.name

def overridePath (directory : String) (v : Variant) : String :=
  Path.push directory (v.name ++ ".hbs")

def textOf (directory : Option String) (v : Variant) : Run String := do
  match directory.map (overridePath · v) with
  | none => pure (Template.standardText v)
  | some path =>
    if (← get).files.isFile path then
      Run.report [⟨.info, "template override", [("template", v.name), ("path", path)]⟩]
      Run.read path
    else pure (Template.standardText v)

/-- The standard templates, replaced by those in the directory. -/
def load (directory : Option String) : Run Templates := do
  let texts ← Variant.all.mapM fun v => do pure (v, ← textOf directory v)
  Run.ofExcept (ofTexts texts)

end Templates

end Companion
