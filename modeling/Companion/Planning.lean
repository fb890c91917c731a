import Companion.Attributes
import Companion.Partner
import Companion.Settings

/-!
# Planning

What is to be generated for a declaration. A plan has a job or not, and notes on what stood in the
way or was decided. It depends on the model, the settings and the declaration; the index that goes
through the plans of a run only remembers look-ups.
-/

namespace Companion

/-- How much a diagnostic weighs: an error says that nothing is generated. -/
inductive Severity where
  | warning | error
  deriving DecidableEq, Repr

def Severity.name : Severity → String
  | warning => "warning"
  | error => "error"

inductive Diagnostic.Cause where
  | multipleVariants (fault : MultipleVariants)
  | alsoTagged (ignored : List Variant) (used : Variant)
  | noSuperclass
  | unconventionalName (name pattern : String)
  | overwrites (path previous : String)
  deriving DecidableEq, Repr

namespace Diagnostic.Cause

def severity : Cause → Severity
  | multipleVariants _ => .error
  | noSuperclass => .error
  | alsoTagged _ _ => .warning
  | unconventionalName _ _ => .warning
  | overwrites _ _ => .warning

def message : Cause → String
  | multipleVariants fault => "could not generate; " ++ fault.message
  | noSuperclass => "could not generate; no superclass specified"
  | alsoTagged ignored used =>
    "also tagged " ++ variantNames ignored ++ "; using @" ++ used.name
  | unconventionalName name pattern =>
    "`" ++ name ++ "` does not follow the Event|Request|Response naming convention (`" ++ pattern ++
      "`); partner not resolved"
  | overwrites path previous => "overwrites " ++ path ++ " generated for " ++ previous

end Diagnostic.Cause

/-- A diagnostic on a declaration, given by its qualified name, under one of its variants. -/
structure Diagnostic where
  variant : Variant
  declaration : String
  cause : Diagnostic.Cause
  deriving DecidableEq, Repr

namespace Diagnostic

def severity (d : Diagnostic) : Severity := d.cause.severity

def line (d : Diagnostic) : String :=
  d.severity.name ++ ": @" ++ d.variant.name ++ " " ++ d.declaration ++ ": " ++ d.cause.message

def event (d : Diagnostic) : Log.Event where
  level := match d.severity with
    | .warning => .warn
    | .error => .error
  message := d.cause.message
  fields := [("tag", d.variant.name), ("declaration", d.declaration)]

end Diagnostic

inductive Note where
  | diagnostic (d : Diagnostic)
  /-- The declaration has no partner, which is no fault. -/
  | noPartner (variant : Variant) (declaration expected : String)
  deriving DecidableEq, Repr

namespace Note

def diagnostic? : Note → Option Diagnostic
  | diagnostic d => some d
  | noPartner _ _ _ => none

def event : Note → Log.Event
  | diagnostic d => d.event
  | noPartner variant declaration expected =>
    ⟨.debug, "no partner declaration",
      [("tag", variant.name), ("declaration", declaration), ("expected", expected)]⟩

end Note

structure Job where
  declaration : Declaration
  variant : Variant
  className : String
  superClass : String
  partner : Option Declaration
  attributes : Attributes
  deriving DecidableEq, Repr

def Job.path (j : Job) (s : Settings) : String :=
  s.outputPath j.declaration.package j.className

structure Plan where
  job : Option Job
  notes : List Note
  deriving DecidableEq, Repr

namespace Plan

def diagnostics (p : Plan) : List Diagnostic :=
  p.notes.filterMap Note.diagnostic?

def events (p : Plan) : List Log.Event :=
  p.notes.map Note.event

end Plan

/-- The partner that a look-up found, and the note on one that found none. -/
def PartnerLookup.outcome (naming : Naming) (variant : Variant) (d : Declaration) :
    PartnerLookup → Option Declaration × List Note
  | .found partner => (some partner, [])
  | .notApplicable => (none, [])
  | .missing expected => (none, [.noPartner variant d.qualifiedName expected])
  | .namingMismatch name =>
    (none, [.diagnostic ⟨variant, d.qualifiedName, .unconventionalName name naming.pattern⟩])

/-- The declaration whose constructors a companion repeats: events repeat none of their
superclass. -/
def baseDeclaration {model : Model} (variant : Variant) (superClass : String)
    (index : NameIndex model) : Option Declaration × NameIndex model :=
  match variant with
  | .event => (none, index)
  | _ => index.lookup (String.ofList (TypeRef.simpleName superClass.toList))

def planClassified {model : Model} (s : Settings) (c : Classification) (d : Declaration)
    (index : NameIndex model) : Plan × NameIndex model :=
  let also := if c.ignored.isEmpty then []
    else [Note.diagnostic ⟨c.variant, d.qualifiedName, .alsoTagged c.ignored c.variant⟩]
  match d.superclassName? with
  | none => (⟨none, also ++ [.diagnostic ⟨c.variant, d.qualifiedName, .noSuperclass⟩]⟩, index)
  | some className =>
    let (lookup, index) := resolvePartner s.naming c.variant d index
    let (partner, notes) := lookup.outcome s.naming c.variant d
    let superClass := c.effectiveSuperclass
    let (base, index) := baseDeclaration c.variant superClass index
    let attributes : Attributes := {
      variant := c.variant
      packageName := d.package
      className := className
      subclassName := d.name
      eventName := eventName d.name
      constructors := describeConstructors none (some d)
      superClass := superClass
      superclassConstructors := describeConstructors partner base
      partnerClass := partner.map (·.name) }
    (⟨some ⟨d, c.variant, className, superClass, partner, attributes⟩, also ++ notes⟩, index)

def plan {model : Model} (s : Settings) (d : Declaration) (index : NameIndex model) :
    Plan × NameIndex model :=
  match classify s.policy d with
  | .ok none => (⟨none, []⟩, index)
  | .error fault =>
    let variant := fault.variants.head?.getD .event
    (⟨none, [.diagnostic ⟨variant, d.qualifiedName, .multipleVariants fault⟩]⟩, index)
  | .ok (some c) => planClassified s c d index

end Companion
