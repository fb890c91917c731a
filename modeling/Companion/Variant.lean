import Companion.Declaration

/-!
# Variants

A declaration is tagged for a variant by a tag of that name. One that is tagged for several is an
event before it is a request, and a request before it is a response, unless that is rejected.
-/

namespace Companion

/-- The kinds of classes that get a companion, in the order of their priority. -/
inductive Variant where
  | event | request | response
  deriving DecidableEq, Repr

namespace Variant

def all : List Variant := [event, request, response]

def name : Variant → String
  | event => "event"
  | request => "request"
  | response => "response"

def ofName? (name : String) : Option Variant :=
  all.find? (·.name == name)

def defaultSuperclass : Variant → String
  | event => "GwtEvent"
  | request => "AbstractRequest"
  | response => "AbstractResponse"

/-- How the name of a partner ends. Events have none. -/
def partnerSuffix? : Variant → Option String
  | event => none
  | request => some "Response"
  | response => some "Request"

end Variant

def variantNames (variants : List Variant) : String :=
  ", ".intercalate (variants.map Variant.name)

inductive MultiTagPolicy where
  | firstWins | reject
  deriving DecidableEq, Repr

/-- The variant of a declaration, its tag, and the variants that it is tagged for besides. -/
structure Classification where
  variant : Variant
  tag : Tag
  ignored : List Variant
  deriving DecidableEq, Repr

namespace Classification

/-- The superclass that the tag asks for, if it is not blank. -/
def superclassOverride? (c : Classification) : Option String :=
  ((c.tag.param? "superclass").map Text.trimString).filter fun s => !s.isEmpty

def effectiveSuperclass (c : Classification) : String :=
  c.superclassOverride?.getD c.variant.defaultSuperclass

end Classification

/-- The variants that a declaration is tagged for, each with its first tag, in the order of
priority. -/
def Declaration.variantTags (d : Declaration) : List (Variant × Tag) :=
  Variant.all.filterMap fun v => (d.tag? v.name).map fun tag => (v, tag)

/-- A declaration is tagged for these variants, more than one. -/
structure MultipleVariants where
  variants : List Variant
  deriving DecidableEq, Repr

def MultipleVariants.message (m : MultipleVariants) : String :=
  "carries more than one variant tag (" ++ variantNames m.variants ++ ")"

/-- The classification of a declaration, if it is tagged at all. -/
def classify (policy : MultiTagPolicy) (d : Declaration) :
    Except MultipleVariants (Option Classification) :=
  match d.variantTags with
  | [] => .ok none
  | (variant, tag) :: others =>
    if others.isEmpty || policy = .firstWins then
      .ok (some ⟨variant, tag, others.map (·.1)⟩)
    else .error ⟨variant :: others.map (·.1)⟩

end Companion
