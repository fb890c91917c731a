import Companion.Declaration

/-!
# Constructor descriptors

The constructors of a declaration as a companion repeats them. A type parameter of the superclass
that stands for the partner is replaced by the partner's name: it is unresolved and has one
character.
-/

namespace Companion

structure Argument where
  type : String
  name : String
  deriving DecidableEq, Repr

structure ConstructorDescriptor where
  name : String
  args : List Argument
  deriving DecidableEq, Repr

/-- The name that replaces a type, if it stands for the partner. -/
def replacement? (partner : Option Declaration) (type : TypeRef) : Option String :=
  match partner with
  | none => none
  | some p => if !type.resolved && type.text.length == 1 then some p.qualifiedName else none

def Parameter.describe (partner : Option Declaration) (p : Parameter) : Argument :=
  ⟨(replacement? partner p.type).getD p.type.text, p.name⟩

def Constructor.describe (partner : Option Declaration) (c : Constructor) : ConstructorDescriptor :=
  ⟨c.name, c.params.map (·.describe partner)⟩

def describeConstructors (partner : Option Declaration) :
    Option Declaration → List ConstructorDescriptor
  | none => []
  | some d => d.constructors.map (·.describe partner)

end Companion
