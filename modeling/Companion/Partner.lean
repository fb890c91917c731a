import Companion.Model
import Companion.Naming
import Companion.Variant

/-!
# Partners

A request has a response as its partner and a response a request: the first declaration whose simple
name is the stem with the suffix of the partner. Look-ups by simple name go through an index, which
remembers the positions of what it was asked for. Misses are remembered too: the model of an index
does not change.
-/

namespace Companion

/-- The names that were looked up so far, the last one first, with the positions in the model that
were found for them. -/
structure NameIndex (model : Model) where
  entries : List (String × Option Nat)
  sound : ∀ e ∈ entries, e.2 = model.position? e.1

namespace NameIndex

variable {model : Model}

def empty : NameIndex model := ⟨[], by simp⟩

def lookup (index : NameIndex model) (name : String) : Option Declaration × NameIndex model :=
  match index.entries.lookup name with
  | some position => (position.bind model.get?, index)
  | none =>
    let position := model.position? name
    (position.bind model.get?, ⟨(name, position) :: index.entries, fun e he => by
      rcases List.mem_cons.1 he with rfl | he
      · rfl
      · exact index.sound e he⟩)

def size (index : NameIndex model) : Nat :=
  index.entries.length

end NameIndex

inductive PartnerLookup where
  /-- The variant has no partners. -/
  | notApplicable
  /-- The name does not follow the convention. -/
  | namingMismatch (name : String)
  /-- There is no declaration of that name. -/
  | missing (expected : String)
  | found (partner : Declaration)
  deriving DecidableEq, Repr

def Naming.subject (n : Naming) (d : Declaration) : String :=
  match n.source with
  | .subclass => d.name
  | .superclass => d.superclassName?.getD ""

def resolvePartner {model : Model} (naming : Naming) (variant : Variant) (d : Declaration)
    (index : NameIndex model) : PartnerLookup × NameIndex model :=
  match variant.partnerSuffix? with
  | none => (.notApplicable, index)
  | some suffix =>
    let name := naming.subject d
    match naming.stem? name with
    | none => (.namingMismatch name, index)
    | some stem =>
      let expected := stem ++ suffix
      match index.lookup expected with
      | (some partner, index) => (.found partner, index)
      | (none, index) => (.missing expected, index)

end Companion
