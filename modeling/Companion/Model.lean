import Companion.Declaration
import Companion.Log
import Companion.Text.Quoted

/-!
# The declaration model

The declarations of a run in order, one of each qualified name: of several the first is kept.
-/

namespace Companion

/-- The declarations whose qualified names are not among `seen` nor those of earlier ones. -/
def firstsFrom (seen : List String) : List Declaration → List Declaration
  | [] => []
  | d :: ds =>
    if seen.contains d.qualifiedName then firstsFrom seen ds
    else d :: firstsFrom (d.qualifiedName :: seen) ds

theorem not_mem_of_mem_firstsFrom {seen : List String} {ds : List Declaration} {d : Declaration}
    (h : d ∈ firstsFrom seen ds) : d.qualifiedName ∉ seen := by
  induction ds generalizing seen with
  | nil => simp [firstsFrom] at h
  | cons e ds ih =>
    unfold firstsFrom at h
    split at h
    · exact ih h
    · rename_i he
      rcases List.mem_cons.1 h with rfl | h
      · simpa using he
      · exact fun hs => ih h (List.mem_cons_of_mem _ hs)

theorem nodup_firstsFrom (seen : List String) (ds : List Declaration) :
    ((firstsFrom seen ds).map Declaration.qualifiedName).Nodup := by
  induction ds generalizing seen with
  | nil => simp [firstsFrom]
  | cons d ds ih =>
    unfold firstsFrom
    split
    · exact ih seen
    · simp only [List.map_cons, List.nodup_cons, List.mem_map, not_exists, not_and]
      refine ⟨fun e he heq => ?_, ih _⟩
      exact not_mem_of_mem_firstsFrom he (by simp [heq])

structure Model where
  declarations : List Declaration
  nodup : (declarations.map Declaration.qualifiedName).Nodup

namespace Model

/-- The model of the declarations, of which the first of each qualified name is kept. -/
def ofList (ds : List Declaration) : Model :=
  ⟨firstsFrom [] ds, nodup_firstsFrom [] ds⟩

def duplicatesFrom (seen : List String) : List Declaration → List Declaration
  | [] => []
  | d :: ds =>
    if seen.contains d.qualifiedName then d :: duplicatesFrom seen ds
    else duplicatesFrom (d.qualifiedName :: seen) ds

def duplicateEvent (d : Declaration) : Log.Event where
  level := .warn
  message := "duplicate declaration ignored"
  fields := [
    ("declaration", d.qualifiedName),
    ("source", match d.source with
      | none => "None"
      | some path => "Some(" ++ Text.quotedPath path ++ ")")]

def events (ds : List Declaration) : List Log.Event :=
  (duplicatesFrom [] ds).map duplicateEvent

def firstNamed? (m : Model) (name : String) : Option Declaration :=
  m.declarations.find? (·.name == name)

/-- The index of the first declaration with that simple name. -/
def position? (m : Model) (name : String) : Option Nat :=
  m.declarations.findIdx? (·.name == name)

def get? (m : Model) (i : Nat) : Option Declaration :=
  m.declarations[i]?

/-- The declaration at the position of a name is the first one of that name. -/
theorem bind_get?_position? (m : Model) (name : String) :
    (m.position? name).bind m.get? = m.firstNamed? name := by
  unfold position? get? firstNamed?
  induction m.declarations with
  | nil => rfl
  | cons d ds ih =>
    rw [List.findIdx?_cons, List.find?_cons, ← ih]
    cases d.name == name with
    | true => rfl
    | false =>
      rw [if_neg Bool.false_ne_true, Option.bind_map]
      rfl

end Model

end Companion
