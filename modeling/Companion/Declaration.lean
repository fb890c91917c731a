import Companion.Text.Basic

/-!
# Declarations

A class declaration as a source of the model describes it, and the names that are read off it: the
qualified name, and the simple name of a type, which is the last part of its erasure.
-/

namespace Companion

/-- A type as written. It is unresolved when it names a type parameter. -/
structure TypeRef where
  text : String
  resolved : Bool
  deriving DecidableEq, Repr

namespace TypeRef

/-- The text of a type without type arguments, array brackets and the dots of a variable
arity parameter. -/
def erase (text : List Char) : List Char :=
  Text.dropSuffixes ['.', '.', '.']
    (text.takeWhile fun c => !(c == '<' || c == '[' || Unicode.isBlank c))

def simpleName (text : List Char) : List Char :=
  (erase text).reverse.takeWhile (· != '.') |>.reverse

def erased (t : TypeRef) : String :=
  String.ofList (erase t.text.toList)

def simple (t : TypeRef) : String :=
  String.ofList (simpleName t.text.toList)

end TypeRef

/-- A block tag of a documentation comment: its name, the text after it, and the parameters
named in that text, each named once. -/
structure Tag where
  name : String
  value : String
  params : List (String × String)
  nodup : (params.map Prod.fst).Nodup
  deriving DecidableEq, Repr

namespace Tag

/-- Sets a parameter. A key that is there keeps its place. -/
def insertParam (key value : String) : List (String × String) → List (String × String)
  | [] => [(key, value)]
  | (k, v) :: rest => if k = key then (k, value) :: rest else (k, v) :: insertParam key value rest

theorem mem_keys_insertParam {key value k : String} {ps : List (String × String)} :
    k ∈ (insertParam key value ps).map Prod.fst ↔ k = key ∨ k ∈ ps.map Prod.fst := by
  induction ps with
  | nil => simp [insertParam]
  | cons p ps ih =>
    obtain ⟨k', v'⟩ := p
    unfold insertParam
    split
    · rename_i h
      subst h
      simp
    · simp only [List.map_cons, List.mem_cons, ih]
      rw [or_left_comm]

theorem nodup_insertParam {key value : String} {ps : List (String × String)}
    (h : (ps.map Prod.fst).Nodup) : ((insertParam key value ps).map Prod.fst).Nodup := by
  induction ps with
  | nil => simp [insertParam]
  | cons p ps ih =>
    obtain ⟨k', v'⟩ := p
    simp only [List.map_cons, List.nodup_cons] at h
    unfold insertParam
    split
    · simpa using h
    · rename_i hk
      simp only [List.map_cons, List.nodup_cons, mem_keys_insertParam, not_or]
      exact ⟨⟨hk, h.1⟩, ih h.2⟩

abbrev Params := { ps : List (String × String) // (ps.map Prod.fst).Nodup }

namespace Params

def empty : Params := ⟨[], List.nodup_nil⟩

def insert (key value : String) (ps : Params) : Params :=
  ⟨insertParam key value ps.1, nodup_insertParam ps.2⟩

end Params

def param? (t : Tag) (key : String) : Option String :=
  t.params.lookup key

end Tag

structure Parameter where
  name : String
  type : TypeRef
  deriving DecidableEq, Repr

structure Constructor where
  name : String
  params : List Parameter
  deriving DecidableEq, Repr

/-- A class declaration. The package is empty for the default package; the source is the file it
was read from. -/
structure Declaration where
  package : String
  name : String
  superclass : Option TypeRef
  typeParameters : List String
  tags : List Tag
  constructors : List Constructor
  source : Option String
  deriving DecidableEq, Repr

namespace Declaration

/-- The name with its package in front, if it has one. -/
def qualifiedName (d : Declaration) : String :=
  if d.package.isEmpty then d.name else d.package ++ "." ++ d.name

def tag? (d : Declaration) (name : String) : Option Tag :=
  d.tags.find? (·.name == name)

/-- The simple name of the superclass, if it has one that is not empty. -/
def superclassName? (d : Declaration) : Option String :=
  (d.superclass.map TypeRef.simple).filter fun name => !name.isEmpty

end Declaration

end Companion
