import Companion.Declaration
import Companion.Java.TypeText

/-!
# Formal parameters

A parameter list is split at its outer commas. Annotations are dropped, the rest is laid out like a
type, and the last space parts the type from the name.
-/

namespace Companion.Java

open Unicode (isWordChar isBlank)
open Text

def isAnnotationChar (c : Char) : Bool :=
  isWordChar c || c == '.' || c == '$'

/-- The text after the arguments that it starts with: up to the first closing bracket. The text
itself if it starts with none. -/
def afterAnnotationArguments (text : List Char) : List Char :=
  match trimStart text with
  | '(' :: rest =>
    match rest.dropWhile (· != ')') with
    | _ :: after => after
    | [] => text
  | _ => text

theorem length_afterAnnotationArguments_le (text : List Char) :
    (afterAnnotationArguments text).length ≤ text.length := by
  unfold afterAnnotationArguments
  split
  · rename_i rest heq
    have h₁ := (List.dropWhile_suffix (l := text) isBlank).length_le
    have h₂ := (List.dropWhile_suffix (l := rest) (· != ')')).length_le
    simp only [trimStart] at heq
    split
    · rename_i after hafter
      rw [heq] at h₁
      rw [hafter] at h₂
      simp only [List.length_cons] at h₁ h₂
      omega
    · exact Nat.le_refl _
  · exact Nat.le_refl _

/-- Puts a space for every annotation. -/
def dropAnnotations (text : List Char) : List Char :=
  match text with
  | [] => []
  | c :: cs =>
    if c = '@' ∧ cs.head?.any isAnnotationChar then
      ' ' :: dropAnnotations (afterAnnotationArguments (cs.dropWhile isAnnotationChar))
    else c :: dropAnnotations cs
termination_by text.length
decreasing_by
  · have h₁ := length_afterAnnotationArguments_le (cs.dropWhile isAnnotationChar)
    have h₂ := (List.dropWhile_suffix (l := cs) isAnnotationChar).length_le
    simp only [List.length_cons]
    omega
  · simp

def splitAtLastSpace? (text : List Char) : Option (List Char × List Char) :=
  match text.reverse.dropWhile (· != ' ') with
  | [] => none
  | _ :: before => some (before.reverse, (text.reverse.takeWhile (· != ' ')).reverse)

/-- A parameter without its annotations and its `final`. -/
def parameterLayout (text : List Char) : List Char :=
  let text := normalizeType (dropAnnotations text)
  (afterPiece? "final ".toList text).getD text

/-- Reads one parameter. Its type is unresolved if its erasure is one of the names in scope. -/
def parameter? (scope : List String) (text : List Char) : Option Parameter :=
  (splitAtLastSpace? (parameterLayout text)).map fun (type, name) =>
    { name := String.ofList name
      type := ⟨String.ofList type, !scope.contains (String.ofList (TypeRef.erase type))⟩ }

def parameters (scope : List String) (text : List Char) : List Parameter :=
  (splitTopLevel text).filterMap (parameter? scope)

end Companion.Java
