import Companion.Java.Bracket
import Companion.Java.Parameter

/-!
# Constructors in a class body

A constructor is an occurrence of the class name before an opening bracket, outside of all braces,
such that the text before it ends like the front of a constructor's header and the text after its
parameters goes on with a body or a throws clause.
-/

namespace Companion.Java

open Unicode (isBlank)
open Text

/-- An occurrence of a name before an opening bracket: the text before the name with its last
character first, the number of braces open there, and the text after the bracket. -/
structure NameCall where
  before : List Char
  depth : Nat
  after : List Char

/-- The text after the name, white space and the bracket that a text starts with. -/
def afterCall? (name text : List Char) : Option (List Char) :=
  match afterPiece? name text with
  | none => none
  | some rest =>
    match trimStart rest with
    | '(' :: after => some after
    | _ => none

theorem length_lt_of_afterCall? {name text after : List Char}
    (h : afterCall? name text = some after) : after.length < text.length := by
  unfold afterCall? at h
  split at h
  · simp at h
  · rename_i rest heq
    have h₁ := (List.dropWhile_suffix (l := rest) isBlank).length_le
    have h₂ : rest.length ≤ text.length := by
      rw [afterPiece?_eq_some_iff.1 heq, List.length_append]
      omega
    split at h
    · rename_i after' hafter
      simp only [trimStart] at hafter
      rw [hafter] at h₁
      simp only [List.length_cons, Option.some.injEq] at h₁ h
      subst h
      omega
    · simp at h

/-- The number of open braces after one more character. It stays at zero when braces are closed
that were not opened. -/
def braceDepth (depth : Nat) (c : Char) : Nat :=
  if c = '\x7b' then depth + 1 else if c = '\x7d' then depth - 1 else depth

/-- The occurrences of the name in a text, where `before` and `depth` describe what comes before the
text. A word must not go on across the start of the name. -/
def nameCalls (name before : List Char) (depth : Nat) (text : List Char) : List NameCall :=
  match text with
  | [] => []
  | c :: cs =>
    if isBoundary before.head? name.head? then
      match _h : afterCall? name (c :: cs) with
      | some after =>
        let passed := (c :: cs).take ((c :: cs).length - after.length)
        ⟨before, depth, after⟩ :: nameCalls name (passed.reverse ++ before) depth after
      | none => nameCalls name (c :: before) (braceDepth depth c) cs
    else nameCalls name (c :: before) (braceDepth depth c) cs
termination_by text.length
decreasing_by
  · exact length_lt_of_afterCall? _h
  · simp
  · simp

def accessModifiers : List (List Char) :=
  ["public".toList, "protected".toList, "private".toList]

def lastWord (before : List Char) : List Char :=
  (before.takeWhile isIdentChar).reverse

/-- A text, given with its last character first, ends in an access modifier or in an annotation. -/
def endsInModifier (before : List Char) : Bool :=
  accessModifiers.contains (lastWord before) ||
    (before.dropWhile isIdentChar).head? == some '@'

/-- The type parameters of the constructor whose name follows the text `before`, which is given with
its last character first. None if the text does not end like the front of a constructor. -/
def constructorTypeParameters? (before : List Char) : Option (List String) :=
  match trimStart before with
  | [] => some []
  | c :: cs =>
    if c = ';' ∨ c = '\x7b' ∨ c = '\x7d' ∨ c = ')' then some []
    else if c = '>' then
      match closing? '>' '<' cs with
      | none => none
      | some (inside, front) =>
        let front := trimStart front
        if lastWord front = [] ∨ endsInModifier front then
          some (typeParameterNames inside.reverse)
        else none
    else if lastWord (c :: cs) ≠ [] ∧ endsInModifier (c :: cs) then some []
    else none

/-- The text after a parameter list goes on like a constructor. -/
def startsBody (after : List Char) : Bool :=
  let rest := trimStart after
  rest.head? == some '\x7b' || "throws".toList.isPrefixOf rest

def NameCall.constructor? (name : String) (classParameters : List String) (call : NameCall) :
    Option Constructor :=
  if call.depth ≠ 0 then none
  else match constructorTypeParameters? call.before with
    | none => none
    | some own =>
      match closing? '(' ')' call.after with
      | none => none
      | some (inside, after) =>
        if startsBody after then some ⟨name, parameters (classParameters ++ own) inside⟩
        else none

def constructors (name : String) (classParameters : List String) (body : List Char) :
    List Constructor :=
  (nameCalls name.toList [] 0 body).filterMap (NameCall.constructor? name classParameters)

end Companion.Java
