import Companion.Java.Scan
import Companion.Text.Slice

/-!
# Scanning by offsets

The scan of a compilation unit as it goes over two texts of the same size, the source and the masked
text: what is found is an offset, and every part that is read is cut out between offsets. Each cut,
each index and each counter is checked.
-/

namespace Companion.Java.OffsetScan

open Unicode (isBlank)
open Text

/-- The offset at which the brackets that are open are all closed. -/
def matching? (opening closing : Char) : Nat → List (Nat × Char) → Option Nat
  | _, [] => none
  | depth, (i, x) :: xs =>
    if x = opening then matching? opening closing (depth + 1) xs
    else if x = closing then
      match depth with
      | 0 => none
      | 1 => some i
      | depth + 2 => matching? opening closing (depth + 1) xs
    else matching? opening closing depth xs

def matchingForward? (s : List Char) (i : Nat) (opening closing : Char) : Option Nat :=
  matching? opening closing 0 ((charIndices s).dropWhile (·.1 < i))

def matchingBackward? (s : List Char) (i : Nat) (opening closing : Char) :
    Except Panic (Option Nat) :=
  if i < byteCount s then
    .ok (matching? closing opening 0 ((charIndices s).takeWhile (·.1 ≤ i)).reverse)
  else .error (.index i)

/-- The pieces of a text between outer commas, from the characters `rest` on; the first piece starts
at the offset `start`. -/
def piecesFrom (text : List Char) (depth : Int) (start : Nat) :
    List (Nat × Char) → Except Panic (List (List Char))
  | [] => do
    let last ← sliceFrom text start
    .ok [trim last]
  | (i, c) :: rest =>
    if c = '<' ∨ c = '(' then do
      let deeper ← counted (depth + 1)
      piecesFrom text deeper start rest
    else if c = '>' ∨ c = ')' then do
      let higher ← counted (depth - 1)
      piecesFrom text higher start rest
    else if c = ',' ∧ depth = 0 then do
      let piece ← slice text start i
      let pieces ← piecesFrom text depth (i + 1) rest
      .ok (trim piece :: pieces)
    else piecesFrom text depth start rest

/-- The trimmed pieces between outer commas, without empty ones. -/
def splitTopLevel (text : List Char) : Except Panic (List (List Char)) := do
  let pieces ← piecesFrom text 0 0 (charIndices text)
  .ok (pieces.filter (!·.isEmpty))

def typeParameterNames (text : List Char) : Except Panic (List String) := do
  let pieces ← splitTopLevel text
  .ok (pieces.filterMap fun p => (words p).head?.map String.ofList)

/-- The type at the start of a text, where `rest` is what is not read yet. -/
def readTypeFrom (text : List Char) (depth : Int) :
    List (Nat × Char) → Except Panic (List Char)
  | [] => .ok (trimEnd text)
  | (i, c) :: rest =>
    if c = '<' then do
      let deeper ← counted (depth + 1)
      readTypeFrom text deeper rest
    else if c = '>' then do
      let higher ← counted (depth - 1)
      readTypeFrom text higher rest
    else if depth > 0 ∨ isIdentChar c ∨ c = '.' then readTypeFrom text depth rest
    else if isBlank c then do
      let ahead ← sliceFrom text i
      if startsWith '<' (trimStart ahead) then readTypeFrom text depth rest
      else do
        let type ← sliceTo text i
        .ok (trimEnd type)
    else do
      let type ← sliceTo text i
      .ok (trimEnd type)

def readType (text : List Char) : Except Panic (List Char) :=
  readTypeFrom (trimStart text) 0 (charIndices (trimStart text))

def superclass? (typeParameters : List String) (header : List Char) :
    Except Panic (Option TypeRef) := do
  match findExtends? header with
  | none => .ok none
  | some rest => do
    let clause ← sliceFrom header (byteCount header - byteCount rest)
    let type ← readType clause
    let text := normalizeType type
    if text.isEmpty then .ok none
    else
      .ok (some ⟨String.ofList text,
        !typeParameters.contains (String.ofList (TypeRef.erase text))⟩)

def startsWithEnd (s : List Char) : Bool :=
  startsWith ';' s || startsWith '\x7b' s || startsWith '\x7d' s

/-- The documentation comment before the keyword at the offset. -/
def docComment? (source masked : List Char) (keyword : Nat) :
    Except Panic (Option (List Char)) := do
  let before ← sliceTo masked keyword
  let start := ((lastAt? startsWithEnd before).map (· + 1)).getD 0
  let region ← slice source start keyword
  match lastAt? "/**".toList.isPrefixOf region with
  | none => .ok none
  | some opening => do
    let comment ← sliceFrom region opening
    match firstAt? "*/".toList.isPrefixOf comment with
    | none => .ok none
    | some length => do
      let doc ← slice region opening (length + opening + 2)
      .ok (some doc)

def lastWord? (s : List Char) : Except Panic (Option (List Char)) :=
  match ((charIndices s).reverse.takeWhile fun x => isIdentChar x.2).getLast? with
  | none => .ok none
  | some (start, _) => (sliceFrom s start).map some

/-- An at sign stands before the word that a text ends with. -/
def hasAtSign (s word : List Char) : Except Panic Bool := do
  let stop ← backBy (byteCount s) (byteCount word)
  let front ← sliceTo s stop
  .ok (front.getLast? == some '@')

/-- The word that a text ends with is an access modifier or an annotation. -/
def endsInModifier (s word : List Char) : Except Panic Bool :=
  if accessModifiers.contains word then .ok true else hasAtSign s word

/-- The type parameters of the constructor whose name follows a text. None if the text does not end
like the front of a constructor. -/
def constructorTypeParameters? (before : List Char) : Except Panic (Option (List String)) := do
  let front := trimEnd before
  match front.getLast? with
  | none => .ok (some [])
  | some c =>
    if c = ';' ∨ c = '\x7b' ∨ c = '\x7d' ∨ c = ')' then .ok (some [])
    else if c = '>' then do
      let close ← backBy (byteCount front) 1
      match ← matchingBackward? front close '<' '>' with
      | none => .ok none
      | some opening => do
        let head ← sliceTo front opening
        let fits ← match ← lastWord? (trimEnd head) with
          | none => .ok true
          | some word => endsInModifier (trimEnd head) word
        if fits then do
          let inside ← slice front (opening + 1) close
          (typeParameterNames inside).map some
        else .ok none
    else do
      match ← lastWord? front with
      | none => .ok none
      | some word => do
        let fits ← endsInModifier front word
        .ok (if fits then some [] else none)

def braceDepths (depth : Nat) : List Char → Except Panic (List Nat)
  | [] => .ok []
  | c :: cs => do
    let next ← countedNat (braceDepth depth c)
    let rest ← braceDepths next cs
    .ok (List.replicate c.utf8Size depth ++ rest)

def parameters (scope : List String) (text : List Char) : Except Panic (List Parameter) := do
  let pieces ← splitTopLevel text
  .ok (pieces.filterMap (parameter? scope))

/-- The constructor whose name and opening bracket stand between two offsets of a class body. -/
def constructorAt? (name : String) (classParameters : List String) (body : List Char)
    (depths : List Nat) (start stop : Nat) : Except Panic (Option Constructor) := do
  let depth ← entryAt depths start
  if depth ≠ 0 then .ok none
  else do
    let before ← sliceTo body start
    match ← constructorTypeParameters? before with
    | none => .ok none
    | some own => do
      let opening ← backBy stop 1
      match matchingForward? body opening '(' ')' with
      | none => .ok none
      | some close => do
        let after ← sliceFrom body (close + 1)
        if startsBody after then do
          let inside ← slice body (opening + 1) close
          let params ← parameters (classParameters ++ own) inside
          .ok (some ⟨name, params⟩)
        else .ok none

def constructorsAt (name : String) (classParameters : List String) (body : List Char)
    (depths : List Nat) : List NameCall → Except Panic (List Constructor)
  | [] => .ok []
  | call :: calls => do
    let c ← constructorAt? name classParameters body depths (byteCount call.before)
      (byteCount body - byteCount call.after)
    let cs ← constructorsAt name classParameters body depths calls
    .ok (c.toList ++ cs)

def constructors (name : String) (classParameters : List String) (body : List Char) :
    Except Panic (List Constructor) := do
  let depths ← braceDepths 0 body
  constructorsAt name classParameters body depths (nameCalls name.toList [] 0 body)

/-- The header of the class whose name ends at one offset and whose body opens at another. None if
the type parameter list has no end. -/
def header? (masked : List Char) (nameEnd bodyOpen : Nat) : Except Panic (Option Header) := do
  let header ← slice masked nameEnd bodyOpen
  if startsWith '<' (trimStart header) then do
    let after ← sliceFrom masked nameEnd
    match firstAt? (startsWith '<') after with
    | none => .ok none
    | some i =>
      match matchingForward? masked (nameEnd + i) '<' '>' with
      | none => .ok none
      | some close => do
        let inside ← slice masked (nameEnd + i + 1) close
        let names ← typeParameterNames inside
        let clauses ← slice masked (close + 1) bodyOpen
        .ok (some ⟨names, clauses⟩)
  else .ok (some ⟨[], header⟩)

/-- The declaration of the class whose keyword, opening brace and closing brace stand at offsets. -/
def declarationAt (package : String) (path : Option String) (source masked : List Char)
    (name : String) (keyword bodyOpen bodyClose : Nat) (header : Header) :
    Except Panic Declaration := do
  let superclass ← superclass? header.typeParameters header.clauses
  let doc ← docComment? source masked keyword
  let body ← slice masked (bodyOpen + 1) bodyClose
  let constructors ← constructors name header.typeParameters body
  .ok
    { package := package
      name := name
      superclass := superclass
      typeParameters := header.typeParameters
      tags := (doc.map docTags).getD []
      constructors := constructors
      source := path }

/-- The class whose keyword starts at one offset and whose name ends at another. None if it has no
body. -/
def class? (package : String) (path : Option String) (source masked : List Char) (name : String)
    (keyword nameEnd : Nat) : Except Panic (Option Declaration) := do
  let after ← sliceFrom masked nameEnd
  match firstAt? (startsWith '\x7b') after with
  | none => .ok none
  | some i =>
    match matchingForward? masked (nameEnd + i) '\x7b' '\x7d' with
    | none => .ok none
    | some bodyClose => do
      match ← header? masked nameEnd (nameEnd + i) with
      | none => .ok none
      | some header =>
        (declarationAt package path source masked name keyword (nameEnd + i) bodyClose header).map
          some

def isLiteral (masked : List Char) (keyword : Nat) : Except Panic Bool := do
  let before ← sliceTo masked keyword
  .ok ((trimEnd before).getLast? == some '.')

/-- The classes among the class names of a text. -/
def classesAt (package : String) (path : Option String) (source masked : List Char) :
    List ClassName → Except Panic (List Declaration)
  | [] => .ok []
  | n :: ns => do
    let keyword := byteCount (n.before.map Glyph.code)
    let nameEnd := byteCount masked - byteCount (n.after.map Glyph.code)
    let literal ← isLiteral masked keyword
    let d ← if literal then .ok none
      else class? package path source masked (String.ofList n.name) keyword nameEnd
    let ds ← classesAt package path source masked ns
    .ok (d.toList ++ ds)

def namesIn (masked : List Char) : List ClassName :=
  classNamesFrom [] (masked.map .keep)

def scan (path : Option String) (text : String) : Except Panic (List Declaration) :=
  let source := text.toList
  let masked := maskedText (mask source)
  let package := String.ofList ((findPackage? masked).getD [])
  classesAt package path source masked (namesIn masked)

end Companion.Java.OffsetScan
