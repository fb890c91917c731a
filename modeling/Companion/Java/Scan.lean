import Companion.Java.ConstructorHeader
import Companion.Java.DocTag
import Companion.Java.Masking
import Companion.Log

/-!
# Scanning a compilation unit

Finds the classes of a source: every `class` keyword with a name after it, unless a dot stands
before it. A class needs a body; its header, the text between its name and its body, may hold type
parameters and a superclass. A type parameter list that closes only inside the body is a fault of
the scan.
-/

namespace Companion.Java

open Unicode (isBlank isWordChar)
open Text

/-- A `class` keyword and the name after it: the glyphs before the keyword with the last one first,
the name, and the glyphs after the name. -/
structure ClassName where
  before : List Glyph
  name : List Char
  after : List Glyph

def isNameStart (c : Char) : Bool :=
  c.isAlpha || c == '_' || c == '$'

def isNameChar (c : Char) : Bool :=
  isWordChar c || c == '$'

def afterBlank? (text : List Char) : Option (List Char) :=
  if text.head?.any isBlank then some (trimStart text) else none

/-- The name after the keyword that a text starts with. -/
def nameAfterClass? (glyphs : List Glyph) : Option (List Char) :=
  if (glyphs.take "class".length).map Glyph.code = "class".toList then
    match afterBlank? ((glyphs.drop "class".length).map Glyph.code) with
    | some (c :: cs) => if isNameStart c then some (c :: cs.takeWhile isNameChar) else none
    | _ => none
  else none

/-- The glyphs after the keyword, the white space and the name that a text starts with. -/
def glyphsAfterName (glyphs : List Glyph) : List Glyph :=
  (((glyphs.drop "class".length).dropWhile fun g => isBlank g.code).drop 1).dropWhile
    fun g => isNameChar g.code

theorem length_glyphsAfterName_lt {glyphs : List Glyph} (h : glyphs ≠ []) :
    (glyphsAfterName glyphs).length < glyphs.length := by
  have h₁ := (List.dropWhile_suffix (l := glyphs.drop "class".length)
    fun g => isBlank g.code).length_le
  have h₂ := (List.dropWhile_suffix
    (l := ((glyphs.drop "class".length).dropWhile fun g => isBlank g.code).drop 1)
    fun g => isNameChar g.code).length_le
  have h₃ := List.length_pos_iff.2 h
  have h₄ : "class".length = 5 := rfl
  unfold glyphsAfterName
  simp only [List.length_drop] at *
  omega

/-- The class names of a source, in order, where `before` is what comes before it. -/
def classNamesFrom (before : List Glyph) (glyphs : List Glyph) : List ClassName :=
  match glyphs with
  | [] => []
  | g :: gs =>
    if isBoundary (before.head?.map Glyph.code) (some g.code) then
      match nameAfterClass? (g :: gs) with
      | some name =>
        let after := glyphsAfterName (g :: gs)
        let passed := (g :: gs).take ((g :: gs).length - after.length)
        ⟨before, name, after⟩ :: classNamesFrom (passed.reverse ++ before) after
      | none => classNamesFrom (g :: before) gs
    else classNamesFrom (g :: before) gs
termination_by glyphs.length
decreasing_by
  · exact length_glyphsAfterName_lt (List.cons_ne_nil _ _)
  · simp
  · simp

/-- The keyword is the end of a class literal. -/
def ClassName.isLiteral (n : ClassName) : Bool :=
  (n.before.dropWhile fun g => isBlank g.code).head?.any (·.code == '.')

def classNames (glyphs : List Glyph) : List ClassName :=
  (classNamesFrom [] glyphs).filter (!·.isLiteral)

def packageClause? (text : List Char) : Option (List Char) :=
  match (afterPiece? "package".toList text).bind afterBlank? with
  | none => none
  | some rest =>
    let isPart c := isWordChar c || c == '.'
    let name := rest.takeWhile isPart
    if !name.isEmpty && (trimStart (rest.dropWhile isPart)).head? == some ';' then some name
    else none

def extendsClause? (text : List Char) : Option (List Char) :=
  (afterPiece? "extends".toList text).bind afterBlank?

/-- What is read at the first word boundary where something is read, in a text that follows the
character `before`. -/
def readFirst? (read : List Char → Option (List Char)) (before : Option Char) :
    List Char → Option (List Char)
  | [] => none
  | c :: cs =>
    if isBoundary before (some c) then (read (c :: cs)).or (readFirst? read (some c) cs)
    else readFirst? read (some c) cs

def findPackage? (text : List Char) : Option (List Char) :=
  readFirst? packageClause? none text

def findExtends? (text : List Char) : Option (List Char) :=
  readFirst? extendsClause? none text

/-- The superclass named in a header, if its text is not empty. It is unresolved if its erasure is a
type parameter of the class. -/
def superclass? (typeParameters : List String) (header : List Char) : Option TypeRef :=
  match findExtends? header with
  | none => none
  | some rest =>
    let text := normalizeType (readType rest)
    if text.isEmpty then none
    else some ⟨String.ofList text, !typeParameters.contains (String.ofList (TypeRef.erase text))⟩

/-- The documentation comment that belongs to a declaration: the last one after the last semicolon
or brace before it. That boundary is looked for in the code, the comment in the source. -/
def docComment? (before : List Glyph) : Option (List Char) :=
  let inReach (g : Glyph) := !(g.code == ';' || g.code == '\x7b' || g.code == '\x7d')
  match fromLast? "/**".toList ((before.takeWhile inReach).reverse.map Glyph.raw) with
  | none => none
  | some text => (breakOn? "*/".toList text).map fun (comment, _) => comment ++ "*/".toList

structure ClassText where
  header : List Char
  body : List Char

/-- Splits the text after a class name at the first brace and at the brace that closes it. -/
def ClassText.ofAfter? (after : List Char) : Option ClassText :=
  match after.dropWhile (· != '\x7b') with
  | [] => none
  | _ :: rest =>
    (closing? '\x7b' '\x7d' rest).map fun (body, _) => ⟨after.takeWhile (· != '\x7b'), body⟩

/-- A class header in its parts: the names of its type parameters and the text after them. -/
structure Header where
  typeParameters : List String
  clauses : List Char

/-- What became of a class name. -/
inductive Finding where
  /-- A class. -/
  | declared (declaration : Declaration)
  | bodiless (name : String)
  /-- The type parameter list of the class closes inside its body. -/
  | crossed (name : String)
  deriving DecidableEq, Repr

def declarationOf (package : String) (source : Option String) (n : ClassName) (header : Header)
    (body : List Char) : Declaration where
  package := package
  name := String.ofList n.name
  superclass := superclass? header.typeParameters header.clauses
  typeParameters := header.typeParameters
  tags := ((docComment? n.before).map docTags).getD []
  constructors := constructors (String.ofList n.name) header.typeParameters body
  source := source

def ClassName.read (package : String) (source : Option String) (n : ClassName) : Finding :=
  let name := String.ofList n.name
  let after := maskedText n.after
  match ClassText.ofAfter? after with
  | none => .bodiless name
  | some ⟨header, body⟩ =>
    if (trimStart header).head? = some '<' then
      match closing? '<' '>' ((trimStart after).drop 1) with
      | none => .bodiless name
      | some (inside, rest) =>
        if '\x7b' ∈ inside then .crossed name
        else .declared (declarationOf package source n
          ⟨typeParameterNames inside, rest.takeWhile (· != '\x7b')⟩ body)
    else .declared (declarationOf package source n ⟨[], header⟩ body)

def findings (source : Option String) (text : List Char) : List Finding :=
  let glyphs := mask text
  let package := (findPackage? (maskedText glyphs)).getD []
  (classNames glyphs).map (ClassName.read (String.ofList package) source)

/-- The class whose type parameter list crosses into its body. -/
structure CrossedHeader where
  name : String
  deriving DecidableEq, Repr

/-- The declarations among findings, unless a header crosses into a body. -/
def declarations : List Finding → Except CrossedHeader (List Declaration)
  | [] => .ok []
  | .declared d :: rest => (declarations rest).map (d :: ·)
  | .bodiless _ :: rest => declarations rest
  | .crossed name :: _ => .error ⟨name⟩

def scan (source : Option String) (text : String) : Except CrossedHeader (List Declaration) :=
  declarations (findings source text.toList)

def sourceLabel (source : Option String) : String :=
  source.getD "<memory>"

/-- The events of a scan: one for each class without a body, and one for the whole, if the scan got
to its end. -/
def scanEvents (source : Option String) (text : String) : List Log.Event :=
  report 0 (findings source text.toList)
where
  /-- The events of the findings after `n` classes. -/
  report (n : Nat) : List Finding → List Log.Event
    | [] => [⟨.trace, "scanned", [("source", sourceLabel source), ("classes", toString n)]⟩]
    | .declared _ :: rest => report (n + 1) rest
    | .bodiless name :: rest =>
      ⟨.debug, "class header without a body; ignored",
        [("class", name), ("source", sourceLabel source)]⟩ :: report n rest
    | .crossed _ :: _ => []

end Companion.Java
