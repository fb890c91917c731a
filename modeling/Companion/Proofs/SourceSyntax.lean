import Companion.Java.Scan
import Companion.Proofs.Brackets

/-!
# Compilation units as trees

The trees of the compilation units that the scanner is made for, the text that a tree is written as
(`CompilationUnit.print`) and the declarations that it makes (`CompilationUnit.declarations`).
-/

namespace Companion.Java.Syntax

open Text

/-- The reserved words. -/
def keywords : List (List Char) :=
  ["abstract", "assert", "boolean", "break", "byte", "case", "catch", "char", "class", "const",
    "continue", "default", "do", "double", "else", "enum", "extends", "final", "finally", "float",
    "for", "goto", "if", "implements", "import", "instanceof", "int", "interface", "long", "native",
    "new", "package", "private", "protected", "public", "return", "short", "static", "strictfp",
    "super", "switch", "synchronized", "this", "throw", "throws", "transient", "try", "void",
    "volatile", "while"].map String.toList

/-- What identifiers start with. -/
def isLetter (c : Char) : Bool :=
  c.isAlpha || c == '_'

/-- What identifiers go on with. -/
def isLetterOrDigit (c : Char) : Bool :=
  c.isAlphanum || c == '_'

/-- An identifier. -/
structure Ident where
  text : List Char
  start : text.head?.any isLetter
  chars : text.all isLetterOrDigit
  free : text ∉ keywords

/-- A dotted name. -/
structure DottedName where
  first : Ident
  rest : List Ident

namespace DottedName

def print (n : DottedName) : List Char :=
  n.first.text ++ n.rest.flatMap fun i => '.' :: i.text

end DottedName

inductive Primitive where
  | boolean | byte | short | int | long | char | float | double
  deriving DecidableEq, Repr

def Primitive.text : Primitive → List Char
  | .boolean => "boolean".toList
  | .byte => "byte".toList
  | .short => "short".toList
  | .int => "int".toList
  | .long => "long".toList
  | .char => "char".toList
  | .float => "float".toList
  | .double => "double".toList

mutual

/-- A class type: a name with type arguments, maybe of a member of another class type. -/
inductive ClassType where
  | simple (name : Ident) (args : TypeArgs)
  | member (outer : ClassType) (name : Ident) (args : TypeArgs)

/-- Type arguments. None are written without brackets. -/
inductive TypeArgs where
  | nil
  | cons (arg : TypeArg) (rest : TypeArgs)

inductive TypeArg where
  | type (t : JavaType)
  | any
  | upper (t : JavaType)
  | lower (t : JavaType)

inductive JavaType where
  | primitive (p : Primitive)
  | named (t : ClassType)
  | array (element : JavaType)

end

/-- A list as it is written. -/
def listed (pieces : List (List Char)) : List Char :=
  join [',', ' '] pieces

/-- A list in angle brackets, without the brackets if it is empty. -/
def angled (pieces : List (List Char)) : List Char :=
  if pieces = [] then [] else '<' :: (listed pieces ++ ['>'])

mutual

def ClassType.print : ClassType → List Char
  | .simple name args => name.text ++ angled args.prints
  | .member outer name args => outer.print ++ '.' :: (name.text ++ angled args.prints)

def TypeArgs.prints : TypeArgs → List (List Char)
  | .nil => []
  | .cons arg rest => arg.print :: rest.prints

def TypeArg.print : TypeArg → List Char
  | .type t => t.print
  | .any => ['?']
  | .upper t => "? extends ".toList ++ t.print
  | .lower t => "? super ".toList ++ t.print

def JavaType.print : JavaType → List Char
  | .primitive p => p.text
  | .named t => t.print
  | .array t => t.print ++ ['[', ']']

end

/-- The type is written without type arguments. -/
def ClassType.isRaw : ClassType → Bool
  | .simple _ args => args.prints.isEmpty
  | .member outer _ args => outer.isRaw && args.prints.isEmpty

/-- The dotted name that the type starts with, up to its first type arguments. -/
def ClassType.erasure : ClassType → List Char
  | .simple name _ => name.text
  | .member outer name _ =>
    if outer.isRaw then outer.erasure ++ '.' :: name.text else outer.erasure

def JavaType.erasure : JavaType → List Char
  | .primitive p => p.text
  | .named t => t.erasure
  | .array t => t.erasure

/-- A reference to a type of that text and erasure, where the type variables are in scope. -/
def typeRef (scope : List Ident) (text erasure : List Char) : TypeRef where
  text := String.ofList text
  resolved := decide (erasure ∉ scope.map Ident.text)

/-- A type parameter with its bounds. -/
structure TypeParam where
  name : Ident
  bounds : List ClassType

namespace TypeParam

def print (p : TypeParam) : List Char :=
  p.name.text ++
    if p.bounds = [] then [] else
      " extends ".toList ++ join " & ".toList (p.bounds.map ClassType.print)

end TypeParam

def printTypeParams (ps : List TypeParam) : List Char :=
  angled (ps.map TypeParam.print)

/-- A formal parameter. -/
structure Param where
  type : JavaType
  variadic : Bool
  name : Ident

namespace Param

def typeText (p : Param) : List Char :=
  p.type.print ++ if p.variadic then ['.', '.', '.'] else []

def print (p : Param) : List Char :=
  p.typeText ++ ' ' :: p.name.text

/-- What the parameter declares. -/
def parameter (scope : List Ident) (p : Param) : Parameter where
  name := String.ofList p.name.text
  type := typeRef scope p.typeText p.type.erasure

end Param

inductive Access where
  | «public» | «protected» | «private»
  deriving DecidableEq, Repr

def Access.text : Access → List Char
  | .«public» => "public".toList
  | .«protected» => "protected".toList
  | .«private» => "private".toList

inductive Modifier where
  | access (a : Access)
  | static | abstract | final | native | synchronized | transient | volatile | strictfp
  deriving DecidableEq, Repr

def Modifier.text : Modifier → List Char
  | .access a => a.text
  | .static => "static".toList
  | .abstract => "abstract".toList
  | .final => "final".toList
  | .native => "native".toList
  | .synchronized => "synchronized".toList
  | .transient => "transient".toList
  | .volatile => "volatile".toList
  | .strictfp => "strictfp".toList

def printModifiers (ms : List Modifier) : List Char :=
  ms.flatMap fun m => m.text ++ [' ']

/-- The text between the braces of a block: its literals and comments are complete, so that a brace
after it is a brace, its braces match, and it declares no class. -/
structure Block where
  text : List Char
  complete : mask (text ++ ['\x7d']) = mask text ++ [.keep '\x7d']
  balanced : Balanced '\x7b' '\x7d' 0 (maskedText (mask text))
  classless : classNames (mask text) = []

/-- The text goes on to the end of a string literal. -/
def isQuotable : List Char → Bool
  | [] => true
  | '\\' :: _ :: cs => isQuotable cs
  | c :: cs => c != '"' && c != '\\' && c != '\n' && isQuotable cs

/-- The inside of a string literal. -/
structure Quotable where
  text : List Char
  quotable : isQuotable text

/-- What follows the name of a constructor or a method. -/
structure Signature where
  params : List Param
  throws : List ClassType
  body : Block

namespace Signature

def printThrows (ts : List ClassType) : List Char :=
  if ts = [] then [] else "throws ".toList ++ (listed (ts.map ClassType.print) ++ [' '])

def head (s : Signature) : List Char :=
  '(' :: (listed (s.params.map Param.print) ++ ')' :: ' ' :: printThrows s.throws)

def print (s : Signature) : List Char :=
  s.head ++ '\x7b' :: (s.body.text ++ "\x7d\n".toList)

end Signature

structure ConstructorDecl where
  access : Option Access
  typeParams : List TypeParam
  signature : Signature

namespace ConstructorDecl

def front (c : ConstructorDecl) : List Char :=
  printModifiers (c.access.map Modifier.access).toList ++
    if c.typeParams = [] then [] else printTypeParams c.typeParams ++ [' ']

def print (name : Ident) (c : ConstructorDecl) : List Char :=
  c.front ++ (name.text ++ c.signature.print)

def constructor (name : Ident) (scope : List Ident) (c : ConstructorDecl) : Constructor where
  name := String.ofList name.text
  params := c.signature.params.map (Param.parameter (scope ++ c.typeParams.map TypeParam.name))

end ConstructorDecl

/-- A method. One without a result is void. -/
structure MethodDecl where
  modifiers : List Modifier
  typeParams : List TypeParam
  result : Option JavaType
  name : Ident
  signature : Signature

namespace MethodDecl

def front (m : MethodDecl) : List Char :=
  printModifiers m.modifiers ++
    if m.typeParams = [] then [] else printTypeParams m.typeParams ++ [' ']

def resultText (m : MethodDecl) : List Char :=
  m.result.elim "void".toList JavaType.print

def print (m : MethodDecl) : List Char :=
  m.front ++ (m.resultText ++ ' ' :: (m.name.text ++ m.signature.print))

end MethodDecl

/-- A field with a string literal. -/
structure FieldDecl where
  modifiers : List Modifier
  type : JavaType
  name : Ident
  value : Quotable

namespace FieldDecl

def front (f : FieldDecl) : List Char :=
  printModifiers f.modifiers ++ (f.type.print ++ ' ' :: (f.name.text ++ " = ".toList))

def print (f : FieldDecl) : List Char :=
  f.front ++ '"' :: (f.value.text ++ "\";\n".toList)

end FieldDecl

structure Javadoc where
  content : List Char
  start : content.head? ≠ some '/'
  unopened : ¬"/**".toList <:+: content
  unclosed : ¬"*/".toList <:+: content

namespace Javadoc

def print (d : Javadoc) : List Char :=
  "/**".toList ++ (d.content ++ "*/".toList)

/-- No other documentation comment opens where this one closes. -/
def EndsOnce (d : Javadoc) : Prop :=
  ¬"/*".toList <:+ d.content

end Javadoc

/-- A class up to its body. -/
structure ClassHead where
  javadoc : Option Javadoc
  name : Ident
  typeParams : List TypeParam
  superclass : Option ClassType
  interfaces : List DottedName

namespace ClassHead

def scope (h : ClassHead) : List Ident :=
  h.typeParams.map TypeParam.name

/-- What stands between the superclass and the body. -/
def interfaceClause (h : ClassHead) : List Char :=
  (if h.interfaces = [] then [] else
    " implements ".toList ++ listed (h.interfaces.map DottedName.print)) ++ [' ']

def clauses (h : ClassHead) : List Char :=
  (h.superclass.elim [] fun s => " extends ".toList ++ s.print) ++ h.interfaceClause

def front (h : ClassHead) : List Char :=
  (h.javadoc.elim [] fun d => d.print ++ ['\n']) ++ "public ".toList

def print (h : ClassHead) : List Char :=
  h.front ++ ("class ".toList ++ (h.name.text ++ (printTypeParams h.typeParams ++ h.clauses)))

def tags (h : ClassHead) : List Tag :=
  h.javadoc.elim [] fun d => docTags d.print

end ClassHead

/-- The members of a class, in order. -/
inductive ClassBody where
  | nil
  | constructor (c : ConstructorDecl) (rest : ClassBody)
  | method (m : MethodDecl) (rest : ClassBody)
  | field (f : FieldDecl) (rest : ClassBody)
  | nested (head : ClassHead) (body : ClassBody) (rest : ClassBody)

namespace ClassBody

def print (name : Ident) : ClassBody → List Char
  | nil => []
  | constructor c rest => c.print name ++ rest.print name
  | method m rest => m.print ++ rest.print name
  | field f rest => f.print ++ rest.print name
  | nested head body rest =>
    head.print ++ ("\x7b\n".toList ++ (body.print head.name ++
      ("\x7d\n".toList ++ rest.print name)))

def constructors (name : Ident) (scope : List Ident) : ClassBody → List Constructor
  | nil => []
  | constructor c rest => c.constructor name scope :: rest.constructors name scope
  | method _ rest => rest.constructors name scope
  | field _ rest => rest.constructors name scope
  | nested _ _ rest => rest.constructors name scope

def blocks : ClassBody → List Block
  | nil => []
  | constructor c rest => c.signature.body :: rest.blocks
  | method m rest => m.signature.body :: rest.blocks
  | field _ rest => rest.blocks
  | nested _ body rest => body.blocks ++ rest.blocks

def javadocs : ClassBody → List Javadoc
  | nil => []
  | constructor _ rest => rest.javadocs
  | method _ rest => rest.javadocs
  | field _ rest => rest.javadocs
  | nested head body rest => head.javadoc.toList ++ (body.javadocs ++ rest.javadocs)

end ClassBody

def declarationOf (package : List Char) (source : Option String) (head : ClassHead)
    (body : ClassBody) : Declaration where
  package := String.ofList package
  name := String.ofList head.name.text
  superclass := head.superclass.map fun s => typeRef head.scope s.print s.erasure
  typeParameters := head.scope.map fun i => String.ofList i.text
  tags := head.tags
  constructors := body.constructors head.name head.scope
  source := source

def ClassBody.declarations (package : List Char) (source : Option String) :
    ClassBody → List Declaration
  | .nil => []
  | .constructor _ rest => rest.declarations package source
  | .method _ rest => rest.declarations package source
  | .field _ rest => rest.declarations package source
  | .nested head body rest =>
    declarationOf package source head body ::
      (body.declarations package source ++ rest.declarations package source)

/-- A class as it is written. -/
def printClass (head : ClassHead) (body : ClassBody) : List Char :=
  head.print ++ ("\x7b\n".toList ++ (body.print head.name ++ "\x7d\n".toList))

/-- A compilation unit: a package clause, if there is one, and classes. Without a package clause,
the blocks hold none either. -/
structure CompilationUnit where
  package : Option DottedName
  classes : List (ClassHead × ClassBody)
  unpacked : package = none →
    ∀ c ∈ classes, ∀ b ∈ c.2.blocks, findPackage? (maskedText (mask b.text)) = none

namespace CompilationUnit

def packageName (u : CompilationUnit) : List Char :=
  u.package.elim [] DottedName.print

def print (u : CompilationUnit) : List Char :=
  (u.package.elim [] fun p => "package ".toList ++ (p.print ++ ";\n".toList)) ++
    u.classes.flatMap fun c => printClass c.1 c.2

def javadocs (u : CompilationUnit) : List Javadoc :=
  u.classes.flatMap fun c => c.1.javadoc.toList ++ c.2.javadocs

/-- What the classes declare, each before those nested in it. -/
def declarations (source : Option String) (u : CompilationUnit) : List Declaration :=
  u.classes.flatMap fun c =>
    declarationOf u.packageName source c.1 c.2 :: c.2.declarations u.packageName source

end CompilationUnit

end Companion.Java.Syntax
