import Companion.Template.Tag.Reader

/-!
# Layout of templates

A template is texts and tags in turn. Tags that write nothing by themselves take the line they
stand on away if nothing else stands there, and a tilde takes white space of any kind away.
-/

namespace Companion.Template

/-- A text, or a tag that may stand alone on its line. -/
inductive Piece where
  | text (s : List Char)
  | tag (t : Tag) (alone : Bool)
  deriving Repr

inductive Token where
  | text (s : List Char)
  | tag (kind : TagKind)
  deriving Repr

def isLineBlank (c : Char) : Bool :=
  c == ' ' || c == '\t'

def isLineEnd (c : Char) : Bool :=
  c == '\n' || c == '\r'

/-- Nothing but white space stands on the line after the text, if it is so before it. -/
def blankAfter (blank : Bool) (s : List Char) : Bool :=
  s.foldl (fun blank c => isLineEnd c || (blank && isLineBlank c)) blank

/-- The text up to the next tag, and what follows. Braces after a backslash belong to the text, and
of two or more backslashes before a tag the first is left out. -/
def readText : List Char → List Char × List Char
  | [] => ([], [])
  | '\x7b' :: '\x7b' :: s => ([], '\x7b' :: '\x7b' :: s)
  | '\\' :: '\x7b' :: '\x7b' :: '\x7b' :: '\x7b' :: s =>
    let (text, rest) := readText s
    ('\x7b' :: '\x7b' :: '\x7b' :: '\x7b' :: text, rest)
  | '\\' :: '\x7b' :: '\x7b' :: s =>
    let (text, rest) := readText s
    ('\x7b' :: '\x7b' :: text, rest)
  | '\\' :: '\\' :: s =>
    match (s.dropWhile (· == '\\')) with
    | '\x7b' :: '\x7b' :: rest => ('\\' :: s.takeWhile (· == '\\'), '\x7b' :: '\x7b' :: rest)
    | _ =>
      let (text, rest) := readText ('\\' :: s)
      ('\\' :: text, rest)
  | c :: s =>
    let (text, rest) := readText s
    (c :: text, rest)

/-- The tag stands alone on its line, if nothing else stands before it. Included templates need a
line after theirs. -/
def endsLine (kind : TagKind) (rest : List Char) : Bool :=
  match kind, rest.dropWhile isLineBlank with
  | .partial_ _ _ _, [] => false
  | .decorator, [] => false
  | _, [] => rest.isEmpty
  | _, c :: _ => isLineEnd c

/-- Reads at most `fuel` pieces. `blank` says that nothing but white space stands on the line
before. -/
def readPieces? : Nat → Bool → List Char → Option (List Piece)
  | 0, _, s => if s.isEmpty then some [] else none
  | fuel + 1, blank, s =>
    match s with
    | [] => some []
    | '\x7b' :: '\x7b' :: inside => do
      let (tag, rest) ← readTag? inside
      let pieces ← readPieces? fuel false rest
      some (.tag tag (blank && endsLine tag.kind rest) :: pieces)
    | s => do
      let (text, rest) := readText s
      let pieces ← readPieces? fuel (blankAfter blank (s.take (s.length - rest.length))) rest
      some (.text text :: pieces)

/-- The tag does nothing to the white space of its line. -/
def keepsLine : TagKind → Bool
  | .value _ => true
  | _ => false

/-- The text as the tag after it leaves it. -/
def trimBefore (s : List Char) : List Piece → List Char
  | .tag t alone :: _ =>
    let s := if t.trimBefore then Text.trimEnd s else s
    let keepsIndent := match t.kind with
      | .partial_ _ _ _ => true
      | kind => keepsLine kind
    if alone && !keepsIndent then (s.reverse.dropWhile isLineBlank).reverse else s
  | _ => s

/-- The text without the rest of its first line if that is white space. -/
def dropLineEnd (s : List Char) : List Char :=
  match s.dropWhile isLineBlank with
  | '\r' :: '\n' :: s => s
  | '\n' :: s => s
  | s => s

/-- The pieces without the white space that tags take away. `trimmed` says that the tag before has
a tilde at its end, and `ended` that the line is taken away. -/
def arrange (trimmed ended : Bool) : List Piece → List Token
  | [] => []
  | .text s :: rest =>
    if trimmed && s.all (fun c => isLineBlank c || isLineEnd c) then arrange trimmed ended rest
    else
      let kept := if trimmed then Text.trimStart s else if ended then dropLineEnd s else s
      .text (trimBefore kept rest) :: arrange trimmed false rest
  | .tag t alone :: rest =>
    let trimmed := match t.kind with
      | .comment => trimmed
      | _ => t.trimAfter
    .tag t.kind :: arrange trimmed (if keepsLine t.kind then ended else alone) rest

/-- The texts and tags of a template. -/
def readTokens? (s : List Char) : Option (List Token) :=
  (readPieces? (s.length + 1) true s).map (arrange false false)

end Companion.Template
