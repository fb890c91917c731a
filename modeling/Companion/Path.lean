/-!
# File paths

Paths are texts. Two of them are the same path if they have the same components: slashes in a row
count once, and a dot counts only at the start. Paths are ordered by their components.
-/

namespace Companion.Path

inductive Component where
  | root
  /-- A dot, which only the first component can be. -/
  | here
  | up
  | name (s : List Char)
  deriving DecidableEq, Repr

def isAbsolute (path : List Char) : Bool :=
  path.head? == some '/'

/-- The component of a piece between slashes, if it counts; `first` says that nothing stands before
it. -/
def Component.ofPiece? (first : Bool) (piece : List Char) : Option Component :=
  if piece.isEmpty then none
  else if piece = ['.'] then (if first then some .here else none)
  else if piece = ['.', '.'] then some .up
  else some (.name piece)

/-- The pieces of a path that count, first those before the last slash. -/
def pieces (path : List Char) : List (Bool × List Char) :=
  match path.splitOn '/' with
  | [] => []
  | first :: rest => (true, first) :: rest.map fun p => (false, p)

def components (path : List Char) : List Component :=
  (if isAbsolute path then [.root] else []) ++
    (pieces path).filterMap fun (first, piece) => Component.ofPiece? first piece

/-- The rank of a component among different kinds, and the text that decides within its kind. -/
def Component.key : Component → Nat × List Char
  | root => (0, [])
  | here => (1, [])
  | up => (2, [])
  | name s => (3, s)

def compareText : List Char → List Char → Ordering
  | [], [] => .eq
  | [], _ :: _ => .lt
  | _ :: _, [] => .gt
  | a :: s, b :: t => (compare a.toNat b.toNat).then (compareText s t)

def Component.order (a b : Component) : Ordering :=
  (compare a.key.1 b.key.1).then (compareText a.key.2 b.key.2)

def orderComponents : List Component → List Component → Ordering
  | [], [] => .eq
  | [], _ :: _ => .lt
  | _ :: _, [] => .gt
  | a :: s, b :: t => (a.order b).then (orderComponents s t)

def order (a b : String) : Ordering :=
  orderComponents (components a.toList) (components b.toList)

def same (a b : String) : Bool :=
  components a.toList == components b.toList

/-- Goes on from a path. An absolute segment starts over. -/
def push (path segment : String) : String :=
  if isAbsolute segment.toList || path.isEmpty then segment
  else if path.toList.getLast? = some '/' then path ++ segment
  else path ++ "/" ++ segment

/-- The pieces, given last to first, without those at the end that do not count. -/
def dropUncounted : List (Bool × List Char) → List (Bool × List Char)
  | [] => []
  | (first, piece) :: rest =>
    if (Component.ofPiece? first piece).isNone then dropUncounted rest else (first, piece) :: rest

/-- The path without its last component, unless it has none or is the root. -/
def parent? (path : String) : Option String :=
  let text := path.toList
  match dropUncounted (pieces text).reverse with
  | [] => none
  | _ :: before =>
    let kept := (dropUncounted before).reverse.map (·.2)
    if kept.isEmpty then some (if isAbsolute text then "/" else "")
    else some (String.ofList (['/'].intercalate kept))

end Companion.Path
