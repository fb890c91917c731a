import Companion.Pattern.Node

/-!
# Searching for a pattern

`outcomes` lists how a pattern can match from a place on, the preferred way first: the first branch
of an alternative before the second, and more copies before fewer if the repetition is greedy. Of
the ways that end at one place only the preferred is kept, because what follows cannot tell them
apart. `search` takes the first way from the first place that has one.
-/

namespace Companion.Pattern

/-- A place in a text, and what the groups have matched on the way to it, the latest first. -/
structure Place where
  index : Nat
  before : Option Char
  after : List Char
  captures : List (Nat × List Char)
  deriving DecidableEq, Repr

namespace Place

def start (text : List Char) : Place := ⟨0, none, text, []⟩

def capture? (p : Place) (number : Nat) : Option (List Char) :=
  p.captures.lookup number

/-- The place `q` with the text between `p` and `q` as a match of the group. -/
def captured (p : Place) (number : Nat) (q : Place) : Place :=
  { q with captures := (number, p.after.take (q.index - p.index)) :: q.captures }

end Place

/-- The places without those that lie where an earlier one lies. `seen` are indices to leave out. -/
def distinctFrom (seen : List Nat) : List Place → List Place
  | [] => []
  | p :: ps =>
    if seen.contains p.index then distinctFrom seen ps
    else p :: distinctFrom (p.index :: seen) ps

def distinct (ps : List Place) : List Place :=
  distinctFrom [] ps

/-- The places after the copies of a body, of which there is at least one, with the indices that the
search has come to. A copy that matches the empty text is the last. -/
def copiesFrom (body : Place → List Place) (greedy : Bool) :
    Nat → Place → List Nat → List Place × List Nat
  | 0, _, seen => ([], seen)
  | fuel + 1, p, seen =>
    (body p).foldl (fun (found, seen) q =>
      if seen.contains q.index then (found, seen)
      else if q.index = p.index then (found ++ [q], q.index :: seen)
      else
        let (more, seen) := copiesFrom body greedy fuel q (q.index :: seen)
        (found ++ if greedy then more ++ [q] else q :: more, seen)) ([], seen)

def copies (body : Place → List Place) (greedy : Bool) (p : Place) : List Place :=
  (copiesFrom body greedy (p.after.length + 1) p []).1

/-- The places after at most that many copies of a body, with the numbers of copies left and the
indices that the search has come to. -/
def copiesUpToFrom (body : Place → List Place) (greedy : Bool) :
    Nat → Place → List (Nat × Nat) → List Place × List (Nat × Nat)
  | 0, p, seen => ([p], seen)
  | left + 1, p, seen =>
    if seen.contains (left, p.index) then ([], seen)
    else
      let (more, seen) := (body p).foldl (fun (found, seen) q =>
        let (places, seen) := copiesUpToFrom body greedy left q seen
        (found ++ places, seen)) ([], (left, p.index) :: seen)
      (if greedy then more ++ [p] else p :: more, seen)

def copiesUpTo (body : Place → List Place) (greedy : Bool) (most : Nat) (p : Place) : List Place :=
  distinct (copiesUpToFrom body greedy most p []).1

def copiesExactly (body : Place → List Place) : Nat → List Place → List Place
  | _, [] => []
  | 0, ps => ps
  | n + 1, p :: ps => copiesExactly body n (distinct ((p :: ps).flatMap body))

def step (set : CharSet) (p : Place) : List Place :=
  match p.after with
  | [] => []
  | c :: cs => if set.contains c then [⟨p.index + 1, some c, cs, p.captures⟩] else []

/-- The places after a match of a pattern, the preferred first. -/
def outcomes : Node → Place → List Place
  | .empty, p => [p]
  | .one set, p => step set p
  | .look condition, p => if condition.holds p.before p.after.head? then [p] else []
  | .concat a b, p => distinct ((outcomes a p).flatMap (outcomes b))
  | .either a b, p => distinct (outcomes a p ++ outcomes b p)
  | .group number x, p => (outcomes x p).map (p.captured number)
  | .several 0 none greedy x, p =>
    if greedy then distinct (copies (outcomes x) greedy p ++ [p])
    else distinct (p :: copies (outcomes x) greedy p)
  | .several (least + 1) none greedy x, p =>
    distinct ((copiesExactly (outcomes x) least [p]).flatMap (copies (outcomes x) greedy))
  | .several least (some most) greedy x, p =>
    distinct ((copiesExactly (outcomes x) least [p]).flatMap
      (copiesUpTo (outcomes x) greedy (most - least)))

/-- The preferred match from the place or from a later one. -/
def searchFrom (pattern : Node) (index : Nat) (before : Option Char) :
    List Char → Option Place
  | [] => (outcomes pattern ⟨index, before, [], []⟩).head?
  | c :: cs =>
    match outcomes pattern ⟨index, before, c :: cs, []⟩ with
    | found :: _ => some found
    | [] => searchFrom pattern (index + 1) (some c) cs

def search (pattern : Node) (text : List Char) : Option Place :=
  searchFrom pattern 0 none text

end Companion.Pattern
