import Companion.FileSystem.Basic

/-!
# Glob patterns

`*` stands for any text, `?` for any character, `[ab-c]` for one of some characters and `[!ab-c]`
for one of the others; `**`, which has to be a whole name, stands for any directories. Each name of
a pattern is matched with the names in a directory. A name of a pattern that is plain text is looked
up as it is, and dots lead to the directory itself and to the one above.
-/

namespace Companion.Glob

inductive Specifier where
  | single (c : Char)
  | range (first last : Char)
  deriving DecidableEq, Repr

def Specifier.names (c : Char) : Specifier → Bool
  | single d => c == d
  | range first last => first ≤ c && c ≤ last

inductive Token where
  | char (c : Char)
  | anyChar
  | anyText
  | directories
  | within (specifiers : List Specifier)
  | except (specifiers : List Specifier)
  deriving DecidableEq, Repr

inductive Problem where
  | wildcards
  | recursiveWildcards
  | badRange
  deriving DecidableEq, Repr

structure Fault where
  position : Nat
  problem : Problem
  deriving DecidableEq, Repr

def Fault.message (f : Fault) : String :=
  "Pattern syntax error near position " ++ toString f.position ++ ": " ++
    match f.problem with
    | .wildcards => "wildcards are either regular `*` or recursive `**`"
    | .recursiveWildcards => "recursive wildcards must form a single path component"
    | .badRange => "invalid range pattern"

def specifiers : List Char → List Specifier
  | a :: '-' :: b :: rest => .range a b :: specifiers rest
  | a :: rest => .single a :: specifiers rest
  | [] => []

/-- The class at the start of a text, after its opening bracket, and the text after it. The first
character of a class never closes it. -/
def readClass? : List Char → Option (Token × List Char)
  | '!' :: c :: rest => close? Token.except c rest
  | '!' :: [] => none
  | c :: rest => close? Token.within c rest
  | [] => none
where
  /-- Reads the class that starts with `c` up to its closing bracket. -/
  close? (make : List Specifier → Token) (c : Char) (rest : List Char) :
      Option (Token × List Char) :=
    match rest.dropWhile (· != ']') with
    | [] => none
    | _ :: after => some (make (specifiers (c :: rest.takeWhile (· != ']'))), after)

theorem length_lt_of_close? {make : List Specifier → Token} {c : Char} {s r : List Char} {t : Token}
    (h : readClass?.close? make c s = some (t, r)) : r.length < s.length := by
  unfold readClass?.close? at h
  split at h
  · simp at h
  · rename_i x after heq
    simp only [Option.some.injEq, Prod.mk.injEq] at h
    obtain ⟨-, rfl⟩ := h
    have := (List.dropWhile_suffix (l := s) (· != ']')).length_le
    rw [heq] at this
    simp only [List.length_cons] at this
    omega

theorem length_lt_of_readClass? {s r : List Char} {t : Token} (h : readClass? s = some (t, r)) :
    r.length < s.length := by
  unfold readClass? at h
  split at h
  · have := length_lt_of_close? h
    simp only [List.length_cons]
    omega
  · simp at h
  · have := length_lt_of_close? h
    simp only [List.length_cons]
    omega
  · simp at h

/-- Reads the tokens of a pattern, where `before` is the character before the text and `position`
the number of those before it. -/
def readTokens (position : Nat) (before : Option Char) (s : List Char) :
    Except Fault (List Token) :=
  match hs : s with
  | [] => .ok []
  | '?' :: rest => do .ok (.anyChar :: (← readTokens (position + 1) (some '?') rest))
  | '*' :: rest =>
    let stars := rest.takeWhile (· == '*')
    if stars.isEmpty then do
      .ok (.anyText :: (← readTokens (position + 1) (some '*') rest))
    else if 2 ≤ stars.length then .error ⟨position + 2, .wildcards⟩
    else if before.isSome && before != some '/' then .error ⟨position - 1, .recursiveWildcards⟩
    else
      match ha : rest.dropWhile (· == '*') with
      | [] => .ok [.directories]
      | c :: more =>
        if c = '/' then do .ok (.directories :: (← readTokens (position + 3) (some '/') more))
        else .error ⟨position + 2, .recursiveWildcards⟩
  | '[' :: rest =>
    match hc : readClass? rest with
    | none => .error ⟨position, .badRange⟩
    | some (token, after) => do
      .ok (token :: (← readTokens (position + 1 + (rest.length - after.length)) (some ']') after))
  | c :: rest => do .ok (.char c :: (← readTokens (position + 1) (some c) rest))
termination_by s.length
decreasing_by
  · simp
  · simp
  · have h := (List.dropWhile_suffix (l := rest) (· == '*')).length_le
    rw [ha] at h
    simp only [List.length_cons] at h ⊢
    omega
  · have := length_lt_of_readClass? hc
    simp
    omega
  · simp

def tokens (pattern : List Char) : Except Fault (List Token) :=
  readTokens 0 none pattern

def isMatch : List Token → List Char → Bool
  | [], name => name.isEmpty
  | t :: ts, name =>
    match t with
    | .anyText => anyRest ts name
    | .directories => anyRest ts name
    | _ =>
      match name with
      | [] => false
      | c :: cs => matchesOne t c && isMatch ts cs
where
  anyRest (ts : List Token) : List Char → Bool
    | [] => isMatch ts []
    | c :: cs => isMatch ts (c :: cs) || anyRest ts cs
  /-- The token matches the character. -/
  matchesOne (t : Token) (c : Char) : Bool :=
    match t with
    | .char d => c == d
    | .within specifiers => specifiers.any (·.names c)
    | .except specifiers => !specifiers.any (·.names c)
    | _ => true

/-- The text that the tokens spell out, if they hold nothing else. -/
def plainText? : List Token → Option (List Char)
  | [] => some []
  | .char c :: ts => (plainText? ts).map (c :: ·)
  | _ :: _ => none

/-- A glob pattern: the names in it, whether it starts at the root, and whether it asks for
directories. -/
structure Pattern where
  absolute : Bool
  names : List (List Token)
  directoriesOnly : Bool
  deriving DecidableEq, Repr

/-- The pieces between slashes. An empty piece after the last slash does not count. -/
def piecesOf (s : List Char) : List (List Char) :=
  let pieces := s.splitOn '/'
  if pieces.getLast? = some [] then pieces.dropLast else pieces

def Pattern.ofText (text : String) : Except Fault Pattern := do
  let s := text.toList
  let _ ← tokens s
  let absolute := Path.isAbsolute s
  let rest := if absolute then s.drop 1 else s
  let names ← (piecesOf rest).mapM tokens
  .ok ⟨absolute, if rest.isEmpty then names ++ [[]] else names, s.getLast? == some '/'⟩

/-- The path of a name in a directory. Names in the directory that a search starts from stand
alone. -/
def child (path : String) (name : List Char) : String :=
  if Path.same path "." then String.ofList name else Path.push path (String.ofList name)

def isThere (fs : FileSystem) (path : String) : Bool :=
  match fs.locate path with
  | .ok _ => true
  | .error _ => false

def namesUnder (fs : FileSystem) (path : String) : List (List Char) :=
  match fs.locate path with
  | .ok place => (fs.namesIn place).mergeSort fun a b => (Path.compareText a b).isLE
  | .error _ => []

/-- The dots that a pattern of a name matches. They have to be asked for by a dot at its start. -/
def matchedDots (tokens : List Token) : List String :=
  if tokens.head? = some (.char '.') then
    ["..", "."].filter fun dots => isMatch tokens dots.toList
  else []

/-- The names of a pattern from the first on that does not stand for directories. -/
def dropDirectories (names : List (List Token)) : List (List Token) :=
  names.dropWhile (· == [.directories])

/-- The paths below `path` that match the names of a pattern. `fuel` bounds the number of names on
the way. -/
def below (fs : FileSystem) (directoriesOnly : Bool) :
    Nat → List (List Token) → String → List String
  | 0, _, _ => []
  | _, [], _ => []
  | fuel + 1, tokens :: names, path =>
    let fits (p : String) : Bool := !directoriesOnly || fs.isDirectory p
    let goOn (p : String) : List String :=
      if names.isEmpty then (if fits p then [p] else []) else below fs directoriesOnly fuel names p
    match plainText? tokens with
    | some text =>
      let next := child path text
      let dots := text = ['.'] ∨ text = ['.', '.']
      if (if dots then fs.isDirectory path else isThere fs next) then goOn next else []
    | none =>
      if !fs.isDirectory path then []
      else
        let visit (name : List Char) : List String :=
          let p := child path name
          let here (tokens : List Token) (names : List (List Token)) : List String :=
            if !isMatch tokens name then []
            else if names.isEmpty then (if fits p then [p] else [])
            else below fs directoriesOnly fuel names p
          if tokens = [.directories] then
            let deeper := if fs.isDirectory p then
                below fs directoriesOnly fuel ([.directories] :: dropDirectories names) p
              else []
            match dropDirectories names with
            | [] => if fs.isDirectory p then p :: deeper else []
            | tokens :: names => here tokens names ++ deeper
          else here tokens names
        (matchedDots tokens).flatMap (fun dots => goOn (Path.push path dots)) ++
          (namesUnder fs path).flatMap visit

def Pattern.paths (p : Pattern) (fs : FileSystem) : List String :=
  let fuel := (p.names.length + 1) * (fs.entries.length + fs.home.length + 2)
  below fs p.directoriesOnly fuel p.names (if p.absolute then "/" else ".")

/-- The text that as a pattern matches just the name or path. -/
def escape (s : List Char) : List Char :=
  s.flatMap fun c => if c = '?' ∨ c = '*' ∨ c = '[' ∨ c = ']' then ['[', c, ']'] else [c]

end Companion.Glob
