import Companion.Path
import Companion.Text.Basic

/-!
# File systems

A file system as a value: the entries below the root by their locations, and the directory that
relative paths start from. Reading leaves it as it is; making a directory and writing a file give
a new one or a fault. There are no links.
-/

namespace Companion

/-- What is at a location. A file that is no text has bytes. -/
inductive Entry where
  | directory
  | text (content : String)
  | binary (bytes : List UInt8)
  deriving DecidableEq, Repr

/-- A place in the tree of directories: the names on the way from the root. -/
abbrev Location := List (List Char)

/-- A file system. The home and the directories above it need no entries. -/
structure FileSystem where
  home : Location
  entries : List (Location × Entry)
  deriving DecidableEq, Repr

inductive FileFault where
  | notFound
  | exists
  | notDirectory
  | isDirectory
  | nameTooLong
  | nulInName
  | notText
  deriving DecidableEq, Repr

def FileFault.message : FileFault → String
  | notFound => "No such file or directory (os error 2)"
  | «exists» => "File exists (os error 17)"
  | notDirectory => "Not a directory (os error 20)"
  | isDirectory => "Is a directory (os error 21)"
  | nameTooLong => "File name too long (os error 36)"
  | nulInName => "file name contained an unexpected NUL byte"
  | notText => "stream did not contain valid UTF-8"

namespace FileSystem

def entryAt? (fs : FileSystem) (place : Location) : Option Entry :=
  if place.isPrefixOf fs.home then some .directory else fs.entries.lookup place

def isDirectoryAt (fs : FileSystem) (place : Location) : Bool :=
  fs.entryAt? place == some .directory

def maxNameBytes : Nat := 255

/-- Paths have fewer bytes than this. -/
def maxPathBytes : Nat := 4096

/-- The location that the names lead to from another, if everything on the way is there. -/
def walk (fs : FileSystem) (place : Location) : List (List Char) → Except FileFault Location
  | [] => .ok place
  | name :: names =>
    if !fs.isDirectoryAt place then .error .notDirectory
    else if name = ['.'] then fs.walk place names
    else if name = ['.', '.'] then fs.walk place.dropLast names
    else if maxNameBytes < Text.byteCount name then .error .nameTooLong
    else if (fs.entryAt? (place ++ [name])).isSome then fs.walk (place ++ [name]) names
    else .error .notFound

def namesOf (path : String) : List (List Char) :=
  (path.toList.splitOn '/').filter (!·.isEmpty)

def startOf (fs : FileSystem) (path : String) : Location :=
  if Path.isAbsolute path.toList then [] else fs.home

def checkedNames (path : String) : Except FileFault (List (List Char)) :=
  if path.toList.contains '\x00' then .error .nulInName
  else if path.isEmpty then .error .notFound
  else if maxPathBytes ≤ path.utf8ByteSize then .error .nameTooLong
  else .ok (namesOf path)

def endsInSlash (path : String) : Bool :=
  path.toList.getLast? == some '/'

def locate (fs : FileSystem) (path : String) : Except FileFault Location := do
  let place ← fs.walk (fs.startOf path) (← checkedNames path)
  if endsInSlash path && !fs.isDirectoryAt place then .error .notDirectory else .ok place

def isDirectory (fs : FileSystem) (path : String) : Bool :=
  match fs.locate path with
  | .ok place => fs.isDirectoryAt place
  | .error _ => false

def isFile (fs : FileSystem) (path : String) : Bool :=
  match fs.locate path with
  | .ok place => !fs.isDirectoryAt place
  | .error _ => false

def read (fs : FileSystem) (path : String) : Except FileFault String := do
  match fs.entryAt? (← fs.locate path) with
  | some (.text content) => .ok content
  | some (.binary _) => .error .notText
  | some .directory => .error .isDirectory
  | none => .error .notFound

def namesIn (fs : FileSystem) (place : Location) : List (List Char) :=
  let below := fs.entries.filterMap fun (l, _) =>
    if l.dropLast = place then l.getLast? else none
  match fs.home.drop place.length with
  | next :: _ => if place.isPrefixOf fs.home then next :: below.filter (· != next) else below
  | [] => below

def insert (place : Location) (e : Entry) : List (Location × Entry) → List (Location × Entry)
  | [] => [(place, e)]
  | (l, old) :: rest => if l = place then (l, e) :: rest else (l, old) :: insert place e rest

def set (fs : FileSystem) (place : Location) (e : Entry) : FileSystem :=
  { fs with entries := insert place e fs.entries }

/-- The directory and the name in it that a path leads to, whether or not there is such a name. The
last name is not looked at; `none` stands for a path without a name at its end. -/
def locateParent (fs : FileSystem) (path : String) :
    Except FileFault (Location × Option (List Char)) := do
  let names ← checkedNames path
  match names.getLast? with
  | none => .ok ([], none)
  | some name =>
    let parent ← fs.walk (fs.startOf path) names.dropLast
    if !fs.isDirectoryAt parent then .error .notDirectory
    else if name = ['.'] ∨ name = ['.', '.'] then .ok (parent, none)
    else if maxNameBytes < Text.byteCount name then .error .nameTooLong
    else .ok (parent, some name)

def makeDirectory (fs : FileSystem) (path : String) : Except FileFault FileSystem := do
  match ← fs.locateParent path with
  | (_, none) => .error .exists
  | (parent, some name) =>
    if (fs.entryAt? (parent ++ [name])).isSome then .error .exists
    else .ok (fs.set (parent ++ [name]) .directory)

/-- What a file system is after it was changed, and the fault that ended the change early. -/
abbrev Change := FileSystem × Option FileFault

/-- Makes the directory under a path and those above it, as far as they are missing. `fuel` bounds
the number of directories above. -/
def makeDirectoriesFrom : Nat → FileSystem → String → Change
  | 0, fs, _ => (fs, some .notFound)
  | fuel + 1, fs, path =>
    if path.isEmpty then (fs, none)
    else
      match fs.makeDirectory path with
      | .ok fs => (fs, none)
      | .error .notFound =>
        match Path.parent? path with
        | none => (fs, none)
        | some parent =>
          match makeDirectoriesFrom fuel fs parent with
          | (fs, some fault) => (fs, some fault)
          | (fs, none) => made fs path
      | .error fault => (fs, if fs.isDirectory path then none else some fault)
where
  /-- Makes the directory under a path if it is missing. -/
  made (fs : FileSystem) (path : String) : Change :=
    match fs.makeDirectory path with
    | .ok fs => (fs, none)
    | .error fault => (fs, if fs.isDirectory path then none else some fault)

/-- Makes the directory under a path and those above it, as far as they are missing. -/
def makeDirectories (fs : FileSystem) (path : String) : Change :=
  makeDirectoriesFrom (path.length + 1) fs path

def write (fs : FileSystem) (path content : String) : Except FileFault FileSystem := do
  match ← fs.locateParent path with
  | (_, none) => .error .isDirectory
  | (parent, some name) =>
    if endsInSlash path || fs.isDirectoryAt (parent ++ [name]) then .error .isDirectory
    else .ok (fs.set (parent ++ [name]) (.text content))

/-- The paths from the home and the entries of the files that are new or have another content than
before, in the order of the texts of the paths. -/
def changedFiles (before after : FileSystem) : List (String × Entry) :=
  let changed := after.entries.filterMap fun (place, e) =>
    if e = .directory ∨ before.entries.lookup place = some e then none
    else if after.home.isPrefixOf place then
      some (['/'].intercalate (place.drop after.home.length), e)
    else none
  (changed.mergeSort fun a b => (Path.compareText a.1 b.1).isLE).map fun (path, e) =>
    (String.ofList path, e)

end FileSystem

end Companion
