import Companion.CommandLine.Execution
import Companion.CommandLine.Usage

/-!
# The program

Executes the command line on a copy of the files that it can reach, and writes back what changed.
-/

namespace Companion

def absolutePath (place : Location) : String :=
  "/" ++ String.ofList (['/'].intercalate place)

def readEntry (path : String) : IO (Option Entry) :=
  try
    let bytes ← IO.FS.readBinFile path
    match String.fromUTF8? bytes with
    | some content => pure (some (.text content))
    | none => pure (some (.binary bytes.toList))
  catch _ => pure none

def readNames (path : String) : IO (Option (List String)) :=
  try
    let found ← ((← IO.currentDir) / path).readDir
    pure (some (found.toList.map (·.fileName)))
  catch _ => pure none

partial def readTree (place : Location) : IO (List (Location × Entry)) := do
  match ← readNames (absolutePath place) with
  | some names =>
    let below ← names.mapM fun name => readTree (place ++ [name.toList])
    pure ((place, .directory) :: below.flatten)
  | none =>
    match ← readEntry (absolutePath place) with
    | some entry => pure [(place, entry)]
    | none => pure []

def readAbove (place : Location) : IO (List (Location × Entry)) := do
  let above := (List.range place.length).map fun n => place.take n
  let found ← above.filterM fun p => do pure (← readNames (absolutePath p)).isSome
  pure (found.map fun p => (p, .directory))

def locationOf (home : Location) (path : String) : Location :=
  let names := (FileSystem.namesOf path).takeWhile fun name => !looksLikeGlob (String.ofList name)
  let start := if Path.isAbsolute path.toList then [] else home
  names.foldl (fun place name =>
    if name = ['.'] then place
    else if name = ['.', '.'] then place.dropLast
    else place ++ [name]) start

def CommandLine.Command.paths : CommandLine.Command → List String
  | .generate o => o.inputs.sources ++ o.inputs.models ++ o.out :: o.templates.toList
  | .model o => o.inputs.sources ++ o.inputs.models ++ o.out.toList

/-- The files that a command can reach: those below the home and those at the paths it names. -/
def readFiles (home : Location) (command : CommandLine.Command) : IO FileSystem := do
  let places := command.paths.map (locationOf home)
  let outside := places.filter fun place => !home.isPrefixOf place
  let trees ← (home :: outside).mapM readTree
  let above ← outside.mapM readAbove
  pure ⟨home, above.flatten ++ trees.flatten⟩

def writeFiles (before after : FileSystem) : IO Unit := do
  for (place, entry) in after.entries do
    if before.entries.lookup place != some entry then
      match entry with
      | .directory => IO.FS.createDirAll (absolutePath place)
      | .text content => IO.FS.writeFile (absolutePath place) content
      | .binary bytes => IO.FS.writeBinFile (absolutePath place) ⟨bytes.toArray⟩

def eventLine (e : Log.Event) : String :=
  " ".intercalate ((String.ofList (e.level.name.toList.map Char.toUpper) :: e.message ::
    e.fields.map fun (name, value) => name ++ "=" ++ value))

def runInvocation (i : CommandLine.Invocation) : IO UInt32 := do
  let home := (FileSystem.namesOf (← IO.currentDir).toString)
  let before ← readFiles home i.command
  let coloured ← (← IO.getStdout).isTty
  let finish (w : World) : IO Unit := do
    for e in Log.upTo i.level w.log do
      IO.eprintln (eventLine e)
    writeFiles before w.files
  match i.execute coloured ⟨before, []⟩ with
  | .ok output w =>
    finish w
    IO.eprint output.err
    IO.print output.out
    pure 0
  | .error failure w =>
    finish w
    IO.eprintln ("ERROR " ++ (failure.message?.getD (": ".intercalate failure.context)))
    pure 1

end Companion

def main (args : List String) : IO UInt32 := do
  match Companion.CommandLine.Invocation.ofArgs args with
  | .ok i => Companion.runInvocation i
  | .error fault =>
    if fault.exitCode = 0 then IO.println fault.message else IO.eprintln fault.message
    pure fault.exitCode.toUInt32
