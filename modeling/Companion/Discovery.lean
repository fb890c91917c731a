import Companion.FileSystem.Glob
import Companion.Failure

/-!
# Discovering sources

Which files inputs stand for. An input is a directory, in which all Java sources count, a glob
pattern, which has to match a file, or the path of a file.
-/

namespace Companion

def sourceExtension : String := "java"

def looksLikeGlob (input : String) : Bool :=
  input.toList.any fun c => c == '*' || c == '?' || c == '[' || c == '\x7b'

def globFiles (fs : FileSystem) (pattern : String) : Except Failure (List String) :=
  match Glob.Pattern.ofText pattern with
  | .error fault => .error (.input pattern fault.message)
  | .ok p => .ok ((p.paths fs).filter fs.isFile)

def sourcesBelow (directory : String) : String :=
  String.ofList (Glob.escape directory.toList) ++ "/**/*." ++ sourceExtension

/-- The files that an input stands for. -/
def expandInput (fs : FileSystem) (input : String) : Except Failure (List String) :=
  if fs.isDirectory input then globFiles fs (sourcesBelow input)
  else if looksLikeGlob input then do
    let files ← globFiles fs input
    if files.isEmpty then .error (.input input "glob pattern matched no files") else .ok files
  else if fs.isFile input then .ok [input]
  else .error (.input input "no such file or directory")

/-- The paths without those that are the same path as the one before. -/
def dropRepeats : List String → List String
  | [] => []
  | [p] => [p]
  | p :: q :: rest =>
    if Path.same p q then dropRepeats (p :: rest) else p :: dropRepeats (q :: rest)
termination_by paths => paths.length

/-- The files that inputs stand for, each once, in the order of their paths. -/
def discover (fs : FileSystem) (inputs : List String) : Except Failure (List String) := do
  let found ← inputs.mapM (expandInput fs)
  .ok (dropRepeats (found.flatten.mergeSort fun a b => (Path.order a b).isLE))

end Companion
