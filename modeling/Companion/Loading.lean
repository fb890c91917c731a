import Companion.Declaration.Json
import Companion.Discovery
import Companion.Java.Scan
import Companion.Model
import Companion.Run

/-!
# Loading models

The declarations of sources and of model files. A model file is one list of declarations, or has
a declaration on each line that is not blank. Declarations that name no source have the file as
theirs.
-/

namespace Companion

/-- The declaration with the path as its source, unless it has one. -/
def Declaration.withSource (path : String) (d : Declaration) : Declaration :=
  { d with source := d.source.or (some path) }

/-- The declarations of the lines of a text, the first of which has that number. -/
def readLines (line : Nat) : List (List Char) → Except String (List Declaration)
  | [] => .ok []
  | l :: rest =>
    if (Text.trim l).isEmpty then readLines (line + 1) rest
    else do
      let d ← Json.readLine? Declaration.read line (String.ofList l)
      .ok (d :: (← readLines (line + 1) rest))

def readModel (lines : Bool) (text : String) : Except String (List Declaration) :=
  if lines then readLines 1 (Text.lines text.toList) else Json.readText? Declaration.readAll text

def loadModel (lines : Bool) (path : String) : Run (List Declaration) := do
  let text ← Run.read path
  let ds ← Run.ofExcept ((readModel lines text).mapError (.model path))
  pure (ds.map (.withSource path))

def scanSource (path : String) : Run (List Declaration) := do
  let text ← Run.read path
  Run.report (Java.scanEvents (some path) text)
  Run.ofExcept ((Java.scan (some path) text).mapError fun h => .crossedHeader h.name)

def scanSources : List String → Run (List Declaration)
  | [] => pure []
  | path :: paths => do
    let ds ← scanSource path
    pure (ds ++ (← scanSources paths))

def loadModels (lines : Bool) : List String → Run (List Declaration)
  | [] => pure []
  | path :: paths => do
    let ds ← loadModel lines path
    pure (ds ++ (← loadModels lines paths))

structure Inputs where
  sources : List String
  models : List String
  lines : Bool
  deriving DecidableEq, Repr

/-- Builds a model: the declarations of the sources come before those of the model files. -/
def buildModel (inputs : Inputs) : Run Model := do
  let sources ← Run.ofExcept (discover (← get).files inputs.sources)
  Run.report [⟨.debug, "scanning java sources", [("files", toString sources.length)]⟩]
  let scanned ← scanSources sources
  let loaded ← loadModels inputs.lines inputs.models
  let model := Model.ofList (scanned ++ loaded)
  Run.report (Model.events (scanned ++ loaded))
  Run.report [⟨.info, "declaration model built",
    [("declarations", toString model.declarations.length)]⟩]
  pure model

end Companion
