import Companion.Planning
import Companion.Templates

/-!
# Generation

A run goes through the declarations of a model in order. What concerns a single declaration is a
diagnostic, and the run goes on; it ends early only if a companion cannot be rendered or written.
-/

namespace Companion

structure GeneratedFile where
  path : String
  /-- The qualified name of the declaration. -/
  declaration : String
  variant : Variant
  deriving DecidableEq, Repr

structure Report where
  sourceRoot : String
  dryRun : Bool
  generated : List GeneratedFile
  diagnostics : List Diagnostic
  deriving DecidableEq, Repr

namespace Report

def start (s : Settings) : Report :=
  ⟨s.outputDir, s.dryRun, [], []⟩

def skipped (r : Report) : List Diagnostic :=
  r.diagnostics.filter (·.severity = .error)

def warnings (r : Report) : List Diagnostic :=
  r.diagnostics.filter (·.severity = .warning)

def note (r : Report) (ds : List Diagnostic) : Report :=
  { r with diagnostics := r.diagnostics ++ ds }

def add (r : Report) (file : GeneratedFile) : Report :=
  { r with generated := r.generated ++ [file] }

def previous? (r : Report) (path : String) : Option GeneratedFile :=
  r.generated.reverse.find? fun file => Path.same file.path path

/-- The diagnostic on a companion that takes the place of an earlier one. -/
def overwrite? (r : Report) (job : Job) (path : String) : Option Diagnostic :=
  (r.previous? path).map fun previous =>
    ⟨job.variant, job.declaration.qualifiedName, .overwrites path previous.declaration⟩

def event (r : Report) : Log.Event where
  level := .info
  message := "generation finished"
  fields := [
    ("generated", toString r.generated.length),
    ("skipped", toString r.skipped.length),
    ("warnings", toString r.warnings.length),
    ("dry_run", toString r.dryRun)]

end Report

def writeCompanion (path text : String) : Run Unit := do
  match Path.parent? path with
  | none => pure ()
  | some parent => Run.makeDirectories parent
  Run.write path text

def Job.event (job : Job) (s : Settings) (path text : String) : Log.Event where
  level := .debug
  message := job.className ++ "." ++ s.extension ++ " :\n" ++ text
  fields := [("path", path)]

def generateJob (render : Renderer) (s : Settings) (job : Job) (r : Report) : Run Report := do
  let text ← Run.ofExcept (render job.attributes)
  let path := job.path s
  let overwrite := (r.overwrite? job path).toList
  Run.report (overwrite.map Diagnostic.event)
  if s.dryRun then pure () else writeCompanion path text
  Run.report [job.event s path text]
  pure ((r.note overwrite).add ⟨path, job.declaration.qualifiedName, job.variant⟩)

def generateAll {model : Model} (render : Renderer) (s : Settings) :
    List Declaration → NameIndex model → Report → Run Report
  | [], _, r => pure r
  | d :: ds, index, r => do
    let (p, index) := plan s d index
    Run.report p.events
    let r := r.note p.diagnostics
    let r ← match p.job with
      | none => pure r
      | some job => generateJob render s job r
    generateAll render s ds index r

def generate (render : Renderer) (s : Settings) (model : Model) : Run Report := do
  let r ← generateAll render s model.declarations (NameIndex.empty : NameIndex model) (.start s)
  Run.report [r.event]
  pure r

end Companion
