import Companion.CommandLine.Shown
import Companion.Generation

/-!
# Executing commands

What a command writes to the standard output and to the standard error, and how it fails.
-/

namespace Companion.CommandLine

inductive CommandFailure where
  | noInput
  | setup (failure : Failure)
  | templates (failure : Failure)
  | model (failure : Failure)
  | generation (failure : Failure)
  /-- The directory for the model cannot be made. -/
  | create (path : String) (fault : FileFault)
  /-- The model cannot be written. -/
  | write (path : String) (fault : FileFault)
  deriving DecidableEq, Repr

namespace CommandFailure

def failure? : CommandFailure → Option Failure
  | noInput => none
  | create _ _ => none
  | write _ _ => none
  | setup f => some f
  | templates f => some f
  | model f => some f
  | generation f => some f

def context : CommandFailure → List String
  | noInput => ["no input: pass --source and/or --model"]
  | setup _ => []
  | templates _ => ["failed to load templates"]
  | model _ => ["failed to build the declaration model"]
  | generation _ => ["generation aborted"]
  | create path fault => ["failed to create " ++ path, fault.message]
  | write path fault => ["failed to write " ++ path, fault.message]

/-- The wording of a failure, from what was going on to where it comes from. -/
def message? (f : CommandFailure) : Option String :=
  match f.failure? with
  | none => some (": ".intercalate f.context)
  | some failure => failure.message?.map fun m =>
    ": ".intercalate (f.context ++ m :: failure.origin?.toList)

end CommandFailure

abbrev Execution (α : Type) := EStateM CommandFailure World α

def during {α : Type} (failed : Failure → CommandFailure) (run : Run α) : Execution α := fun w =>
  match run w with
  | .ok a w => .ok a w
  | .error f w => .error (failed f) w

structure Output where
  out : String
  err : String
  deriving DecidableEq, Repr

inductive Paint where
  | yellow | red | green | bold
  deriving DecidableEq, Repr

def Paint.code : Paint → String
  | yellow => "33"
  | red => "31"
  | green => "32"
  | bold => "1"

def Paint.apply (p : Paint) (coloured : Bool) (s : String) : String :=
  if coloured then "\x1b[" ++ p.code ++ "m" ++ s ++ "\x1b[0m" else s

def unlines (lines : List String) : String :=
  String.join (lines.map (· ++ "\n"))

def GenerateOptions.settings (o : GenerateOptions) : Except Failure Settings := do
  let naming ← (Naming.ofPattern o.namingPattern o.nameSource).mapError .naming
  .ok ({ Settings.default with
    outputDir := o.out
    naming := naming
    policy := if o.rejectMultiTag then .reject else .firstWins
    dryRun := o.dryRun }.withExtension o.extension)

/-- Builds the model of the inputs, of which there has to be one. -/
def loadInputs (i : Inputs) : Execution Model :=
  if i.sources.isEmpty && i.models.isEmpty then throw .noInput
  else during .model (buildModel i)

def diagnosticLine (coloured : Bool) (d : Diagnostic) : String :=
  match d.severity with
  | .warning => Paint.yellow.apply coloured d.line
  | .error => Paint.red.apply coloured d.line

def fileLine (coloured dryRun : Bool) (f : GeneratedFile) : String :=
  Paint.green.apply coloured (if dryRun then "would generate" else "generated") ++
    " " ++ f.path ++ " (" ++ f.variant.name ++ " " ++ f.declaration ++ ")"

def summaryLine (coloured : Bool) (r : Report) : String :=
  Paint.bold.apply coloured "done:" ++ " " ++ toString r.generated.length ++ " file(s), " ++
    toString r.skipped.length ++ " skipped, " ++ toString r.warnings.length ++ " warning(s)"

def sourceRootLine (coloured : Bool) (r : Report) : String :=
  Paint.bold.apply coloured "source root:" ++ " " ++ r.sourceRoot

def reportOutput (coloured : Bool) (r : Report) : Output where
  out := unlines (r.generated.map (fileLine coloured r.dryRun) ++
    [summaryLine coloured r, sourceRootLine coloured r])
  err := unlines (r.diagnostics.map (diagnosticLine coloured))

/-- Executes `generate`. Settings and templates fail before any input is read. -/
def executeGenerate (coloured : Bool) (o : GenerateOptions) : Execution Output := do
  let settings ← during .setup (Run.ofExcept o.settings)
  let templates ← during .templates (Templates.load o.templates)
  let model ← loadInputs o.inputs
  let report ← during .generation (generate templates.render settings model)
  pure (reportOutput coloured report)

def writeModel (path json : String) : Execution Unit := do
  match Path.parent? path with
  | none => pure ()
  | some parent =>
    let (files, fault) := (← get).files.makeDirectories parent
    modify fun w => { w with files }
    match fault with
    | none => pure ()
    | some fault => throw (.create parent fault)
  match (← get).files.write path json with
  | .ok files => modify fun w => { w with files }
  | .error fault => throw (.write path fault)

def executeModel (o : ModelOptions) : Execution Output := do
  let model ← loadInputs o.inputs
  let json := (Declaration.listToJson model.declarations).pretty
  match o.out with
  | none => pure ⟨json ++ "\n", ""⟩
  | some path => do
    writeModel path json
    pure ⟨"", ""⟩

/-- The command only shows its command line. -/
def Command.noOp : Command → Bool
  | .generate o => o.noOp
  | .model o => o.noOp

def Invocation.execute (i : Invocation) (coloured : Bool) : Execution Output :=
  if i.command.noOp then pure ⟨"", i.shown ++ "\n"⟩
  else
    match i.command with
    | .generate o => executeGenerate coloured o
    | .model o => executeModel o

end Companion.CommandLine
