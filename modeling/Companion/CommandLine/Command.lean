import Companion.CommandLine.Argument
import Companion.Loading
import Companion.Settings

/-!
# Commands

The command line as a value: generating companions, or writing the declaration model.
-/

namespace Companion.CommandLine

structure GenerateOptions where
  inputs : Inputs
  out : String
  extension : String
  templates : Option String
  namingPattern : String
  nameSource : NameSource
  rejectMultiTag : Bool
  dryRun : Bool
  /-- Shows the command line instead of a run. -/
  noOp : Bool
  deriving DecidableEq, Repr

structure ModelOptions where
  inputs : Inputs
  /-- The file to write, if it is not the standard output. -/
  out : Option String
  /-- Shows the command line instead of a run. -/
  noOp : Bool
  deriving DecidableEq, Repr

inductive Command where
  | generate (options : GenerateOptions)
  | model (options : ModelOptions)
  deriving DecidableEq, Repr

structure Invocation where
  command : Command
  verbosity : Nat
  deriving DecidableEq, Repr

def helpOption : OptionSpec := ⟨"help", some 'h', .help⟩

def verboseOption : OptionSpec := ⟨"verbose", some 'v', .count⟩

def mainGrammar : Grammar where
  options := [verboseOption, helpOption, ⟨"version", some 'V', .version⟩]
  subcommands := ["generate", "model", "help"]

def commonOptions : List OptionSpec := [
  ⟨"source", some 's', .many .text⟩,
  ⟨"model", some 'm', .many .path⟩,
  ⟨"ndjson", none, .flag⟩,
  ⟨"out", some 'o', .one .path⟩,
  ⟨"no-op", none, .flag⟩,
  verboseOption,
  helpOption]

def generateGrammar : Grammar where
  options := commonOptions ++ [
    ⟨"extension", none, .one .text⟩,
    ⟨"templates", none, .one .path⟩,
    ⟨"naming-pattern", none, .one .text⟩,
    ⟨"partner-from", none, .one (.choice [NameSource.subclass.name, NameSource.superclass.name])⟩,
    ⟨"reject-multi-tag", none, .flag⟩,
    ⟨"dry-run", none, .flag⟩]
  subcommands := []

def modelGrammar : Grammar where
  options := commonOptions
  subcommands := []

def inputsOf (a : Arguments) : Inputs :=
  ⟨a.values "source", a.values "model", a.has "ndjson"⟩

def GenerateOptions.ofArguments (a : Arguments) : GenerateOptions where
  inputs := inputsOf a
  out := (a.value? "out").getD Settings.defaultOutputDir
  extension := (a.value? "extension").getD Settings.defaultExtension
  templates := a.value? "templates"
  namingPattern := (a.value? "naming-pattern").getD Naming.defaultPattern
  nameSource := ((a.value? "partner-from").bind NameSource.ofName?).getD .subclass
  rejectMultiTag := a.has "reject-multi-tag"
  dryRun := a.has "dry-run"
  noOp := a.has "no-op"

def ModelOptions.ofArguments (a : Arguments) : ModelOptions where
  inputs := inputsOf a
  out := a.value? "out"
  noOp := a.has "no-op"

def maxVerbosity : Nat := 255

/-- The verbosity of a command: the one asked for after the subcommand, or else before it. -/
def verbosity (before after : Arguments) : Nat :=
  let count := if after.has "verbose" then after.count "verbose" else before.count "verbose"
  min count maxVerbosity

def helpFor : List String → UsageFault
  | [] => .help
  | [name] => if mainGrammar.subcommands.contains name then .help else .unknownSubcommand
  | _ => .unknownSubcommand

def readCommand (before : Arguments) (name : String) (rest : List String) :
    Except UsageFault Invocation :=
  match name with
  | "generate" => do
    let (a, _) ← Arguments.empty.read generateGrammar rest
    .ok ⟨.generate (.ofArguments a), verbosity before a⟩
  | "model" => do
    let (a, _) ← Arguments.empty.read modelGrammar rest
    .ok ⟨.model (.ofArguments a), verbosity before a⟩
  | _ => .error (helpFor rest)

def Invocation.ofArgs (args : List String) : Except UsageFault Invocation := do
  match ← Arguments.empty.read mainGrammar args with
  | (before, some (name, rest)) => readCommand before name rest
  | (before, none) => .error (if before.uses.isEmpty then .nothingGiven else .missingSubcommand)

def Invocation.level (i : Invocation) : Log.Level :=
  match i.verbosity with
  | 0 => .info
  | 1 => .debug
  | _ => .trace

end Companion.CommandLine
