import Companion.Text.Basic

/-!
# Arguments

How a list of arguments is divided into options with their values. An option has a long name, and
maybe a letter; its values follow it, up to the next option, or are attached to it.
-/

namespace Companion.CommandLine

inductive ValueKind where
  | text
  | path
  | choice (names : List String)
  deriving DecidableEq, Repr

def ValueKind.accepts : ValueKind → String → Bool
  | text, _ => true
  | path, s => !s.isEmpty
  | choice names, s => names.contains s

inductive Usage where
  /-- At most once, without a value. -/
  | flag
  /-- Any number of times, without a value. -/
  | count
  /-- At most once, with a value. -/
  | one (kind : ValueKind)
  /-- Any number of times, each time with at least one value. -/
  | many (kind : ValueKind)
  /-- Asks for help. -/
  | help
  /-- Asks for the version. -/
  | version
  deriving DecidableEq, Repr

def Usage.kind? : Usage → Option ValueKind
  | one kind => some kind
  | many kind => some kind
  | _ => none

structure OptionSpec where
  name : String
  letter : Option Char
  usage : Usage
  deriving DecidableEq, Repr

structure Grammar where
  options : List OptionSpec
  subcommands : List String
  deriving DecidableEq, Repr

/-- Why arguments are refused, or what they ask for instead of a run. -/
inductive UsageFault where
  | help
  | version
  /-- There are no arguments at all. -/
  | nothingGiven
  | missingSubcommand
  | unknownSubcommand
  | unknownArgument
  | badValue
  | repeatedOption
  | unwantedValue
  deriving DecidableEq, Repr

/-- The exit code for refused arguments. Asking for something is no error. -/
def UsageFault.exitCode : UsageFault → Nat
  | help => 0
  | version => 0
  | _ => 2

structure Use where
  option : OptionSpec
  values : List String
  deriving DecidableEq, Repr

structure Arguments where
  uses : List Use
  /-- The last use, if values may still follow. -/
  pending : Option Use
  /-- Two hyphens were among the arguments. -/
  ended : Bool
  deriving DecidableEq, Repr

namespace Arguments

def empty : Arguments := ⟨[], none, false⟩

def has (a : Arguments) (name : String) : Bool :=
  a.uses.any (·.option.name == name)

def count (a : Arguments) (name : String) : Nat :=
  a.uses.countP (·.option.name == name)

def values (a : Arguments) (name : String) : List String :=
  (a.uses.filter (·.option.name == name)).flatMap (·.values)

def value? (a : Arguments) (name : String) : Option String :=
  (a.values name).head?

def add (a : Arguments) (u : Use) : Except UsageFault Arguments :=
  let added : Arguments := { a with uses := a.uses ++ [u] }
  match u.option.usage with
  | .help => .error .help
  | .version => .error .version
  | .count => .ok added
  | .flag => if a.has u.option.name then .error .repeatedOption else .ok added
  | .one kind =>
    if u.values.isEmpty then .error .badValue
    else if a.has u.option.name then .error .repeatedOption
    else if u.values.all kind.accepts then .ok added
    else .error .badValue
  | .many kind =>
    if u.values.isEmpty || !u.values.all kind.accepts then .error .badValue else .ok added

def complete (a : Arguments) : Except UsageFault Arguments :=
  match a.pending with
  | none => .ok a
  | some u => { a with pending := none }.add u

/-- The next argument is a value of the last option unless it starts with a hyphen. -/
def wantsValue (a : Arguments) : Bool :=
  match a.pending with
  | none => false
  | some u =>
    match u.option.usage with
    | .many _ => true
    | _ => u.values.isEmpty

def addValue (a : Arguments) (value : String) : Arguments :=
  { a with pending := a.pending.map fun u => { u with values := u.values ++ [value] } }

/-- Uses an option with a value that is attached to it, or without one. -/
def useOption (a : Arguments) (o : OptionSpec) (attached : Option String) :
    Except UsageFault Arguments :=
  match o.usage.kind?, attached with
  | none, some _ => .error .unwantedValue
  | none, none => do (← a.complete).add ⟨o, []⟩
  | some _, some value => do (← a.complete).add ⟨o, [value]⟩
  | some _, none => do .ok { (← a.complete) with pending := some ⟨o, []⟩ }

/-- Uses the options of letters after one hyphen. What follows the letter of an option that takes a
value is its value, with or without an equals sign between them. -/
def useLetters (g : Grammar) : Arguments → List Char → Except UsageFault Arguments
  | a, [] => .ok a
  | a, c :: rest =>
    match g.options.find? (·.letter == some c) with
    | none => .error .unknownArgument
    | some o =>
      match o.usage.kind?, rest with
      | none, _ => do useLetters g (← a.useOption o none) rest
      | some _, [] => a.useOption o none
      | some _, '=' :: value => a.useOption o (some (String.ofList value))
      | some _, value => a.useOption o (some (String.ofList value))

/-- Uses the option of a name after two hyphens. -/
def useName (a : Arguments) (g : Grammar) (text : List Char) : Except UsageFault Arguments :=
  let (name, attached) := match Text.breakOn? ['='] text with
    | some (name, value) => (name, some (String.ofList value))
    | none => (text, none)
  match g.options.find? (·.name.toList == name) with
  | none => .error .unknownArgument
  | some o => a.useOption o attached

/-- Why an argument is refused that is no option and no value. -/
def misplaced (a : Arguments) (g : Grammar) (text : String) : UsageFault :=
  if a.ended && g.subcommands.contains text then .unknownArgument
  else if g.subcommands.isEmpty then .unknownArgument
  else .unknownSubcommand

/-- Takes the next argument, which names no subcommand. -/
def take (a : Arguments) (g : Grammar) (text : String) : Except UsageFault Arguments :=
  if a.ended then .error (a.misplaced g text)
  else
    match text.toList with
    | ['-', '-'] => .ok { a with ended := true }
    | '-' :: '-' :: name => a.useName g name
    | '-' :: c :: letters => useLetters g a (c :: letters)
    | _ => if a.wantsValue then .ok (a.addValue text) else .error (a.misplaced g text)

/-- Takes arguments up to a subcommand, whose own arguments are left. -/
def read (a : Arguments) (g : Grammar) :
    List String → Except UsageFault (Arguments × Option (String × List String))
  | [] => do .ok (← a.complete, none)
  | text :: rest =>
    if !a.ended && !a.wantsValue && g.subcommands.contains text then .ok (a, some (text, rest))
    else do read (← a.take g text) g rest

end Arguments

end Companion.CommandLine
