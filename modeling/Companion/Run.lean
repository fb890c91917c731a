import Companion.Failure
import Companion.Log

/-!
# Runs

A run goes through worlds: the file system and the events so far. What was done before a failure
stays done.
-/

namespace Companion

structure World where
  files : FileSystem
  log : List Log.Event
  deriving DecidableEq, Repr

abbrev Run (α : Type) := EStateM Failure World α

namespace Run

def report (events : List Log.Event) : Run Unit :=
  modify fun w => { w with log := w.log ++ events }

/-- The result, or the failure. -/
def ofExcept {α : Type} : Except Failure α → Run α
  | .ok x => pure x
  | .error failure => throw failure

def read (path : String) : Run String := do
  ofExcept (((← get).files.read path).mapError (.read path))

def makeDirectories (path : String) : Run Unit := do
  let (files, fault) := (← get).files.makeDirectories path
  modify fun w => { w with files }
  match fault with
  | none => pure ()
  | some fault => throw (.write path fault)

def write (path content : String) : Run Unit := do
  match (← get).files.write path content with
  | .ok files => modify fun w => { w with files }
  | .error fault => throw (.write path fault)

end Run

end Companion
