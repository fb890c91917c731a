import Companion.FileSystem.Basic
import Companion.Naming

/-!
# Failures

Why a run ends without a result.
-/

namespace Companion

inductive Failure where
  | read (path : String) (fault : FileFault)
  | write (path : String) (fault : FileFault)
  /-- A model file does not hold declarations. -/
  | model (path message : String)
  /-- An input names no sources. -/
  | input (pattern message : String)
  | naming (fault : NamingFault)
  /-- The text for a variant is no template. -/
  | template (name : String)
  /-- A template cannot be rendered. -/
  | render (name : String)
  /-- A class whose type parameter list closes inside its body. -/
  | crossedHeader (className : String)
  deriving DecidableEq, Repr

namespace Failure

def message? : Failure → Option String
  | read path fault => some ("failed to read " ++ path ++ ": " ++ fault.message)
  | write path fault => some ("failed to write " ++ path ++ ": " ++ fault.message)
  | model path message => some ("invalid declaration model in " ++ path ++ ": " ++ message)
  | input pattern message => some ("bad input pattern `" ++ pattern ++ "`: " ++ message)
  | naming (.noGroup pattern) =>
    some ("invalid naming pattern: `" ++ pattern ++ "` has no capture group for the name stem")
  | naming (.badPattern _) => none
  | template _ => none
  | render _ => none
  | crossedHeader _ => none

/-- What a failure comes from, in words, if it comes from the file system. -/
def origin? : Failure → Option String
  | read _ fault => some fault.message
  | write _ fault => some fault.message
  | _ => none

end Failure

end Companion
