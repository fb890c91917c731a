import Companion.Naming
import Companion.Path
import Companion.Variant

/-!
# Settings of a generation

Where companions are written and how they are named, and the output path that results.
-/

namespace Companion

structure Settings where
  outputDir : String
  extension : String
  naming : Naming
  policy : MultiTagPolicy
  dryRun : Bool

namespace Settings

def defaultOutputDir : String := "target/generated-sources/eventgen"

def defaultExtension : String := "java"

def default : Settings :=
  ⟨defaultOutputDir, defaultExtension, .default, .firstWins, false⟩

/-- Sets the extension. Dots at its start do not count. -/
def withExtension (s : Settings) (extension : String) : Settings :=
  { s with extension := String.ofList (extension.toList.dropWhile (· == '.')) }

/-- The output path of a class: the package is a path below the output directory. -/
def outputPath (s : Settings) (package className : String) : String :=
  let segments := (package.toList.splitOn '.').filter (!·.isEmpty)
  Path.push (segments.foldl (fun path segment => Path.push path (String.ofList segment))
    s.outputDir) (className ++ "." ++ s.extension)

end Settings

end Companion
