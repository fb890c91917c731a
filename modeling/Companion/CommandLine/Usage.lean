import Companion.CommandLine.Argument

/-!
# Usage

What is written instead of a run if the arguments ask for something else or are refused.
-/

namespace Companion.CommandLine

def usageText : String := "\n".intercalate [
  "Usage: eventgen [-v] generate [-s SOURCE...] [-m MODEL...] [--ndjson] [-o DIRECTORY]",
  "           [--extension EXTENSION] [--templates DIRECTORY] [--naming-pattern PATTERN]",
  "           [--partner-from subclass|superclass] [--reject-multi-tag] [--dry-run] [--no-op]",
  "       eventgen [-v] model [-s SOURCE...] [-m MODEL...] [--ndjson] [-o FILE] [--no-op]"]

def versionText : String := "eventgen 0.1.0"

def UsageFault.message : UsageFault → String
  | help => usageText
  | version => versionText
  | nothingGiven => usageText
  | missingSubcommand => "error: a subcommand is required\n\n" ++ usageText
  | unknownSubcommand => "error: unrecognized subcommand\n\n" ++ usageText
  | unknownArgument => "error: unexpected argument\n\n" ++ usageText
  | badValue => "error: invalid or missing value\n\n" ++ usageText
  | repeatedOption => "error: an option is used more than once\n\n" ++ usageText
  | unwantedValue => "error: an option takes no value\n\n" ++ usageText

end Companion.CommandLine
