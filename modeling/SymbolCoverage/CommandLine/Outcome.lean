import SymbolCoverage.CommandLine.Options
import SymbolCoverage.Coverage.Check

/-!
What a call of `check-cov` ends in.
-/

namespace SymbolCoverage.CommandLine

structure Outcome where
  exitCode : UInt32
  stdout : String
  stderr : String
deriving DecidableEq

def usage : String :=
  "\n".intercalate
    ["Usage: check-cov [OPTIONS] <CRATE_NAME> [FILES]...",
      "",
      "Options:",
      "      --search-dir <DIR>  Directory searched when no files are given",
      "      --json              Output as JSON",
      "      --sequential        Process crates one at a time",
      "      --debug             Show full error detail on failure",
      "  -v, --verbose           Log progress to stderr",
      "  -h, --help              Print help",
      "  -V, --version           Print version",
      ""]

def Outcome.ofStop : Stop → Outcome
  | .usage => ⟨2, "", usage⟩
  | .version => ⟨0, "check-cov 0.1.0\n", ""⟩
  | .help => ⟨0, usage, ""⟩

/-- A request with its settings, or how the call ends without one. -/
def prepare (arguments : List String) (debugWord : Option String) :
    Except Outcome (Discovery.Request × Settings) :=
  match Options.empty.read arguments with
  | .error stop => .error (.ofStop stop)
  | .ok options =>
    match options.request with
    | .error stop => .error (.ofStop stop)
    | .ok request => .ok (request, options.settings debugWord)

def Outcome.ofResult (settings : Settings) : Except Failure Report → Outcome
  | .ok report => ⟨0, report.render settings.output, ""⟩
  | .error e => ⟨1, "", e.explain settings.diagnostics ++ "\n"⟩

/-- Calls `check-cov` on a disk. -/
def call (library : Text.PatternLibrary) (disk : Disk) (arguments : List String)
    (debugWord : Option String) : Outcome :=
  match prepare arguments debugWord with
  | .error outcome => outcome
  | .ok (request, settings) => .ofResult settings (run library disk request settings.parallel)

end SymbolCoverage.CommandLine
