import SymbolCoverage.Coverage.Explanation
import SymbolCoverage.Coverage.Report
import SymbolCoverage.Json.Record

/-!
The settings of a check.
-/

namespace SymbolCoverage

/-- Whether crates are worked on side by side, how failures are explained, and how
the report is written. -/
structure Settings where
  parallel : Bool := true
  diagnostics : Diagnostics := .brief
  output : OutputFormat := .text
deriving DecidableEq

namespace Settings

open Json

def diagnosticsNames : List (String × Diagnostics) := [("brief", .brief), ("verbose", .verbose)]

def outputNames : List (String × OutputFormat) := [("text", .text), ("json", .json)]

structure Partial where
  parallel : Option Bool
  diagnostics : Option Diagnostics
  output : Option OutputFormat

def form : RecordForm Partial Settings where
  title := "struct CheckConfig"
  fields :=
    [⟨"parallel", (·.parallel.isSome), fun s => Reader.map ({ s with parallel := some · }) bool⟩,
      ⟨"diagnostics", (·.diagnostics.isSome), fun s =>
        Reader.map ({ s with diagnostics := some · }) (variant diagnosticsNames)⟩,
      ⟨"output", (·.output.isSome), fun s =>
        Reader.map ({ s with output := some · }) (variant outputNames)⟩]
  initial := ⟨none, none, none⟩
  finish
    | ⟨none, _, _⟩ => .error "parallel"
    | ⟨some _, none, _⟩ => .error "diagnostics"
    | ⟨some _, some _, none⟩ => .error "output"
    | ⟨some parallel, some diagnostics, some output⟩ => .ok ⟨parallel, diagnostics, output⟩

def ofJson (text : String) : Except Json.Failure Settings := readAll form.read text

def diagnosticsName : Diagnostics → String
  | .brief => "brief"
  | .verbose => "verbose"

def outputName : OutputFormat → String
  | .text => "text"
  | .json => "json"

def toJson (s : Settings) : String :=
  Value.toCompact <| .object
    [("parallel", .bool s.parallel), ("diagnostics", .string (diagnosticsName s.diagnostics)),
      ("output", .string (outputName s.output))]

end Settings
end SymbolCoverage
