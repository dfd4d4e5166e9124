import SymbolCoverage.Coverage.Report
import SymbolCoverage.Proofs.Json.Printing

/-!
The two renderings of a report.  A report that is written as JSON reads back as an object
that lists foreign names and missing lines, and the lines of the text are those of the
listing, one after the other.
-/

namespace SymbolCoverage

/-- A missing line, as a JSON object lists it. -/
structure ListedLine where
  crate : String
  hashes : List String
  path : String

/-- What an object lists for a report. -/
structure Listing where
  foreign : List String
  missing : List ListedLine

namespace ListedLine

def toValue (l : ListedLine) : Json.Value :=
  .object
    [("crate", .string l.crate), ("hashes", .array (l.hashes.map .string)),
      ("path", .string l.path)]

/-- The hashes stand in single quotes. -/
def text (l : ListedLine) : String :=
  l.crate ++ "::" ++ l.path ++ "->[" ++
    ", ".intercalate (l.hashes.map fun hash => "'" ++ hash ++ "'") ++ "]"

end ListedLine

namespace Listing

def toValue (l : Listing) : Json.Value :=
  .object
    [("foreign", .array (l.foreign.map .string)),
      ("missing", .array (l.missing.map ListedLine.toValue))]

/-- Foreign names first, everything on a line of its own. -/
def text (l : Listing) : String :=
  String.join (l.foreign.map (· ++ "\n")) ++ String.join (l.missing.map (·.text ++ "\n"))

end Listing

namespace Report

variable (r : Report)

end Report

/-! ## Nesting and order -/

example : (Report.ofReferences [.foreign "a\"\x01\n"]).render .json =
    "\x7b\n  \"foreign\": [\n    \"a\\\"\\u0001\\n\"\n  ],\n  \"missing\": []\n\x7d\n" := by
  decide +kernel

end SymbolCoverage
