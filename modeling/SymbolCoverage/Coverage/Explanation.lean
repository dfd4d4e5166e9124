import SymbolCoverage.Coverage.Failure
import SymbolCoverage.Text.Outline

/-!
How a failure is explained: briefly, with its causes in one line, or at length,
with a cause a line and an outline of all that is known.
-/

namespace SymbolCoverage

inductive Diagnostics
  | brief
  | verbose
deriving DecidableEq

namespace Failure

open Text (Outline)

def malformationOutline : Symbol.Malformation → Outline
  | .emptyBody => .word "EmptyBody"
  | .missingLength offset => .record "MissingLength" [("offset", .number offset)]
  | .lengthOverflow offset => .record "LengthOverflow" [("offset", .number offset)]
  | .groupOverrun offset declared remaining =>
    .record "GroupOverrun"
      [("offset", .number offset), ("declared", .number declared),
        ("remaining", .number remaining)]

def descriptorOutline : DescriptorFault → Outline
  | .notAnObject kind => .tuple "NotAnObject" [.text kind]
  | .linkNameNotAString kind => .tuple "LinkNameNotString" [.text kind]

def diskOutline : Disk.Error → Outline
  | .system code kind text =>
    .record "Os" [("code", .number code), ("kind", .word kind), ("message", .text text)]
  | .described kind text => .record "Error" [("kind", .word kind), ("message", .text text)]
  | .ofKind kind _ => .tuple "Kind" [.word kind]

/-- A line that sets an explanation apart. -/
def rule : String := .ofList (List.replicate 79 '~')

def patternOutline : Text.PatternFault → Outline
  | .malformed explanation =>
    .lines (["Syntax(", rule] ++ explanation.splitOn "\n" ++ [rule, ")"])
  | .tooLarge sizeLimit => .tuple "CompiledTooBig" [.number sizeLimit]

def discoveryOutline : Discovery.Error → Outline
  | .noCandidates name searched =>
    .record "NoCandidates" [("name", .text name), ("searched", .text searched)]
  | .ambiguous name candidates =>
    .record "Ambiguous" [("name", .text name), ("candidates", .list (candidates.map .text))]
  | .invalidName name cause =>
    .record "InvalidName" [("name", .text name), ("source", patternOutline cause)]
  | .unreadable path cause =>
    .record "Io" [("path", .text path), ("source", diskOutline cause)]
  | .invalidDocument path cause =>
    .record "Json" [("path", .text path), ("source", .tuple "Error" [.text cause.message])]

def outline : Failure → Outline
  | .malformedSymbol crate cause =>
    .record "MalformedSymbol"
      [("crate_name", .text crate),
        ("source", .record "MalformedSymbol"
          [("symbol", .text cause.symbol), ("reason", malformationOutline cause.reason)])]
  | .schemaViolation crate cause =>
    .record "SchemaViolation"
      [("crate_name", .text crate),
        ("source", .record "SchemaError"
          [("entry", .number cause.entry), ("shape", descriptorOutline cause.fault)])]
  | .integrityViolation distinct indexed =>
    .record "IntegrityViolation"
      [("distinct_symbols", .number distinct), ("indexed_entries", .number indexed)]
  | .discovery cause => .tuple "Discovery" [discoveryOutline cause]

def explain (e : Failure) : Diagnostics → String
  | .brief => "Error: " ++ ": ".intercalate (e.message :: e.causes)
  | .verbose =>
    "Error [" ++ e.kindName ++ "]: " ++ e.message ++
      String.join (e.causes.map fun cause => "\n  caused by: " ++ cause) ++
      "\n\n" ++ e.outline.render 0

end Failure
end SymbolCoverage
