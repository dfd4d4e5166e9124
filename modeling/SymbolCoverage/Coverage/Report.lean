import Std.Data.ExtTreeMap
import Std.Data.ExtTreeSet
import SymbolCoverage.Coverage.Reference
import SymbolCoverage.Json.Printer

/-!
The report of a check: the foreign names, and which crates miss which symbols.
-/

namespace SymbolCoverage

open SymbolCoverage.Symbol (Key Hash)

abbrev Hashes := Std.ExtTreeSet Hash

/-- The hashes that each crate misses, crates in the order in which they were first
recorded. -/
abbrev CrateHashes := List (CrateId × Hashes)

namespace CrateHashes

def addHash (hashes : Hashes) : Option Hash → Hashes
  | some hash => hashes.insert hash
  | none => hashes

/-- Records that a crate misses a hash.  Without a hash the crate is recorded
alone. -/
def record (crates : CrateHashes) (source : CrateId) (hash : Option Hash) : CrateHashes :=
  match crates with
  | [] => [(source, addHash ∅ hash)]
  | (c, hashes) :: rest =>
    if c = source then (c, addHash hashes hash) :: rest
    else (c, hashes) :: record rest source hash

end CrateHashes

structure Report where
  foreignNames : Std.ExtTreeSet String
  missing : Std.ExtTreeMap Key CrateHashes

structure MissingLine where
  source : CrateId
  key : Key
  hashes : List Hash

def MissingLine.text (line : MissingLine) : String :=
  let hashes := line.hashes.map fun h => "'" ++ h.digits ++ "'"
  line.source.shortName ++ "::" ++ line.key.display ++ "->[" ++ ", ".intercalate hashes ++ "]"

inductive OutputFormat
  | text
  | json
deriving DecidableEq

namespace Report

def empty : Report := ⟨∅, ∅⟩

def record (r : Report) : Reference → Report
  | .foreign name => { r with foreignNames := r.foreignNames.insert name }
  | .covered => r
  | .missing key hash source =>
    { r with
      missing := r.missing.insert key (CrateHashes.record (r.missing[key]?.getD []) source hash) }

def ofReferences (references : List Reference) : Report := references.foldl record empty

def isEmpty (r : Report) : Bool := r.foreignNames.isEmpty && r.missing.isEmpty

def foreignList (r : Report) : List String := r.foreignNames.toList

/-- The missing lines, in order of key and then of crate. -/
def missingLines (r : Report) : List MissingLine :=
  r.missing.toList.flatMap fun (key, crates) =>
    crates.map fun (source, hashes) => ⟨source, key, hashes.toList⟩

/-- One line for each foreign name and each missing line. -/
def text (r : Report) : String :=
  String.join (r.foreignList.map (· ++ "\n")) ++
    String.join (r.missingLines.map (·.text ++ "\n"))

/-- The report as a value, members in alphabetical order. -/
def toValue (r : Report) : Json.Value :=
  .object
    [("foreign", .array (r.foreignList.map .string)), ("missing", .array (r.missingLines.map line))]
where
  line (l : MissingLine) : Json.Value :=
    .object
      [("crate", .string l.source.shortName),
        ("hashes", .array (l.hashes.map (.string ·.digits))), ("path", .string l.key.display)]

def render (r : Report) : OutputFormat → String
  | .text => r.text
  | .json => r.toValue.toIndented ++ "\n"

end Report
end SymbolCoverage
