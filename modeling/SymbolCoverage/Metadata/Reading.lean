import SymbolCoverage.Json.Record
import SymbolCoverage.Metadata.Basic

/-!
Reading metadata documents from JSON texts.
-/

namespace SymbolCoverage.Metadata

open Json

/-- An item is known by its symbol. -/
def itemForm : RecordForm (Option String) String where
  title := "struct MonoItem"
  fields := [⟨"symbol_name", Option.isSome, fun _ => Reader.map some string⟩]
  initial := none
  finish
    | some symbol => .ok symbol
    | none => .error "symbol_name"

/-- The document, a table and an entry are open around the parts of an entry. -/
def descriptorLevels : Nat := nestingLimit - 3

def entry : Reader FunctionEntry :=
  Reader.map (fun (type, function) => ⟨type, function⟩)
    (pair "tuple struct FunctionEntry" (value descriptorLevels) (value descriptorLevels))

structure Tables where
  items : Option (List String)
  functions : Option (List FunctionEntry)

def form : RecordForm Tables Metadata where
  title := "struct CrateMetadata"
  fields :=
    [⟨"items", (·.items.isSome), fun t => Reader.map ({ t with items := some · })
      (list itemForm.read)⟩,
    ⟨"functions", (·.functions.isSome), fun t => Reader.map ({ t with functions := some · })
      (list entry)⟩]
  initial := ⟨none, none⟩
  finish
    | ⟨none, _⟩ => .error "items"
    | ⟨some _, none⟩ => .error "functions"
    | ⟨some items, some functions⟩ => .ok ⟨items, functions⟩

def ofJson (text : String) : Except Failure Metadata := readAll form.read text

end SymbolCoverage.Metadata
