import SymbolCoverage.Json.Printer
import SymbolCoverage.Metadata.Basic

/-!
Writing metadata: the two tables as they are, and whole documents made from names,
with the further members that documents carry.
-/

namespace SymbolCoverage

open Json

def FunctionEntry.toValue (f : FunctionEntry) : Value := .array [f.type, f.function]

namespace Metadata

/-- Entries that link the names, each of which has its position for a type. -/
def linkingFrom (position : Nat) : List String → List FunctionEntry
  | [] => []
  | name :: rest => .linking (.natural position) name :: linkingFrom (position + 1) rest

/-- Metadata with the given items, whose functions link the given names. -/
def ofNames (items links : List String) : Metadata := ⟨items, linkingFrom 0 links⟩

/-- The metadata as a value, the items first. -/
def toValue (m : Metadata) : Value :=
  .object
    [("items", .array (m.items.map fun symbol => .object [("symbol_name", .string symbol)])),
      ("functions", .array (m.functions.map FunctionEntry.toValue))]

namespace Fixture

def item (symbol : String) : Value :=
  .object (Members.ofGiven
    [("symbol_name", .string symbol),
      ("mono_item_kind", .object (Members.ofGiven [("MonoItemFn", .object [])]))])

def entry (position : Nat) (name : String) : Value :=
  .array [.natural position, .object (Members.ofGiven [("NormalSym", .string name)])]

end Fixture

/-- A document made from names, with members that are in no table. -/
def documentValue (items links : List String) : Value :=
  .object (Members.ofGiven
    [("name", .string "fixture"), ("items", .array (items.map Fixture.item)),
      ("functions", .array (links.mapIdx Fixture.entry)), ("types", .array [])])

def documentText (items links : List String) : String := (documentValue items links).toCompact

end Metadata
end SymbolCoverage
