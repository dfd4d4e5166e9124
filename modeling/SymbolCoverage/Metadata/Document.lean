import SymbolCoverage.Disk.Path
import SymbolCoverage.Metadata.Basic

/-!
A metadata document belongs to a crate, which is known by where the document came
from.
-/

namespace SymbolCoverage

/-- A crate, by the source of its document. -/
structure CrateId where
  source : String
deriving DecidableEq

namespace CrateId

/-- What the stem of a document's file name ends in. -/
def stemSuffix : List Char := ".smir".toList

/-- The name by which a crate is shown: the stem of the file name, or the whole
source if that has no file name. -/
def shortName (c : CrateId) : String :=
  let stem :=
    match Disk.fileName? c.source with
    | some name => Disk.stem name
    | none => c.source
  match stemSuffix.isSuffixOf? stem.toList with
  | some short => .ofList short
  | none => stem

instance : Ord CrateId := ⟨compareOn source⟩

instance : Std.TransOrd CrateId := inferInstanceAs (Std.TransCmp (compareOn source))

instance : Std.LawfulEqOrd CrateId where
  eq_of_compare {a b} h := by
    have hs : a.source = b.source := Std.LawfulEqOrd.eq_of_compare h
    cases a; cases b; cases hs; rfl

end CrateId

structure Document where
  id : CrateId
  metadata : Metadata
deriving DecidableEq

def Document.shortName (d : Document) : String := d.id.shortName

end SymbolCoverage
