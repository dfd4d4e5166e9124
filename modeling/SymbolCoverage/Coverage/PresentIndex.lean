import Std.Data.ExtTreeMap
import Std.Data.ExtTreeSet
import SymbolCoverage.Coverage.Batch
import SymbolCoverage.Coverage.Failure
import SymbolCoverage.Metadata.Document

/-!
The index of the symbols that are present in some document.  Under each key it
keeps the hashes of the symbols that have this key.  An index is only made from a
builder that has as many entries as symbols, so no two symbols share an entry.
-/

namespace SymbolCoverage

open SymbolCoverage.Symbol (Key Hash)

/-- The hashes under one key.  A symbol without a hash counts as `none`. -/
abbrev Bucket := Std.ExtTreeSet (Option Hash)

abbrev Buckets := Std.ExtTreeMap Key Bucket

structure PresentIndex where
  buckets : Buckets

namespace Buckets

def add (buckets : Buckets) (key : Key) (hashes : Bucket) : Buckets :=
  buckets.insert key ((buckets[key]?.getD ∅) ∪ hashes)

def entryCount (buckets : Buckets) : Nat :=
  buckets.toList.foldr (fun (_, hashes) n => hashes.size + n) 0

end Buckets

namespace PresentIndex

def bucket? (index : PresentIndex) (key : Key) : Option Bucket := index.buckets[key]?

def contains (index : PresentIndex) (key : Key) (hash : Option Hash) : Bool :=
  (index.bucket? key).any (·.contains hash)

def size (index : PresentIndex) : Nat := index.buckets.size

def entryCount (index : PresentIndex) : Nat := index.buckets.entryCount

end PresentIndex

/-- An index under construction, with the symbols that went into it. -/
structure IndexBuilder where
  buckets : Buckets
  symbols : Std.ExtTreeSet String

namespace IndexBuilder

def empty : IndexBuilder := ⟨∅, ∅⟩

/-- Changes of a builder in place.  Where one fails, what it has done by then stays. -/
abbrev Change (ε : Type) := EStateM ε IndexBuilder

/-- The builder after a change, with the error in which the change ended. -/
def after {ε : Type} (b : IndexBuilder) (change : Change ε Unit) : IndexBuilder × Option ε :=
  match change.run b with
  | .ok _ b' => (b', none)
  | .error e b' => (b', some e)

/-- Adds a symbol.  A symbol that is there is not decoded again. -/
def insertion (symbol : String) : Change Symbol.MalformedSymbol Unit := do
  if (← get).symbols.contains symbol then return
  let decoded ← MonadExcept.ofExcept (Symbol.decode symbol)
  let hashes : Bucket := Std.ExtTreeSet.empty.insert decoded.hash?
  modify fun b => { b with buckets := b.buckets.add decoded.key hashes }
  modify fun b => { b with symbols := b.symbols.insert symbol }

/-- Adds the items of a document up to the first malformed one. -/
def extension (d : Document) : Change Failure Unit :=
  d.metadata.items.forM fun symbol =>
    (insertion symbol).adaptExcept (.malformedSymbol d.shortName)

def insert (b : IndexBuilder) (symbol : String) : IndexBuilder × Option Symbol.MalformedSymbol :=
  b.after (insertion symbol)

def extend (b : IndexBuilder) (d : Document) : IndexBuilder × Option Failure :=
  b.after (extension d)

def merge (b c : IndexBuilder) : IndexBuilder :=
  ⟨c.buckets.toList.foldl (fun buckets (key, hashes) => buckets.add key hashes) b.buckets,
    b.symbols ∪ c.symbols⟩

/-- The index, unless two symbols share an entry. -/
def finish (b : IndexBuilder) : Except Failure PresentIndex :=
  if b.symbols.size = b.buckets.entryCount then .ok ⟨b.buckets⟩
  else .error (.integrityViolation b.symbols.size b.buckets.entryCount)

def ofDocument (d : Document) : Except Failure IndexBuilder :=
  match empty.extend d with
  | (b, none) => .ok b
  | (_, some e) => .error e

end IndexBuilder

def PresentIndex.build (parallel : Bool) (documents : List Document) :
    Except Failure PresentIndex := do
  let parts ← collect (batch parallel IndexBuilder.ofDocument documents)
  (parts.foldl IndexBuilder.merge .empty).finish

end SymbolCoverage
