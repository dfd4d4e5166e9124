import SymbolCoverage.Coverage.PresentIndex

/-!
References to linked names: names of other worlds, names of symbols that are
present, and names of symbols that are missing.
-/

namespace SymbolCoverage

inductive Reference
  | foreign (name : String)
  | covered
  | missing (key : Symbol.Key) (hash : Option Symbol.Hash) (source : CrateId)
deriving DecidableEq

namespace Reference

/-- Classifies a linked name.  Only names that open as structured symbols are looked
up. -/
def classify (index : PresentIndex) (source : CrateId) (name : String) :
    Except Symbol.MalformedSymbol Reference :=
  if Symbol.isOpened name then
    match Symbol.decode name with
    | .error e => .error e
    | .ok decoded =>
      if index.contains decoded.key decoded.hash? then .ok .covered
      else .ok (.missing decoded.key decoded.hash? source)
  else .ok (.foreign name)

/-- Classifies linked names in order, and leaves out what is covered. -/
def classifyAll (index : PresentIndex) (source : CrateId) :
    List (Except EntryFault String) → Except Failure (List Reference)
  | [] => .ok []
  | .error e :: _ => .error (.schemaViolation source.shortName e)
  | .ok name :: rest =>
    match classify index source name with
    | .error e => .error (.malformedSymbol source.shortName e)
    | .ok .covered => classifyAll index source rest
    | .ok reference => (classifyAll index source rest).map (reference :: ·)

/-- The references of a document that are not covered, in table order. -/
def ofDocument (index : PresentIndex) (d : Document) : Except Failure (List Reference) :=
  classifyAll index d.id d.metadata.linkedNames

end Reference
end SymbolCoverage
