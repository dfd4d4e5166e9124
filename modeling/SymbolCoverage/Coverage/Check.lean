import SymbolCoverage.Coverage.Report
import SymbolCoverage.Discovery.Search

/-!
The check: every name that a document links should be present in some document.
-/

namespace SymbolCoverage

/-- Checks documents.  The index of all of them is made first. -/
def check (parallel : Bool) (documents : List Document) : Except Failure Report := do
  let index ← PresentIndex.build parallel documents
  let references ← collect (batch parallel (Reference.ofDocument index) documents)
  return Report.ofReferences references.flatten

/-- Checks the documents that a request asks for. -/
def run (library : Text.PatternLibrary) (disk : Disk) (request : Discovery.Request)
    (parallel : Bool) : Except Failure Report :=
  match Discovery.discover library disk request with
  | .error e => .error (.discovery e)
  | .ok documents => check parallel documents

end SymbolCoverage
