import SymbolCoverage.Discovery.NamePattern
import SymbolCoverage.Metadata.Document
import SymbolCoverage.Metadata.Reading

/-!
Finding and loading the documents of a crate.  Exactly one document must name the
crate before anything is read.
-/

namespace SymbolCoverage.Discovery

structure Request where
  crateName : String
  files : List String
  searchDir : String

/-- Checks that exactly one of the files names the crate. -/
def checkFiles (pattern : NamePattern) (files : List String) : Except Error Unit :=
  match files.filter pattern.matchesPath with
  | [] => .error (.noCandidates pattern.crate s!"{files.length} supplied file(s)")
  | [_] => .ok ()
  | several => .error (.ambiguous pattern.crate several)

def candidates (crate : String) (names : List String) : List String :=
  (names.filter (isCandidate crate)).mergeSort fun a b => (compare a b).isLE

/-- Searches a directory for the one candidate, which must name the crate. -/
def search (disk : Disk) (pattern : NamePattern) (directory : String) : Except Error String :=
  match disk.entries directory with
  | .error e => .error (.unreadable directory e)
  | .ok names =>
    match (candidates pattern.crate names).map (Disk.join directory) with
    | [] => .error (.noCandidates pattern.crate directory)
    | [path] =>
      if pattern.matchesPath path then .ok path
      else .error (.noCandidates pattern.crate directory)
    | several => .error (.ambiguous pattern.crate several)

def load (disk : Disk) (path : String) : Except Error Document :=
  match disk.read path with
  | .error e => .error (.unreadable path e)
  | .ok bytes =>
    match String.fromUTF8? bytes with
    | none => .error (.unreadable path .invalidText)
    | some text =>
      match Metadata.ofJson text with
      | .error e => .error (.invalidDocument path e)
      | .ok metadata => .ok ⟨⟨path⟩, metadata⟩

/-- The documents that a request asks for, in the order of its files.  The name of the crate
must compile, whether there are files or not. -/
def discover (library : Text.PatternLibrary) (disk : Disk) (request : Request) :
    Except Error (List Document) := do
  let pattern ← NamePattern.compile library request.crateName
  if request.files = [] then
    let path ← search disk pattern request.searchDir
    return [← load disk path]
  else
    checkFiles pattern request.files
    request.files.mapM (load disk)

end SymbolCoverage.Discovery
