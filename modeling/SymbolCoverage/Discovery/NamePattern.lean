import SymbolCoverage.Discovery.Error
import SymbolCoverage.Disk.Path

/-!
Which files belong to a crate.  A file names the crate if its name is that of the crate,
perhaps a dash and a hash, and the extension, which a regular expression tells.  Any file
with the crate's name in front and the extension behind is a candidate.
-/

namespace SymbolCoverage.Discovery

/-- A compiled test for the names of a crate's files. -/
structure NamePattern where
  crate : String
  test : String → Bool

namespace NamePattern

/-- The regular expression as it is written.  The crate's name is escaped. -/
def source (library : Text.PatternLibrary) (crate : String) : String :=
  "^" ++ library.escape crate ++ "(?:-[a-z0-9]+)?" ++ library.escape ".smir.json" ++ "$"

def compile (library : Text.PatternLibrary) (crate : String) : Except Error NamePattern :=
  match library.compile (source library crate) with
  | .error fault => .error (.invalidName crate fault)
  | .ok test => .ok ⟨crate, test⟩

def matchesPath (pattern : NamePattern) (path : String) : Bool :=
  (Disk.fileName? path).any pattern.test

end NamePattern

def extension : List Char := ".smir.json".toList

/-- Whether a file could belong to a crate: its name starts with that of the crate
and has the extension.  The two may overlap. -/
def isCandidate (crate file : String) : Bool :=
  crate.toList.isPrefixOf file.toList && extension.isSuffixOf file.toList

end SymbolCoverage.Discovery
