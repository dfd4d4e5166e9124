import SymbolCoverage.CommandLine.Outcome
import SymbolCoverage.Text.Backtracking

/-!
The program `check-cov`.  What a request can look at is read first, and the check
is made on that.
-/

namespace SymbolCoverage

/-- An error number, which may come with its sign turned. -/
def errorNumber (code : UInt32) : UInt32 := min code (0 - code)

/-- The number and the text of an error of the system. -/
def numbered? : IO.Error → Option (UInt32 × String)
  | .otherError code text
  | .resourceBusy code text
  | .resourceVanished code text
  | .unsupportedOperation code text
  | .hardwareFault code text
  | .unsatisfiedConstraints code text
  | .illegalOperation code text
  | .protocolError code text
  | .timeExpired code text
  | .alreadyExists _ code text
  | .interrupted _ code text
  | .noFileOrDirectory _ code text
  | .invalidArgument _ code text
  | .permissionDenied _ code text
  | .resourceExhausted _ code text
  | .inappropriateType _ code text
  | .noSuchThing _ code text => some (code, text)
  | .unexpectedEof => none
  | .userError _ => none

def Disk.Error.ofSystem (e : IO.Error) : Disk.Error :=
  match numbered? e with
  | some (code, text) => .ofNumber (errorNumber code).toNat text
  | none => .described "Other" (toString e)

def attempt {α : Type} (action : IO α) : IO (Except Disk.Error α) := do
  try
    return .ok (← action)
  catch e =>
    return .error (.ofSystem e)

def contentsAt (path : String) : IO ByteArray := IO.FS.readBinFile path

def namesAt (directory : String) : IO (List String) := do
  let here : IO.FS.DirEntry := ⟨directory, ""⟩
  return (← here.root.readDir).toList.map (·.fileName)

/-- The part of the disk that a request can look at. -/
def diskFor (request : Discovery.Request) : IO Disk := do
  let directory := request.searchDir
  let names ←
    if request.files = [] then attempt (namesAt directory) else pure (.error .notFound)
  let found := (names.toOption.map (Discovery.candidates request.crateName)).getD []
  let paths := request.files ++ found.map (Disk.join directory)
  let contents ← paths.mapM fun path => do return (path, ← attempt (contentsAt path))
  return ⟨fun path => (contents.lookup path).getD (.error .notFound), fun _ => names⟩

end SymbolCoverage

open SymbolCoverage in
def main (arguments : List String) : IO UInt32 := do
  let debugWord ← IO.getEnv "DEBUG"
  let disk ←
    match CommandLine.prepare arguments debugWord with
    | .error _ => pure (⟨fun _ => .error .notFound, fun _ => .error .notFound⟩ : Disk)
    | .ok (request, _) => diskFor request
  let outcome := CommandLine.call Text.defaultLibrary disk arguments debugWord
  IO.print outcome.stdout
  IO.eprint outcome.stderr
  return outcome.exitCode
