import SymbolCoverage.Coverage.Settings
import SymbolCoverage.Discovery.Search

/-!
The arguments of `check-cov`: the name of a crate, perhaps files, and options.
Arguments are read from the left, and the first that settles the matter does: a
fault, or a request for the version or for help.
-/

namespace SymbolCoverage.CommandLine

inductive Flag
  | json
  | sequential
  | debug
  | verbose
deriving DecidableEq

/-- What ends the reading of arguments early. -/
inductive Stop
  | usage
  | version
  | help
deriving DecidableEq

/-- What an option without a value asks for. -/
inductive Switch
  | set (flag : Flag)
  | stop (stop : Stop)

namespace Switch

def names : List (String × Switch) :=
  [("json", .set .json), ("sequential", .set .sequential), ("debug", .set .debug),
    ("verbose", .set .verbose), ("version", .stop .version), ("help", .stop .help)]

def letters : List (Char × Switch) :=
  [('v', .set .verbose), ('V', .stop .version), ('h', .stop .help)]

end Switch

/-- What has been read: the names in order, the directory, and the flags. -/
structure Options where
  positionals : List String
  searchDir : Option String
  flags : List Flag
deriving DecidableEq

namespace Options

def empty : Options := ⟨[], none, []⟩

/-- Adds a name.  The first is the crate's, which may be empty; files may not. -/
def addPositional (o : Options) (name : String) : Except Stop Options :=
  if o.positionals ≠ [] ∧ name = "" then .error .usage
  else .ok { o with positionals := o.positionals ++ [name] }

/-- Sets the directory, which is given once and not empty. -/
def setSearchDir (o : Options) (directory : String) : Except Stop Options :=
  if o.searchDir.isSome ∨ directory = "" then .error .usage
  else .ok { o with searchDir := some directory }

/-- Does what an option asks for.  There may be no such option, and each flag is
given once. -/
def throwSwitch (o : Options) : Option Switch → Except Stop Options
  | none => .error .usage
  | some (.stop stop) => .error stop
  | some (.set flag) =>
    if flag ∈ o.flags then .error .usage else .ok { o with flags := flag :: o.flags }

/-- Whether an argument is read as options and not as a name.  A lone dash is a
name. -/
def isOption (argument : String) : Bool :=
  match argument.toList with
  | '-' :: _ :: _ => true
  | _ => false

def searchDirName : List Char := "search-dir".toList

/-- Reads an argument of letters behind one dash. -/
def readLetters (o : Options) (letters : List Char) : Except Stop Options :=
  letters.foldlM (fun o c => o.throwSwitch (Switch.letters.lookup c)) o

/-- Reads a name behind two dashes, with its value if it has one of its own. -/
def readName (o : Options) (name : List Char) : Except Stop Options :=
  match (searchDirName ++ ['=']).isPrefixOf? name with
  | some directory => o.setSearchDir (.ofList directory)
  | none => o.throwSwitch (Switch.names.lookup (.ofList name))

/-- Reads arguments from the left.  After two dashes there are only names. -/
def read (o : Options) : List String → Except Stop Options
  | [] => .ok o
  | argument :: rest =>
    match argument.toList with
    | '-' :: '-' :: name =>
      if name = [] then rest.foldlM addPositional o
      else if name = searchDirName then
        match rest with
        | [] => .error .usage
        | directory :: rest =>
          if isOption directory then .error .usage
          else do (← o.setSearchDir directory).read rest
      else do (← o.readName name).read rest
    | '-' :: c :: letters => do (← o.readLetters (c :: letters)).read rest
    | _ => do (← o.addPositional argument).read rest

/-- The words that turn a setting of the environment off, in any case. -/
def offWords : List String := ["", "n", "no", "f", "false", "off", "0"]

def isOff (word : String) : Bool := offWords.contains word.toLower

/-- The request that options make.  The name of a crate must be there. -/
def request (o : Options) : Except Stop Discovery.Request :=
  match o.positionals with
  | [] => .error .usage
  | crate :: files => .ok ⟨crate, files, o.searchDir.getD "."⟩

/-- The settings that options make.  `debugWord` is what the environment says where
the option does not ask for verbose diagnostics. -/
def settings (o : Options) (debugWord : Option String) : Settings where
  parallel := .sequential ∉ o.flags
  diagnostics := if .debug ∈ o.flags ∨ debugWord.any (!isOff ·) then .verbose else .brief
  output := if .json ∈ o.flags then .json else .text

end Options
end SymbolCoverage.CommandLine
