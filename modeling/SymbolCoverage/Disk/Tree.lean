import SymbolCoverage.Disk.Basic
import SymbolCoverage.Disk.Path
import SymbolCoverage.Text.Utf8

/-!
A disk held in memory: a directory with files and directories below it.  Paths
that start with a slash, or climb above the directory, lead out of it, to places
that hold nothing.
-/

namespace SymbolCoverage.Disk

inductive Content
  | file (bytes : ByteArray)
  | directory

/-- The contents by their places.  A place is the names that lead to it; directories
above a place need no content of their own. -/
structure Tree where
  contents : List (List String × Content)

inductive Location
  | inside (place : List String)
  | outside

namespace Tree

def placeOf (path : String) : List String :=
  (names path).foldl
    (fun place name => if name = ['.', '.'] then place.dropLast else place ++ [.ofList name]) []

def ofPaths (contents : List (String × Content)) : Tree :=
  ⟨contents.map fun (path, content) => (placeOf path, content)⟩

def file? (t : Tree) (place : List String) : Option ByteArray :=
  t.contents.findSome? fun
    | (p, .file bytes) => if p = place then some bytes else none
    | (_, .directory) => none

def isDirectory (t : Tree) (place : List String) : Bool :=
  place.isEmpty || t.contents.any fun
    | (p, .directory) => place.isPrefixOf p
    | (p, .file _) => place.isPrefixOf p && p != place

def namesIn (t : Tree) (place : List String) : List String :=
  (t.contents.filterMap fun (p, _) => (place.isPrefixOf? p).bind List.head?).eraseDups

/-- The longest name, and the length that no path reaches, in bytes. -/
def nameLimit : Nat := 255

def pathLimit : Nat := 4096

/-- Goes on from a location to one more piece of a path.  Only directories can be
left, even by a piece that leads nowhere. -/
def step (t : Tree) (here : Location) (piece : List Char) : Except Error Location :=
  let leavesFile :=
    match here with
    | .inside place => (t.file? place).isSome
    | .outside => false
  if leavesFile then .error .notADirectory
  else if piece = [] ∨ piece = ['.'] then .ok here
  else if piece = ['.', '.'] then
    match here with
    | .inside [] => .ok .outside
    | .inside place => .ok (.inside place.dropLast)
    | .outside => .ok .outside
  else if nameLimit < Text.utf8Length piece then .error .nameTooLong
  else
    match here with
    | .inside place =>
      let place := place ++ [.ofList piece]
      if (t.file? place).isSome ∨ t.isDirectory place then .ok (.inside place)
      else .error .notFound
    | .outside => .error .notFound

def locate (t : Tree) (path : String) : Except Error Location :=
  if path.toList.contains '\x00' then .error .nulInPath
  else if path.isEmpty then .error .notFound
  else if pathLimit ≤ Text.utf8Length path.toList then .error .nameTooLong
  else
    let start : Location := if path.toList.head? = some '/' then .outside else .inside []
    (pieces path.toList).foldlM t.step start

def read (t : Tree) (path : String) : Except Error ByteArray :=
  match t.locate path with
  | .error e => .error e
  | .ok .outside => .error .isADirectory
  | .ok (.inside place) =>
    match t.file? place with
    | some bytes => .ok bytes
    | none => .error .isADirectory

def entries (t : Tree) (path : String) : Except Error (List String) :=
  match t.locate path with
  | .error e => .error e
  | .ok .outside => .ok []
  | .ok (.inside place) =>
    if (t.file? place).isSome then .error .notADirectory else .ok (t.namesIn place)

def disk (t : Tree) : Disk := ⟨t.read, t.entries⟩

end Tree
end SymbolCoverage.Disk
