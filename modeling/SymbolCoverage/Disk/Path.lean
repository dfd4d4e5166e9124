/-!
Paths on a disk.  Names stand between slashes; empty names and `.` do not count.
-/

namespace SymbolCoverage.Disk

/-- The pieces between slashes, empty ones included. -/
def pieces : List Char → List (List Char)
  | [] => [[]]
  | c :: rest =>
    if c = '/' then [] :: pieces rest
    else
      match pieces rest with
      | piece :: more => (c :: piece) :: more
      | [] => [[c]]

def names (path : String) : List (List Char) :=
  (pieces path.toList).filter fun n => n ≠ [] ∧ n ≠ ['.']

/-- The last name of a path, unless that is `..`. -/
def fileName? (path : String) : Option String :=
  match (names path).getLast? with
  | none => none
  | some name => if name = ['.', '.'] then none else some (.ofList name)

/-- A name without what follows its last dot.  A dot in front does not count. -/
def stem (name : String) : String :=
  match name.toList.reverse.dropWhile (· != '.') with
  | [] => name
  | _ :: before => if before = [] then name else .ofList before.reverse

def join (directory name : String) : String :=
  if directory.isEmpty ∨ directory.toList.getLast? = some '/' then directory ++ name
  else directory ++ "/" ++ name

end SymbolCoverage.Disk
