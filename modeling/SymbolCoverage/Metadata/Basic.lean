import SymbolCoverage.Json.Value

/-!
Metadata documents.  Of a document only two tables matter: the symbols of the
items that a crate holds, and the functions that it links.
-/

namespace SymbolCoverage

/-- An entry of the function table: a type and a function, each as the document
describes it. -/
structure FunctionEntry where
  type : Json.Value
  function : Json.Value
deriving DecidableEq

structure Metadata where
  items : List String
  functions : List FunctionEntry
deriving DecidableEq

/-- How the description of a function is ill-formed.  Both name the kind of value
that stands there instead. -/
inductive DescriptorFault
  | notAnObject (kind : String)
  | linkNameNotAString (kind : String)
deriving DecidableEq

def DescriptorFault.message : DescriptorFault → String
  | .notAnObject kind => "descriptor is a " ++ kind ++ ", expected an object"
  | .linkNameNotAString kind => "linked symbol name is a " ++ kind ++ ", expected a string"

/-- An ill-formed entry, by its position in the whole table. -/
structure EntryFault where
  entry : Nat
  fault : DescriptorFault
deriving DecidableEq

def EntryFault.message (e : EntryFault) : String :=
  s!"function table entry {e.entry}: " ++ e.fault.message

namespace FunctionEntry

/-- The member of a function's description that names the linked symbol. -/
def linkMember : String := "NormalSym"

def linking (type : Json.Value) (symbol : String) : FunctionEntry :=
  ⟨type, .object [(linkMember, .string symbol)]⟩

/-- The linked name of a function.  Functions without one, or with an empty one,
link nothing. -/
def linkedName (f : FunctionEntry) : Except DescriptorFault (Option String) :=
  match f.function with
  | .object members =>
    match members.lookup linkMember with
    | none => .ok none
    | some .null => .ok none
    | some (.string name) => .ok (if name = "" then none else some name)
    | some other => .error (.linkNameNotAString other.kindName)
  | other => .error (.notAnObject other.kindName)

end FunctionEntry

namespace Metadata

def linkedNamesFrom (entry : Nat) : List FunctionEntry → List (Except EntryFault String)
  | [] => []
  | f :: rest =>
    match f.linkedName with
    | .error fault => .error ⟨entry, fault⟩ :: linkedNamesFrom (entry + 1) rest
    | .ok none => linkedNamesFrom (entry + 1) rest
    | .ok (some name) => .ok name :: linkedNamesFrom (entry + 1) rest

/-- The linked names in table order, with the faults of ill-formed entries. -/
def linkedNames (m : Metadata) : List (Except EntryFault String) :=
  linkedNamesFrom 0 m.functions

end Metadata
end SymbolCoverage
