import SymbolCoverage.Json.Read

/-!
Records.  A record stands in a text as an object, whose further members are
skipped, or as an array of its fields in their order.  A pair only stands as an
array.
-/

namespace SymbolCoverage.Json

def sizedText (title : String) (n : Nat) : String :=
  title ++ s!" with {n} element" ++ (if n = 1 then "" else "s")

/-- Reads the next element of an array of which `count` elements have been read. -/
def elementAt {α : Type} (expected : String) (count : Nat) (element : Reader α) : Reader α :=
  fun text =>
    match nextElement (count == 0) text with
    | .error e => .error e
    | .ok (.close _ _) => .error (.mismatch (.wrongLength count expected))
    | .ok (.entry r) => (element r.rest).map (·.within r.notLonger)

/-- Reads the two elements of a pair and the closing bracket. -/
def pairElements {α β : Type} (expected : String) (first : Reader α) (second : Reader β) :
    Reader (α × β) := fun text => do
  let a ← elementAt expected 0 first text
  let b ← elementAt expected 1 second a.rest
  let close ← token ']' b.rest
  return ((close.map fun _ => (a.value, b.value)).after b.shorter).after a.shorter

def pair {α β : Type} (title : String) (first : Reader α) (second : Reader β) :
    Reader (α × β) :=
  startingWith '[' (pairElements (sizedText title 2) first second) title

/-- A field of a record of which `σ` has been read so far. -/
structure Field (σ : Type) where
  name : String
  isPresent : σ → Bool
  read : σ → Reader σ

/-- How a record is read: what it is called, what it holds, and how it is put
together.  `finish` gives the record, or the name of the first field that is not
there. -/
structure RecordForm (σ α : Type) where
  title : String
  fields : List (Field σ)
  initial : σ
  finish : σ → Except String α

namespace RecordForm

variable {σ α : Type}

def finished (form : RecordForm σ α) (state : σ) : Except Failure α :=
  (form.finish state).mapError fun name => .mismatch (.missingField name)

/-- How the member `name` is read: a field once, anything else not at all. -/
def step (form : RecordForm σ α) (state : σ) (name : String) : Except Failure (Reader σ) :=
  match form.fields.find? (·.name == name) with
  | some f =>
    if f.isPresent state then .error (.mismatch (.duplicateField name)) else .ok (f.read state)
  | none => .ok (Reader.map (fun _ => state) skip)

/-- Reads the fields from the elements of an array, of which `count` have been read,
and the closing bracket. -/
def positional (expected : String) : List (Field σ) → (count : Nat) → σ → Reader σ
  | [], _, state => Reader.map (fun _ => state) (token ']')
  | f :: fields, count, state => fun text =>
    match elementAt expected count (f.read state) text with
    | .error e => .error e
    | .ok p => (positional expected fields (count + 1) p.value p.rest).map (·.after p.shorter)

/-- Reads a record, given how its fields are read after the opening bracket.  A field
that is missing is noticed at the closing one. -/
def finishing (form : RecordForm σ α) (fields : Reader σ) : Reader α := fun text => do
  let p ← fields text
  let a ← form.finished p.value
  return p.map fun _ => a

def ofMembers (form : RecordForm σ α) : Reader α :=
  form.finishing (members form.step form.initial)

def ofElements (form : RecordForm σ α) : Reader α :=
  form.finishing (positional (sizedText form.title form.fields.length) form.fields 0 form.initial)

/-- Reads a record in either form. -/
def read (form : RecordForm σ α) : Reader α := fun text =>
  match next text with
  | none => .error .truncated
  | some p =>
    if p.value = '[' then (form.ofElements p.rest).map (·.after p.shorter)
    else if p.value = '\x7b' then (form.ofMembers p.rest).map (·.after p.shorter)
    else .error (unexpected form.title text)

end RecordForm
end SymbolCoverage.Json
