import SymbolCoverage.Json.Skip

/-!
Readers for the values that records are made of, and for JSON values as such.
-/

namespace SymbolCoverage.Json

/-- Describes the value that stands at the start of a text.  Words, numbers and
strings are read for it, and may turn out to be at fault themselves. -/
def found (text : List Char) : Except Failure Found :=
  match next text with
  | none => .error .truncated
  | some ⟨c, rest, _⟩ =>
    if c = 'n' then (letters ['u', 'l', 'l'] rest).map fun _ => .null
    else if c = 't' then (letters ['r', 'u', 'e'] rest).map fun _ => .bool true
    else if c = 'f' then (letters ['a', 'l', 's', 'e'] rest).map fun _ => .bool false
    else if c = '"' then (literal .paired rest).map (.string ·.value)
    else if c = '-' then (number true rest).map (ofNumber ·.value)
    else if c.isDigit then (number false (c :: rest)).map (ofNumber ·.value)
    else if c = '[' then .ok .sequence
    else if c = '\x7b' then .ok .map
    else .error .malformed
where
  ofNumber : Number → Found
    | .integer n => .integer n
    | .double x => .double x

/-- The failure of a text that starts with something else than `expected`. -/
def unexpected (expected : String) (text : List Char) : Failure :=
  match found text with
  | .error e => e
  | .ok f => .mismatch (.wrongType f expected)

/-- Reads what starts with `c`: `body` reads what follows it.  Where something else
starts, `expected` is missed. -/
def startingWith {α : Type} (c : Char) (body : Reader α) (expected : String) : Reader α :=
  fun text =>
    match next text with
    | some p =>
      if p.value = c then (body p.rest).map (·.after p.shorter)
      else .error (unexpected expected text)
    | none => .error .truncated

def string : Reader String := startingWith '"' (literal .paired) "a string"

def list {α : Type} (element : Reader α) : Reader (List α) :=
  startingWith '[' (elements element) "a sequence"

def bool : Reader Bool := fun text =>
  match next text with
  | none => .error .truncated
  | some p =>
    if p.value = 't' then (letters ['r', 'u', 'e'] p.rest).map (·.giving true p.shorter)
    else if p.value = 'f' then
      (letters ['a', 'l', 's', 'e'] p.rest).map (·.giving false p.shorter)
    else .error (unexpected "a boolean" text)

/-- Reads `null`, where nothing is to stand. -/
def unit : Reader Unit := fun text =>
  match next text with
  | none => .error .truncated
  | some p =>
    if p.value = 'n' then (letters ['u', 'l', 'l'] p.rest).map (·.giving () p.shorter)
    else .error (unexpected "unit" text)

/-- Reads members up to the closing bracket.  `step` says how the value of a name
changes what has been read so far. -/
def membersFrom {σ : Type} (step : σ → String → Except Failure (Reader σ)) (start : List Char)
    (first : Bool) (state : σ) (text : List Char) (h : text.length ≤ start.length) :
    Except Failure (Parsed σ start) :=
  match nextName first text with
  | .error e => .error e
  | .ok (.close rest hr) => .ok ⟨state, rest, Nat.lt_of_lt_of_le hr h⟩
  | .ok (.entry r) =>
    match literal .paired r.rest with
    | .error e => .error e
    | .ok name =>
      match step state name.value with
      | .error e => .error e
      | .ok read =>
        match token ':' name.rest with
        | .error e => .error e
        | .ok colon =>
          match read colon.rest with
          | .error e => .error e
          | .ok p =>
            have := r.notLonger
            have := name.shorter
            have := colon.shorter
            have := p.shorter
            membersFrom step start false p.value p.rest (by omega)
termination_by text.length

def members {σ : Type} (step : σ → String → Except Failure (Reader σ)) (initial : σ) :
    Reader σ := fun text =>
  membersFrom step text true initial text (le_length text)

/-- What a name stands for among several. -/
def named {α : Type} (variants : List (String × α)) (name : String) : Except Failure α :=
  match variants.lookup name with
  | some a => .ok a
  | none => .error (.mismatch (.unknownVariant name (variants.map (·.1))))

/-- Reads one of several names.  Only strings are names. -/
def variantName {α : Type} (variants : List (String × α)) : Reader α := fun text =>
  match next text with
  | none => .error .truncated
  | some p =>
    if p.value = '"' then do
      let written ← literal .paired p.rest
      let a ← named variants written.value
      return (written.map fun _ => a).after p.shorter
    else .error .malformed

/-- Reads the only member of an object, a name that is given nothing, and the
closing bracket. -/
def loneName {α : Type} (variants : List (String × α)) : Reader α := fun text => do
  let a ← variantName variants text
  let colon ← token ':' a.rest
  let content ← unit colon.rest
  let close ← token '\x7d' content.rest
  return (((close.map fun _ => a.value).after content.shorter).after colon.shorter).after a.shorter

/-- Reads one of several names, which may also stand as the only name of an
object. -/
def variant {α : Type} (variants : List (String × α)) : Reader α := fun text =>
  match next text with
  | none => .error .truncated
  | some p =>
    if p.value = '\x7b' then (loneName variants p.rest).map (·.after p.shorter)
    else variantName variants text

/-- Reads a value, given how arrays and objects are read after their bracket. -/
def valueWith (array object : Reader Value) : Reader Value := fun text =>
  match next text with
  | none => .error .truncated
  | some p =>
    let c := p.value
    if c = 'n' then (letters ['u', 'l', 'l'] p.rest).map (·.giving .null p.shorter)
    else if c = 't' then (letters ['r', 'u', 'e'] p.rest).map (·.giving (.bool true) p.shorter)
    else if c = 'f' then
      (letters ['a', 'l', 's', 'e'] p.rest).map (·.giving (.bool false) p.shorter)
    else if c = '"' then
      (literal .paired p.rest).map fun q => (q.map .string).after p.shorter
    else if c = '-' then (number true p.rest).map fun q => (q.map .number).after p.shorter
    else if c.isDigit then
      (number false (c :: p.rest)).map fun q => (q.map .number).within p.shorter
    else if c = '[' then (array p.rest).map (·.after p.shorter)
    else if c = '\x7b' then (object p.rest).map (·.after p.shorter)
    else .error .malformed

/-- Reads a value inside which arrays and objects may stand `levels` deep. -/
def value : (levels : Nat) → Reader Value
  | 0 => valueWith (Reader.fail .malformed) (Reader.fail .malformed)
  | levels + 1 =>
    valueWith (Reader.map .array (elements (value levels)))
      (Reader.map .object
        (members (fun ms name => .ok (Reader.map (Members.set ms name) (value levels))) []))

/-- How deep arrays and objects may stand inside one another in a whole text. -/
def nestingLimit : Nat := 127

def readValue (text : String) : Except Failure Value := readAll (value nestingLimit) text

end SymbolCoverage.Json
