import SymbolCoverage.Json.Failure

/-!
Readers.  A reader takes a value off the front of a text, and always takes at
least one character, so that reading on from the rest comes to an end.
-/

namespace SymbolCoverage.Json

structure Remaining (text : List Char) where
  rest : List Char
  notLonger : rest.length ≤ text.length

/-- A value taken off the front of `text`, and what is left. -/
structure Parsed (α : Type) (text : List Char) where
  value : α
  rest : List Char
  shorter : rest.length < text.length

/-- Reads a value off the front of a text, or fails. -/
abbrev Reader (α : Type) := (text : List Char) → Except Failure (Parsed α text)

theorem le_length (text : List Char) : text.length ≤ text.length := Nat.le_refl _

/-! ## Readings of a part of a text are readings of the text -/

namespace Parsed

variable {α β : Type} {text rest : List Char}

def map (f : α → β) (p : Parsed α text) : Parsed β text := ⟨f p.value, p.rest, p.shorter⟩

def ofChar (a : α) (c : Char) (rest : List Char) : Parsed α (c :: rest) :=
  ⟨a, rest, Nat.lt_succ_self rest.length⟩

def after (p : Parsed α rest) (h : rest.length < text.length) : Parsed α text :=
  ⟨p.value, p.rest, Nat.lt_trans p.shorter h⟩

def within (p : Parsed α rest) (h : rest.length ≤ text.length) : Parsed α text :=
  ⟨p.value, p.rest, Nat.lt_of_lt_of_le p.shorter h⟩

def behind (c : Char) (p : Parsed α rest) : Parsed α (c :: rest) :=
  ⟨p.value, p.rest, Nat.lt_succ_of_lt p.shorter⟩

def remaining (p : Parsed α text) : Remaining text := ⟨p.rest, Nat.le_of_lt p.shorter⟩

end Parsed

namespace Remaining

variable {α : Type} {text rest : List Char}

def all (text : List Char) : Remaining text := ⟨text, Nat.le_refl text.length⟩

def behind (c : Char) (r : Remaining rest) : Remaining (c :: rest) :=
  ⟨r.rest, Nat.le_succ_of_le r.notLonger⟩

def trans (r : Remaining text) (s : Remaining r.rest) : Remaining text :=
  ⟨s.rest, Nat.le_trans s.notLonger r.notLonger⟩

/-- A value whose text ends in a proper part of `text`. -/
def giving (a : α) (r : Remaining rest) (h : rest.length < text.length) : Parsed α text :=
  ⟨a, r.rest, Nat.lt_of_le_of_lt r.notLonger h⟩

end Remaining

namespace Reader

variable {α β : Type}

def map (f : α → β) (r : Reader α) : Reader β := fun text => (r text).map (·.map f)

/-- Reads, and refuses values for which `f` gives a reason. -/
def check (r : Reader α) (f : α → Except String β) : Reader β := fun text =>
  match r text with
  | .error e => .error e
  | .ok p =>
    match f p.value with
    | .ok b => .ok (p.map fun _ => b)
    | .error reason => .error (.mismatch (.refused reason))

def fail (e : Failure) : Reader α := fun _ => .error e

end Reader

/-! ## Characters and words -/

def isBlank (c : Char) : Bool := c == ' ' || c == '\n' || c == '\t' || c == '\r'

/-- The first character that is not blank, with what follows it. -/
def next : (text : List Char) → Option (Parsed Char text)
  | [] => none
  | c :: rest => if isBlank c then (next rest).map (·.behind c) else some (.ofChar c c rest)

def letters : List Char → (text : List Char) → Except Failure (Remaining text)
  | [], text => .ok (.all text)
  | _ :: _, [] => .error .truncated
  | c :: word, d :: rest =>
    if c = d then (letters word rest).map (·.behind d) else .error .malformed

/-- Takes one character, blanks before it skipped. -/
def token (c : Char) : Reader Unit := fun text =>
  match next text with
  | none => .error .truncated
  | some p => if p.value = c then .ok (p.map fun _ => ()) else .error .malformed

/-! ## Arrays and objects -/

/-- What comes next in an array or an object: its end, with the text after the
bracket, or an entry. -/
inductive Entry (text : List Char)
  | close (rest : List Char) (shorter : rest.length < text.length)
  | entry (rest : Remaining text)

/-- Finds the next element of an array.  Every element but the first stands after
a comma, and the bracket does not follow a comma. -/
def nextElement (first : Bool) (text : List Char) : Except Failure (Entry text) :=
  match next text with
  | none => .error .truncated
  | some p =>
    if p.value = ']' then .ok (.close p.rest p.shorter)
    else if first then .ok (.entry (.all text))
    else if p.value = ',' then
      match next p.rest with
      | none => .error .truncated
      | some q => if q.value = ']' then .error .malformed else .ok (.entry p.remaining)
    else .error .malformed

/-- Finds the next name in an object, which starts after its quote. -/
def nextName (first : Bool) (text : List Char) : Except Failure (Entry text) :=
  match next text with
  | none => .error .truncated
  | some p =>
    if p.value = '\x7d' then .ok (.close p.rest p.shorter)
    else if first then
      if p.value = '"' then .ok (.entry p.remaining) else .error .malformed
    else if p.value = ',' then
      match next p.rest with
      | none => .error .truncated
      | some q =>
        if q.value = '"' then .ok (.entry (p.remaining.trans q.remaining)) else .error .malformed
    else .error .malformed

/-- Reads elements up to the closing bracket, `read` being those read so far, the
last one first. -/
def elementsFrom {α : Type} (element : Reader α) (start : List Char) (first : Bool)
    (read : List α) (text : List Char) (h : text.length ≤ start.length) :
    Except Failure (Parsed (List α) start) :=
  match nextElement first text with
  | .error e => .error e
  | .ok (.close rest hr) => .ok ⟨read.reverse, rest, Nat.lt_of_lt_of_le hr h⟩
  | .ok (.entry r) =>
    match element r.rest with
    | .error e => .error e
    | .ok p =>
      have := p.shorter
      have := r.notLonger
      elementsFrom element start false (p.value :: read) p.rest (by omega)
termination_by text.length

def elements {α : Type} (element : Reader α) : Reader (List α) := fun text =>
  elementsFrom element text true [] text (le_length text)

def readAll {α : Type} (r : Reader α) (text : String) : Except Failure α :=
  match r text.toList with
  | .error e => .error e
  | .ok p => if (next p.rest).isNone then .ok p.value else .error .malformed

end SymbolCoverage.Json
