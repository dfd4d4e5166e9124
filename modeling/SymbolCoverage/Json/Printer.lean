import SymbolCoverage.Json.Value
import SymbolCoverage.Text.Hex

/-!
Writing JSON values: on one line without blanks, or one entry a line.
-/

namespace SymbolCoverage.Json

/-- The form of a character inside a string.  Only quote, backslash and controls
are escaped. -/
def charForm (c : Char) : List Char :=
  if c = '"' then ['\\', '"']
  else if c = '\\' then ['\\', '\\']
  else if c = '\x08' then ['\\', 'b']
  else if c = '\x0c' then ['\\', 'f']
  else if c = '\n' then ['\\', 'n']
  else if c = '\r' then ['\\', 'r']
  else if c = '\t' then ['\\', 't']
  else if c < ' ' then
    let digits := Text.hexSpelling c.toNat
    ['\\', 'u'] ++ List.replicate (4 - digits.length) '0' ++ digits
  else [c]

def stringForm (text : String) : List Char :=
  ['"'] ++ text.toList.flatMap charForm ++ ['"']

def numberForm : Number → List Char
  | .integer n => (toString n).toList
  | .double x => x.text.toList

namespace Value

mutual

def compact : Value → List Char
  | .null => ['n', 'u', 'l', 'l']
  | .bool true => ['t', 'r', 'u', 'e']
  | .bool false => ['f', 'a', 'l', 's', 'e']
  | .number n => numberForm n
  | .string s => stringForm s
  | .array vs => ['['] ++ compactElements vs ++ [']']
  | .object ms => ['\x7b'] ++ compactMembers ms ++ ['\x7d']

def compactElements : List Value → List Char
  | [] => []
  | [v] => compact v
  | v :: vs => compact v ++ [','] ++ compactElements vs

def compactMembers : List (String × Value) → List Char
  | [] => []
  | [(name, v)] => stringForm name ++ [':'] ++ compact v
  | (name, v) :: ms => stringForm name ++ [':'] ++ compact v ++ [','] ++ compactMembers ms

end

/-- A line end and the indentation of a level, two blanks each. -/
def newline (level : Nat) : List Char := '\n' :: List.replicate (2 * level) ' '

mutual

/-- A value with one entry a line, from a given level of indentation on.  Empty
arrays and objects stand on one line. -/
def indented (level : Nat) : Value → List Char
  | .array [] => ['[', ']']
  | .object [] => ['\x7b', '\x7d']
  | .array vs =>
    ['['] ++ newline (level + 1) ++ indentedElements (level + 1) vs ++ newline level ++ [']']
  | .object ms =>
    ['\x7b'] ++ newline (level + 1) ++ indentedMembers (level + 1) ms ++ newline level ++ ['\x7d']
  | .null => ['n', 'u', 'l', 'l']
  | .bool true => ['t', 'r', 'u', 'e']
  | .bool false => ['f', 'a', 'l', 's', 'e']
  | .number n => numberForm n
  | .string s => stringForm s

def indentedElements (level : Nat) : List Value → List Char
  | [] => []
  | [v] => indented level v
  | v :: vs => indented level v ++ [','] ++ newline level ++ indentedElements level vs

def indentedMembers (level : Nat) : List (String × Value) → List Char
  | [] => []
  | [(name, v)] => stringForm name ++ [':', ' '] ++ indented level v
  | (name, v) :: ms =>
    stringForm name ++ [':', ' '] ++ indented level v ++ [','] ++ newline level ++
      indentedMembers level ms

end

def toCompact (v : Value) : String := .ofList v.compact

def toIndented (v : Value) : String := .ofList (v.indented 0)

end Value
end SymbolCoverage.Json
