import SymbolCoverage.Text.Quoted

/-!
Outlines: nested records written one field a line, for diagnostics.
-/

namespace SymbolCoverage.Text

inductive Outline
  | word (text : String)
  | lines (texts : List String)
  | record (name : String) (fields : List (String × Outline))
  | tuple (name : String) (items : List Outline)
  | list (items : List Outline)

namespace Outline

def number (n : Nat) : Outline := .word (toString n)

def text (s : String) : Outline := .word (quoted s)

/-- A line end and four blanks for each level. -/
def newline (level : Nat) : String := "\n" ++ .ofList (List.replicate (4 * level) ' ')

mutual

/-- The text of an outline whose first line is indented by `level`.  Every entry
ends in a comma. -/
def render (level : Nat) : Outline → String
  | .word s => s
  | .lines texts => (newline level).intercalate texts
  | .record name fields =>
    name ++ " \x7b" ++ renderFields (level + 1) fields ++ newline level ++ "\x7d"
  | .tuple name items =>
    name ++ "(" ++ renderItems (level + 1) items ++ newline level ++ ")"
  | .list [] => "[]"
  | .list items => "[" ++ renderItems (level + 1) items ++ newline level ++ "]"

def renderFields (level : Nat) : List (String × Outline) → String
  | [] => ""
  | (name, o) :: rest =>
    newline level ++ name ++ ": " ++ render level o ++ "," ++ renderFields level rest

def renderItems (level : Nat) : List Outline → String
  | [] => ""
  | o :: rest => newline level ++ render level o ++ "," ++ renderItems level rest

end

end Outline
end SymbolCoverage.Text
