/-!
The path of a symbol: the segments of its qualified name, outermost first.
-/

namespace SymbolCoverage.Symbol

structure Path where
  segments : List String
deriving DecidableEq

namespace Path

/-- The segments with `separator` between neighbours.  A segment may hold the
separator itself. -/
def joined (p : Path) (separator : String) : String :=
  separator.intercalate p.segments

def display (p : Path) : String := p.joined "::"

/-- Paths are ordered segment by segment, a path before its extensions. -/
instance : Ord Path := ⟨compareOn segments⟩

instance : Std.TransOrd Path := inferInstanceAs (Std.TransCmp (compareOn segments))

instance : Std.LawfulEqOrd Path where
  eq_of_compare {a b} h := by
    have hs : a.segments = b.segments := Std.LawfulEqOrd.eq_of_compare h
    cases a; cases b; cases hs; rfl

end Path
end SymbolCoverage.Symbol
