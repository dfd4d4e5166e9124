import SymbolCoverage.Symbol.Path

/-!
The key under which a symbol is indexed and reported: its path if it has one,
else the symbol itself.
-/

namespace SymbolCoverage.Symbol

inductive Key
  | path (path : Path)
  | raw (text : String)
deriving DecidableEq

namespace Key

def display : Key → String
  | .path p => p.display
  | .raw text => text

/-- Paths come before raw symbols. -/
protected def compare : Key → Key → Ordering
  | .path p, .path q => Ord.compare p q
  | .path _, .raw _ => .lt
  | .raw _, .path _ => .gt
  | .raw r, .raw s => Ord.compare r s

instance : Ord Key := ⟨Key.compare⟩

instance : Std.TransOrd Key where
  eq_swap {a b} :=
    match a, b with
    | .path p, .path q => (Std.OrientedCmp.eq_swap : compare p q = (compare q p).swap)
    | .path _, .raw _ => rfl
    | .raw _, .path _ => rfl
    | .raw r, .raw s => (Std.OrientedCmp.eq_swap : compare r s = (compare s r).swap)
  isLE_trans {a b c} h₁ h₂ :=
    match a, b, c, h₁, h₂ with
    | .path p, .path q, .path r, h₁, h₂ =>
      (Std.TransCmp.isLE_trans h₁ h₂ : (compare p r).isLE = true)
    | .path _, _, .raw _, _, _ => rfl
    | .raw p, .raw q, .raw r, h₁, h₂ =>
      (Std.TransCmp.isLE_trans h₁ h₂ : (compare p r).isLE = true)
    | .raw _, .path _, _, h₁, _ => by cases h₁
    | _, .raw _, .path _, _, h₂ => by cases h₂

instance : Std.LawfulEqOrd Key where
  eq_of_compare {a b} h :=
    match a, b, h with
    | .path _, .path _, h => congrArg Key.path (Std.LawfulEqOrd.eq_of_compare h)
    | .raw _, .raw _, h => congrArg Key.raw (Std.LawfulEqOrd.eq_of_compare h)
    | .path _, .raw _, h => by cases h
    | .raw _, .path _, h => by cases h

end Key
end SymbolCoverage.Symbol
