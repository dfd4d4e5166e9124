import SymbolCoverage.Symbol.Hash
import SymbolCoverage.Symbol.Key

/-!
The orders in which reports list things, in terms of the texts alone: strings and
hashes by their characters, paths segment by segment, and paths before raw symbols.
-/

namespace SymbolCoverage.Symbol

theorem compare_string_eq_lt {s t : String} : compare s t = .lt ↔ s < t :=
  compareOfLessAndEq_eq_lt

theorem compare_segments_eq_lt {xs ys : List String} : compare xs ys = .lt ↔ xs < ys := by
  induction xs generalizing ys with
  | nil =>
    cases ys with
    | nil => exact iff_of_false nofun (List.not_lt_nil _)
    | cons y ys => exact iff_of_true rfl (List.nil_lt_cons y ys)
  | cons x xs ih =>
    cases ys with
    | nil => exact iff_of_false nofun (List.not_lt_nil _)
    | cons y ys =>
      show (x :: xs).compareLex compare (y :: ys) = .lt ↔ _
      rw [List.compareLex_cons_cons, Ordering.then_eq_lt, compare_string_eq_lt,
        Std.compare_eq_iff_eq, List.cons_lt_cons_iff]
      exact or_congr_right (and_congr_right fun _ => ih)

theorem Hash.compare_eq_lt {h k : Hash} : compare h k = .lt ↔ h.digits < k.digits :=
  compare_string_eq_lt

namespace Key

def Precedes : Key → Key → Prop
  | .path p, .path q => p.segments < q.segments
  | .path _, .raw _ => True
  | .raw _, .path _ => False
  | .raw s, .raw t => s < t

theorem compare_eq_lt {k l : Key} : compare k l = .lt ↔ k.Precedes l := by
  cases k with
  | path p =>
    cases l with
    | path q => exact compare_segments_eq_lt
    | raw t => exact iff_of_true rfl trivial
  | raw s =>
    cases l with
    | path q => exact iff_of_false nofun id
    | raw t => exact compare_string_eq_lt

theorem Precedes.ne {k l : Key} (h : k.Precedes l) : k ≠ l := by
  intro heq
  have hself : compare l l = .eq := Std.ReflCmp.compare_self
  rw [← compare_eq_lt, heq, hself] at h
  cases h

end Key
end SymbolCoverage.Symbol
