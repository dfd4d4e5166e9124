/-!
Working on all elements of a list, one after the other or side by side.
-/

namespace SymbolCoverage

variable {α β ε : Type}

/-- The results for all elements, in their order.  Side by side, each element is a
task of its own. -/
def batch (parallel : Bool) (f : α → β) (xs : List α) : List β :=
  if parallel then (xs.map fun x => Task.spawn fun _ => f x).map Task.get else xs.map f

theorem batch_eq_map (parallel : Bool) (f : α → β) (xs : List α) :
    batch parallel f xs = xs.map f := by
  cases parallel
  · rfl
  · simp [batch, Function.comp_def, Task.spawn]

/-- All results, or the first error among them. -/
def collect : List (Except ε α) → Except ε (List α)
  | [] => .ok []
  | .error e :: _ => .error e
  | .ok a :: rest => (collect rest).map (a :: ·)

end SymbolCoverage
