import SymbolCoverage.Coverage.Batch
import SymbolCoverage.Proofs.First

/-!
Results of steps that may fail: when a mapped result and a collected list of
results succeed, and which failure is returned otherwise.
-/

namespace SymbolCoverage

variable {α β ε : Type}

theorem map_eq_ok {x : Except ε α} {f : α → β} {b : β} :
    x.map f = .ok b ↔ ∃ a, x = .ok a ∧ f a = b := by
  cases x with
  | error e => simp [Except.map]
  | ok a => simp [Except.map]

theorem map_eq_error {x : Except ε α} {f : α → β} {e : ε} :
    x.map f = .error e ↔ x = .error e := by
  cases x with
  | error e => simp [Except.map]
  | ok a => simp [Except.map]

theorem bind_eq_ok {x : Except ε α} {f : α → Except ε β} {b : β} :
    x.bind f = .ok b ↔ ∃ a, x = .ok a ∧ f a = .ok b := by
  cases x with
  | error e => simp [Except.bind]
  | ok a => simp [Except.bind]

theorem bind_eq_error {x : Except ε α} {f : α → Except ε β} {e : ε} :
    x.bind f = .error e ↔ x = .error e ∨ ∃ a, x = .ok a ∧ f a = .error e := by
  cases x with
  | error e => simp [Except.bind]
  | ok a => simp [Except.bind]

theorem toOption_eq_some {x : Except ε α} {a : α} : x.toOption = some a ↔ x = .ok a := by
  cases x with
  | error e => simp [Except.toOption]
  | ok a' => simp [Except.toOption]

/-- The failure that a result is. -/
def failure? : Except ε α → Option ε
  | .error e => some e
  | .ok _ => none

theorem failure?_eq_some {x : Except ε α} {e : ε} : failure? x = some e ↔ x = .error e := by
  cases x with
  | error e' => simp [failure?]
  | ok a => simp [failure?]

/-! ## Collected results -/

/-- A pass through a list that stops at the first failure collects the results. -/
theorem mapM_eq_collect (f : α → Except ε β) (xs : List α) :
    xs.mapM f = collect (xs.map f) := by
  induction xs with
  | nil => rfl
  | cons x xs ih =>
    rw [List.mapM_cons, List.map_cons, ih]
    cases f x with
    | error e => rfl
    | ok y =>
      show (collect (xs.map f)).bind _ = (collect (xs.map f)).map _
      cases collect (xs.map f) with
      | error e => rfl
      | ok ys => rfl

theorem exists_collect_ok {f : α → Except ε β} {xs : List α} (h : ∀ x ∈ xs, ∃ y, f x = .ok y) :
    ∃ ys, collect (xs.map f) = .ok ys := by
  induction xs with
  | nil => exact ⟨[], rfl⟩
  | cons x xs ih =>
    rw [List.forall_mem_cons] at h
    obtain ⟨y, hy⟩ := h.1
    obtain ⟨ys, hys⟩ := ih h.2
    refine ⟨y :: ys, ?_⟩
    rw [List.map_cons, hy, collect, hys]
    rfl

/-- The first failure is returned. -/
theorem collect_map_error {f : α → Except ε β} {P : α → Prop} {xs before : List α} {x : α} {e : ε}
    (h : IsFirst P xs before x) (hok : ∀ y, ¬ P y → ∃ b, f y = .ok b) (hx : f x = .error e) :
    collect (xs.map f) = .error e := by
  obtain ⟨⟨after, rfl⟩, hbefore, -⟩ := h
  induction before with
  | nil => rw [List.nil_append, List.map_cons, hx, collect]
  | cons y before ih =>
    rw [List.forall_mem_cons] at hbefore
    obtain ⟨b, hb⟩ := hok y hbefore.1
    rw [List.cons_append, List.map_cons, hb, collect, ih hbefore.2]
    rfl

/-- A collected list holds the results of all elements. -/
theorem collect_map_eq_ok {f : α → Except ε β} {xs : List α} {ys : List β}
    (h : collect (xs.map f) = .ok ys) : List.Forall₂ (fun x y => f x = .ok y) xs ys := by
  induction xs generalizing ys with
  | nil =>
    cases h
    exact .nil
  | cons x xs ih =>
    rw [List.map_cons] at h
    cases hx : f x with
    | error e =>
      rw [hx] at h
      cases h
    | ok y =>
      rw [hx, collect, map_eq_ok] at h
      obtain ⟨rest, hrest, rfl⟩ := h
      exact .cons hx (ih hrest)

end SymbolCoverage
