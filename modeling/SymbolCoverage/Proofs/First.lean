import Mathlib.Data.List.Forall2

/-!
First elements.  `IsFirst` says which element of a list is the first of a kind, and
`ComesFirst` that the first element of one kind stands before all of another.
-/

namespace SymbolCoverage

variable {α β : Type} {P Q : α → Prop}

/-- `x` stands in `xs` behind `before`, and is the first element that satisfies `P`. -/
def IsFirst (P : α → Prop) (xs before : List α) (x : α) : Prop :=
  (∃ after, xs = before ++ x :: after) ∧ (∀ y ∈ before, ¬ P y) ∧ P x

theorem IsFirst.mem {xs before : List α} {x : α} (h : IsFirst P xs before x) :
    x ∈ xs := by
  obtain ⟨⟨after, rfl⟩, -, -⟩ := h
  simp

theorem IsFirst.cons {xs before : List α} {x y : α} (hy : ¬ P y)
    (h : IsFirst P xs before x) : IsFirst P (y :: xs) (y :: before) x := by
  obtain ⟨⟨after, rfl⟩, hbefore, hx⟩ := h
  exact ⟨⟨after, rfl⟩, List.forall_mem_cons.mpr ⟨hy, hbefore⟩, hx⟩

theorem isFirst_head {x : α} (hx : P x) (xs : List α) :
    IsFirst P (x :: xs) [] x :=
  ⟨⟨xs, rfl⟩, by simp, hx⟩

/-- Where there is an element of a kind, there is a first one. -/
theorem exists_isFirst {xs : List α} (h : ∃ x ∈ xs, P x) :
    ∃ before x, IsFirst P xs before x := by
  induction xs with
  | nil =>
    obtain ⟨x, hx, -⟩ := h
    cases hx
  | cons y ys ih =>
    by_cases hy : P y
    · exact ⟨[], y, isFirst_head hy ys⟩
    · obtain ⟨x, hx, hPx⟩ := h
      rcases List.mem_cons.mp hx with rfl | hx
      · exact absurd hPx hy
      · obtain ⟨before, z, hz⟩ := ih ⟨x, hx, hPx⟩
        exact ⟨y :: before, z, hz.cons hy⟩

/-- Leaving out elements of another kind leaves the first one the first. -/
theorem IsFirst.filter {xs before : List α} {x : α} {p : α → Bool} (h : IsFirst P xs before x)
    (hp : ∀ y, P y → p y = true) : IsFirst P (xs.filter p) (before.filter p) x := by
  obtain ⟨⟨after, rfl⟩, hbefore, hx⟩ := h
  refine ⟨⟨after.filter p, ?_⟩, fun y hy => hbefore y (List.mem_of_mem_filter hy), hx⟩
  rw [List.filter_append, List.filter_cons_of_pos (hp x hx)]

theorem IsFirst.map {Q : β → Prop} {xs before : List α} {x : α} {f : α → β}
    (h : IsFirst P xs before x) (hf : ∀ y, Q (f y) ↔ P y) :
    IsFirst Q (xs.map f) (before.map f) (f x) := by
  obtain ⟨⟨after, rfl⟩, hbefore, hx⟩ := h
  refine ⟨⟨after.map f, by rw [List.map_append, List.map_cons]⟩, ?_, (hf x).mpr hx⟩
  intro y hy
  obtain ⟨z, hz, rfl⟩ := List.mem_map.mp hy
  exact fun hQ => hbefore z hz ((hf z).mp hQ)

/-! ## Two kinds -/

/-- The first element that satisfies `P` has no element that satisfies `Q` before it. -/
def ComesFirst (P Q : α → Prop) (xs : List α) : Prop :=
  ∃ before x, IsFirst P xs before x ∧ ∀ y ∈ before, ¬ Q y

theorem ComesFirst.append {xs : List α} (h : ComesFirst P Q xs) (ys : List α) :
    ComesFirst P Q (xs ++ ys) := by
  obtain ⟨before, x, ⟨⟨after, rfl⟩, hbefore, hx⟩, hQ⟩ := h
  refine ⟨before, x, ⟨⟨after ++ ys, ?_⟩, hbefore, hx⟩, hQ⟩
  rw [List.append_assoc, List.cons_append]

theorem comesFirst_of_forall_not {xs : List α} (hP : ∃ x ∈ xs, P x) (hQ : ∀ x ∈ xs, ¬ Q x) :
    ComesFirst P Q xs := by
  obtain ⟨before, x, hx⟩ := exists_isFirst hP
  refine ⟨before, x, hx, fun y hy => hQ y ?_⟩
  obtain ⟨⟨after, rfl⟩, -, -⟩ := hx
  exact List.mem_append_left _ hy

theorem ComesFirst.cons {xs : List α} {y : α} (hP : ¬ P y) (hQ : ¬ Q y)
    (h : ComesFirst P Q xs) : ComesFirst P Q (y :: xs) := by
  obtain ⟨before, x, hx, hbefore⟩ := h
  exact ⟨y :: before, x, hx.cons hP, List.forall_mem_cons.mpr ⟨hQ, hbefore⟩⟩

/-- Behind elements without `P`, there is no `Q` among these. -/
theorem ComesFirst.of_append {xs ys : List α} (hxs : ∀ x ∈ xs, ¬ P x)
    (h : ComesFirst P Q (xs ++ ys)) : (∀ x ∈ xs, ¬ Q x) ∧ ComesFirst P Q ys := by
  induction xs with
  | nil => exact ⟨by simp, h⟩
  | cons x xs ih =>
    rw [List.forall_mem_cons] at hxs
    obtain ⟨before, y, ⟨⟨after, heq⟩, hbefore, hy⟩, hQ⟩ := h
    cases before with
    | nil =>
      rw [List.nil_append, List.cons_append] at heq
      cases heq
      exact absurd hy hxs.1
    | cons z before =>
      rw [List.cons_append, List.cons_append, List.cons.injEq] at heq
      obtain ⟨rfl, heq⟩ := heq
      rw [List.forall_mem_cons] at hbefore hQ
      obtain ⟨hnot, hrest⟩ := ih hxs.2 ⟨before, y, ⟨⟨after, heq⟩, hbefore.2, hy⟩, hQ.2⟩
      exact ⟨List.forall_mem_cons.mpr ⟨hQ.1, hnot⟩, hrest⟩

/-- What comes first in the lists that the elements stand for comes first among the
elements. -/
theorem ComesFirst.of_flatten {R : β → List α → Prop} {P' Q' : β → Prop} {xs : List β}
    {yss : List (List α)} (hR : List.Forall₂ R xs yss)
    (hP : ∀ x ys, R x ys → (P' x ↔ ∃ y ∈ ys, P y)) (hQ : ∀ x ys, R x ys → Q' x → ∃ y ∈ ys, Q y)
    (h : ComesFirst P Q yss.flatten) : ComesFirst P' Q' xs := by
  induction hR with
  | nil =>
    obtain ⟨before, y, hy, -⟩ := h
    cases hy.mem
  | @cons x ys xs yss hxys _ ih =>
    by_cases hx : P' x
    · exact ⟨[], x, isFirst_head hx xs, by simp⟩
    · have hnone : ∀ y ∈ ys, ¬ P y := fun y hy hPy => hx ((hP x ys hxys).mpr ⟨y, hy, hPy⟩)
      obtain ⟨hnot, hrest⟩ := h.of_append hnone
      refine (ih hrest).cons hx fun hQx => ?_
      obtain ⟨y, hy, hQy⟩ := hQ x ys hxys hQx
      exact hnot y hy hQy

/-- What comes first among the values of a list comes first among the elements that have
them. -/
theorem ComesFirst.of_filterMap {f : β → Option α} {P' Q' : β → Prop} {xs : List β}
    (hP : ∀ x, P' x ↔ ∃ y, f x = some y ∧ P y) (hQ : ∀ x, Q' x → ∃ y, f x = some y ∧ Q y)
    (h : ComesFirst P Q (xs.filterMap f)) : ComesFirst P' Q' xs := by
  rw [List.filterMap_eq_flatMap_toList, List.flatMap_def] at h
  have hvalues : List.Forall₂ (fun x ys => ys = (f x).toList) xs
      (xs.map fun x => (f x).toList) := by
    rw [List.forall₂_map_right_iff, List.forall₂_same]
    exact fun _ _ => rfl
  refine h.of_flatten hvalues ?_ ?_
  · rintro x _ rfl
    simp only [hP, Option.mem_toList]
  · rintro x _ rfl hx
    simpa only [Option.mem_toList] using hQ x hx

theorem mem_flatten_iff {R : β → List α → Prop} {P : β → Prop} {xs : List β}
    {yss : List (List α)} {y : α} (hR : List.Forall₂ R xs yss)
    (h : ∀ x ys, R x ys → (y ∈ ys ↔ P x)) : y ∈ yss.flatten ↔ ∃ x ∈ xs, P x := by
  induction hR with
  | nil => simp
  | cons hxys _ ih => rw [List.flatten_cons, List.mem_append, h _ _ hxys, ih,
      List.exists_mem_cons_iff]

end SymbolCoverage
