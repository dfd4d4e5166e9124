import SymbolCoverage.Proofs.Json.Extent

/-!
The order of names.  In every value that is read the names of each object are ascending, and
members that are given in the order of their names are kept as they are.
-/

namespace SymbolCoverage.Json

variable {α β σ : Type} {text rest : List Char} {a : α}

/-- Values in which the names of every object are ascending. -/
inductive Value.Ordered : Value → Prop
  | null : Ordered .null
  | bool (b : Bool) : Ordered (.bool b)
  | number (n : Number) : Ordered (.number n)
  | string (s : String) : Ordered (.string s)
  | array {vs : List Value} : (∀ v ∈ vs, Ordered v) → Ordered (.array vs)
  | object {ms : Members} : (ms.map Prod.fst).Pairwise (· < ·) → (∀ m ∈ ms, Ordered m.2) →
    Ordered (.object ms)

namespace Value.Ordered

theorem elements {vs : List Value} (h : Ordered (.array vs)) : ∀ v ∈ vs, v.Ordered := by
  cases h with
  | array h => exact h

theorem names {ms : Members} (h : Ordered (.object ms)) :
    (ms.map Prod.fst).Pairwise (· < ·) := by
  cases h with
  | object h _ => exact h

theorem members {ms : Members} (h : Ordered (.object ms)) : ∀ m ∈ ms, m.2.Ordered := by
  cases h with
  | object _ h => exact h

end Value.Ordered

/-! ## Members that are given -/

namespace Members

theorem foldl_set_of_ascending {before ms : Members}
    (h : ((before ++ ms).map Prod.fst).Pairwise (· < ·)) :
    ms.foldl (fun ms m => ms.set m.1 m.2) before = before ++ ms := by
  induction ms generalizing before with
  | nil => rw [List.append_nil, List.foldl_nil]
  | cons m ms ih =>
    have hlast : ∀ n ∈ before, n.1 < m.1 := by
      rw [List.map_append, List.map_cons, List.pairwise_append] at h
      exact fun n hn => h.2.2 _ (List.mem_map_of_mem hn) _ List.mem_cons_self
    rw [List.foldl_cons, set_of_lt hlast, ih, List.append_assoc, List.singleton_append]
    rwa [List.append_assoc, List.singleton_append]

/-- Members that are given in the order of their names are kept as they are. -/
theorem ofGiven_of_ascending {ms : Members} (h : (ms.map Prod.fst).Pairwise (· < ·)) :
    ofGiven ms = ms :=
  @foldl_set_of_ascending [] ms h

variable {ms : Members} {name : String} {v : Value}

theorem mem_set {m : String × Value} (h : m ∈ ms.set name v) : m = (name, v) ∨ m ∈ ms := by
  induction ms with
  | nil => exact .inl (List.mem_singleton.mp h)
  | cons n ms ih =>
    rw [set] at h
    split_ifs at h
    · cases List.mem_cons.mp h with
      | inl h => exact .inr (List.mem_cons.mpr (.inl h))
      | inr h => exact (ih h).imp_right (List.mem_cons_of_mem n)
    · exact (List.mem_cons.mp h).imp_right (List.mem_cons_of_mem n)
    · exact List.mem_cons.mp h

theorem ascending_set (h : (ms.map Prod.fst).Pairwise (· < ·)) (name : String) (v : Value) :
    ((ms.set name v).map Prod.fst).Pairwise (· < ·) := by
  induction ms with
  | nil => exact List.pairwise_singleton _ _
  | cons n ms ih =>
    obtain ⟨hfirst, hrest⟩ := List.pairwise_cons.mp h
    rw [List.forall_mem_map] at hfirst
    rw [set]
    split_ifs with hlt heq
    · refine List.pairwise_cons.mpr ⟨List.forall_mem_map.mpr fun m hm => ?_, ih hrest⟩
      obtain rfl | hm := mem_set hm
      · exact hlt
      · exact hfirst m hm
    · exact List.pairwise_cons.mpr ⟨List.forall_mem_map.mpr (heq ▸ hfirst), hrest⟩
    · have hbefore : name < n.1 :=
        Std.lt_of_le_of_ne (String.not_lt.mp hlt) (Ne.symm heq)
      refine List.pairwise_cons.mpr ⟨List.forall_mem_cons.mpr ⟨hbefore, ?_⟩, h⟩
      exact List.forall_mem_map.mpr fun m hm => String.lt_trans hbefore (hfirst m hm)

end Members

theorem Value.Ordered.set {ms : Members} {v : Value} (h : Ordered (.object ms)) (hv : v.Ordered)
    (name : String) : Ordered (.object (ms.set name v)) := by
  refine .object (Members.ascending_set h.names name v) fun m hm => ?_
  obtain rfl | hm := Members.mem_set hm
  · exact hv
  · exact h.members m hm

/-! ## What readers give -/

/-- Whatever the reader takes off a text satisfies `P`. -/
def Reader.Gives (r : Reader α) (P : α → Prop) : Prop :=
  ∀ ⦃text a rest⦄, Reads r text a rest → P a

theorem Reader.Gives.map {r : Reader α} {P : α → Prop} {Q : β → Prop} {f : α → β}
    (hr : r.Gives P) (h : ∀ a, P a → Q (f a)) : (Reader.map f r).Gives Q := by
  intro text b rest hread
  obtain ⟨a, ha, rfl⟩ := hread.of_map
  exact h a (hr ha)

theorem gives_of_elementsFrom {element : Reader α} {P : α → Prop} (helement : element.Gives P)
    {whole : List Char} {first : Bool} {read : List α} {hle : text.length ≤ whole.length}
    {p : Parsed (List α) whole} (h : elementsFrom element whole first read text hle = .ok p)
    (hread : ∀ a ∈ read, P a) : ∀ a ∈ p.value, P a := by
  fun_induction elementsFrom element whole first read text hle with
  | case2 =>
    cases h
    exact fun a ha => hread a (List.mem_reverse.mp ha)
  | case4 first read text hle r hnext q hq _ _ ih =>
    exact ih h (List.forall_mem_cons.mpr ⟨helement (reads_of_eq_ok hq), hread⟩)
  | _ => cases h

theorem gives_elements {element : Reader α} {P : α → Prop} (helement : element.Gives P) :
    (elements element).Gives fun as => ∀ a ∈ as, P a := by
  intro text as rest h
  obtain ⟨_, hread⟩ := h
  exact gives_of_elementsFrom helement hread nofun

theorem gives_list {element : Reader α} {P : α → Prop} (helement : element.Gives P) :
    (list element).Gives fun as => ∀ a ∈ as, P a := by
  intro text as rest h
  obtain ⟨_, -, hread⟩ := h.of_startingWith
  exact gives_elements helement hread

theorem gives_of_membersFrom {step : σ → String → Except Failure (Reader σ)} {P : σ → Prop}
    (hstep : ∀ state s r, P state → step state s = .ok r → r.Gives P) {whole : List Char}
    {first : Bool} {state : σ} {hle : text.length ≤ whole.length} {p : Parsed σ whole}
    (h : membersFrom step whole first state text hle = .ok p) (hstate : P state) : P p.value := by
  fun_induction membersFrom step whole first state text hle with
  | case2 =>
    cases h
    exact hstate
  | case7 first state text hle r hnext name hname reader hreader colon hcolon q hq _ _ _ _ ih =>
    exact ih h (hstep _ _ _ hstate hreader (reads_of_eq_ok hq))
  | _ => cases h

theorem gives_members {step : σ → String → Except Failure (Reader σ)} {P : σ → Prop} {initial : σ}
    (hstep : ∀ state s r, P state → step state s = .ok r → r.Gives P) (hinitial : P initial) :
    (members step initial).Gives P := by
  intro text state rest h
  obtain ⟨_, hread⟩ := h
  exact gives_of_membersFrom hstep hread hinitial

theorem gives_elementAt {expected : String} {count : Nat} {element : Reader α} {P : α → Prop}
    (helement : element.Gives P) : (elementAt expected count element).Gives P := by
  intro text a rest h
  obtain ⟨_, -, hread⟩ := h.of_elementAt
  exact helement hread

theorem gives_pair {title : String} {first : Reader α} {second : Reader β} {P : α → Prop}
    {Q : β → Prop} (hfirst : first.Gives P) (hsecond : second.Gives Q) :
    (pair title first second).Gives fun p => P p.1 ∧ Q p.2 := by
  intro text ab rest h
  obtain ⟨_, -, _, hread⟩ := h.of_startingWith
  obtain ⟨a, ha, hread⟩ := bind_eq_ok.mp hread
  obtain ⟨b, hb, hread⟩ := bind_eq_ok.mp hread
  obtain ⟨_, -, hread⟩ := bind_eq_ok.mp hread
  cases hread
  exact ⟨gives_elementAt hfirst (reads_of_eq_ok ha), gives_elementAt hsecond (reads_of_eq_ok hb)⟩

namespace RecordForm

variable {form : RecordForm σ α} {P : σ → Prop}

theorem gives_of_step (hfields : ∀ f ∈ form.fields, ∀ state, P state → (f.read state).Gives P)
    {state : σ} {s : String} {r : Reader σ} (hstate : P state) (h : form.step state s = .ok r) :
    r.Gives P := by
  rw [step] at h
  split at h
  next f hf =>
    split at h
    next => cases h
    next =>
      cases h
      exact hfields f (List.mem_of_find?_eq_some hf) state hstate
  next =>
    cases h
    intro text state' rest hread
    obtain ⟨_, -, rfl⟩ := hread.of_map
    exact hstate

theorem gives_positional {expected : String} {fields : List (Field σ)}
    (hfields : ∀ f ∈ fields, ∀ state, P state → (f.read state).Gives P) (count : Nat) {state : σ}
    (hstate : P state) : (positional expected fields count state).Gives P := by
  induction fields generalizing count state with
  | nil =>
    intro text state' rest h
    obtain ⟨_, -, rfl⟩ := h.of_map
    exact hstate
  | cons f fields ih =>
    intro text state' rest h
    rw [List.forall_mem_cons] at hfields
    obtain ⟨hlt, hread⟩ := h
    rw [positional] at hread
    simp only at hread
    split at hread
    next => cases hread
    next p hp =>
      obtain ⟨q, hq, hafter⟩ := map_eq_ok.mp hread
      cases hafter
      have hstate' := gives_elementAt (hfields.1 state hstate) (reads_of_eq_ok hp)
      exact ih hfields.2 (count + 1) hstate' (reads_of_eq_ok hq)

/-- What every field keeps holds of all that has been read when the record is put together. -/
theorem gives_read (hfields : ∀ f ∈ form.fields, ∀ state, P state → (f.read state).Gives P)
    (hinitial : P form.initial) :
    form.read.Gives fun a => ∃ state, P state ∧ form.finish state = .ok a := by
  intro text a rest h
  obtain ⟨hlt, hread⟩ := h
  rw [read] at hread
  split at hread
  next => cases hread
  next p hnext =>
    split_ifs at hread with hbracket hbrace
    all_goals
      obtain ⟨q, hq, hafter⟩ := map_eq_ok.mp hread
      cases hafter
      obtain ⟨state, hstate, hfinish⟩ := reads_of_finishing (reads_of_eq_ok hq)
    · exact ⟨state, gives_positional hfields 0 hinitial hstate, hfinish⟩
    · refine ⟨state, gives_members ?_ hinitial hstate, hfinish⟩
      exact fun _ _ _ => gives_of_step hfields

end RecordForm

/-! ## Values that are read are ordered -/

theorem gives_valueWith {array object : Reader Value} (harray : array.Gives Value.Ordered)
    (hobject : object.Gives Value.Ordered) : (valueWith array object).Gives Value.Ordered := by
  intro text v rest h
  obtain ⟨hlt, hread⟩ := h
  rw [valueWith] at hread
  split at hread
  next => cases hread
  next p hnext =>
    simp only at hread
    split_ifs at hread with hn ht hf hquote hminus hdigit hbracket hbrace
    all_goals
      obtain ⟨q, hq, hafter⟩ := map_eq_ok.mp hread
      cases hafter
    · exact .null
    · exact .bool true
    · exact .bool false
    · exact .string _
    · exact .number _
    · exact .number _
    · exact harray (reads_of_eq_ok hq)
    · exact hobject (reads_of_eq_ok hq)

theorem gives_value (levels : Nat) : (value levels).Gives Value.Ordered := by
  induction levels with
  | zero =>
    apply gives_valueWith
    all_goals
      intro text v rest h
      obtain ⟨_, hfail⟩ := h
      cases hfail
  | succ levels ih =>
    apply gives_valueWith
    · exact (gives_elements ih).map fun _ => .array
    · refine Reader.Gives.map (P := fun ms => (Value.object ms).Ordered) ?_ fun _ => id
      refine gives_members ?_ (.object .nil nofun)
      intro ms s r hms hr
      cases hr
      exact ih.map fun v hv => hms.set hv s

theorem ordered_of_readValue {s : String} {v : Value} (h : readValue s = .ok v) : v.Ordered := by
  obtain ⟨rest, hread⟩ := reads_of_readAll h
  exact gives_value nestingLimit hread

end SymbolCoverage.Json
