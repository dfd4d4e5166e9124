import SymbolCoverage.Json.Record
import SymbolCoverage.Proofs.Json.Syntax

/-!
What a reader takes off the front of a text is one JSON value, whatever the reader makes
of it.  So readers that succeed at the same place stop at the same place.
-/

namespace SymbolCoverage.Json

variable {α β σ : Type} {text rest : List Char} {c : Char} {a : α}

/-- Where the reader succeeds it takes a whole value, blanks before it skipped. -/
def Reader.TakesValue (r : Reader α) : Prop :=
  ∀ {text a rest}, Reads r text a rest → ∃ start, Blanks text start ∧ Formed .value start rest

theorem Reader.TakesValue.rest_eq {r : Reader α} {start rest' : List Char} (hr : r.TakesValue)
    (hread : Reads r text a rest) (hblanks : Blanks text start)
    (hformed : Formed .value start rest') : rest = rest' := by
  obtain ⟨_, hblanks', hformed'⟩ := hr hread
  exact hformed'.unique hblanks' hblanks hformed

theorem Reader.TakesValue.map {r : Reader α} (hr : r.TakesValue) (f : α → β) :
    (Reader.map f r).TakesValue := by
  intro text b rest h
  obtain ⟨a, ha, -⟩ := h.of_map
  exact hr ha

theorem takesValue_skip : skip.TakesValue := fun h => reads_skip_iff.mp h

/-! ## What starts with a given character -/

theorem Reads.of_startingWith {body : Reader α} {expected : String}
    (h : Reads (startingWith c body expected) text a rest) :
    ∃ tail, Blanks text (c :: tail) ∧ Reads body tail a rest := by
  obtain ⟨hlt, hread⟩ := h
  rw [startingWith] at hread
  split at hread
  next p hnext =>
    split at hread
    next hc =>
      obtain ⟨q, hq, hafter⟩ := map_eq_ok.mp hread
      cases hafter
      exact ⟨p.rest, hc ▸ (blanks_of_next hnext).1, reads_of_eq_ok hq⟩
    next => cases hread
  next => cases hread

theorem takesValue_string : string.TakesValue := by
  intro text s rest h
  obtain ⟨tail, hblanks, hread⟩ := h.of_startingWith
  exact ⟨_, hblanks, formed_string (reads_literal_iff.mp hread)⟩

/-! ## Arrays -/

theorem blanks_of_nextElement {first : Bool} {hlt : rest.length < text.length}
    (h : nextElement first text = .ok (.close rest hlt)) : Blanks text (']' :: rest) := by
  rw [nextElement] at h
  split at h
  next => cases h
  next p hnext =>
    split_ifs at h with hclose
    · cases h
      exact hclose ▸ (blanks_of_next hnext).1
    · cases h
    · split at h
      next => cases h
      next =>
        split_ifs at h
        cases h

theorem separated_of_nextElement {first : Bool} {r : Remaining text}
    (h : nextElement first text = .ok (.entry r)) : Separated first text r.rest := by
  rw [nextElement] at h
  split at h
  next => cases h
  next p hnext =>
    split_ifs at h with hclose hfirst hcomma
    · cases h
    · cases h
      rw [hfirst]
      exact .first
    · split at h
      next => cases h
      next q _ =>
        split_ifs at h
        cases h
        rw [Bool.eq_false_iff.mpr hfirst]
        exact .next (hcomma ▸ (blanks_of_next hnext).1)

theorem formed_of_elementsFrom {element : Reader α} (helement : element.TakesValue)
    {whole : List Char} {first : Bool} {read : List α} {hle : text.length ≤ whole.length}
    {p : Parsed (List α) whole} (h : elementsFrom element whole first read text hle = .ok p) :
    Formed (.entries .array first) text p.rest := by
  fun_induction elementsFrom element whole first read text hle with
  | case1 => cases h
  | case2 first read text hle rest hlt hnext =>
    cases h
    exact .close (blanks_of_nextElement hnext)
  | case3 => cases h
  | case4 first read text hle r hnext q hread _ _ ih =>
    obtain ⟨start, hblanks, hformed⟩ := helement (reads_of_eq_ok hread)
    exact .entry (separated_of_nextElement hnext) .array hblanks hformed (ih h)

theorem takesValue_list {element : Reader α} (helement : element.TakesValue) :
    (list element).TakesValue := by
  intro text as rest h
  obtain ⟨tail, hblanks, hlt, hread⟩ := h.of_startingWith
  have hentries := formed_of_elementsFrom helement hread
  exact ⟨_, hblanks, hentries.array⟩

/-! ## Objects -/

theorem blanks_of_nextName {first : Bool} {hlt : rest.length < text.length}
    (h : nextName first text = .ok (.close rest hlt)) : Blanks text ('\x7d' :: rest) := by
  rw [nextName] at h
  split at h
  next => cases h
  next p hnext =>
    split_ifs at h with hclose
    · cases h
      exact hclose ▸ (blanks_of_next hnext).1
    · cases h
    · split at h
      next => cases h
      next =>
        split_ifs at h
        cases h

theorem separated_of_nextName {first : Bool} {r : Remaining text}
    (h : nextName first text = .ok (.entry r)) :
    ∃ before, Separated first text before ∧ Blanks before ('"' :: r.rest) := by
  rw [nextName] at h
  split at h
  next => cases h
  next p hnext =>
    split_ifs at h with hclose hfirst hquote hcomma
    · cases h
    · cases h
      rw [hfirst]
      exact ⟨text, .first, hquote ▸ (blanks_of_next hnext).1⟩
    · split at h
      next => cases h
      next q hnext' =>
        split_ifs at h with hquote
        cases h
        rw [Bool.eq_false_iff.mpr hfirst]
        exact ⟨p.rest, .next (hcomma ▸ (blanks_of_next hnext).1),
          hquote ▸ (blanks_of_next hnext').1⟩

theorem formed_of_membersFrom {step : σ → String → Except Failure (Reader σ)}
    (hstep : ∀ state s r, step state s = .ok r → r.TakesValue) {whole : List Char} {first : Bool}
    {state : σ} {hle : text.length ≤ whole.length} {p : Parsed σ whole}
    (h : membersFrom step whole first state text hle = .ok p) :
    Formed (.entries .object first) text p.rest := by
  fun_induction membersFrom step whole first state text hle with
  | case2 first state text hle rest hlt hnext =>
    cases h
    exact .close (blanks_of_nextName hnext)
  | case7 first state text hle r hnext name hname reader hreader colon hcolon q hread _ _ _ _ ih =>
    obtain ⟨before, hseparated, hquote⟩ := separated_of_nextName hnext
    obtain ⟨s, hs⟩ := (reads_literal_iff.mp (reads_of_eq_ok hname)).exists_free
    obtain ⟨start, hblanks, hformed⟩ := hstep _ _ _ hreader (reads_of_eq_ok hread)
    have hentered := Entered.object hquote hs (blanks_of_reads_token (reads_of_eq_ok hcolon))
    exact .entry hseparated hentered hblanks hformed (ih h)
  | _ => cases h

/-! ## Values -/

theorem eq_append_of_giving {b : α} {word tail : List Char} {hlt : tail.length < text.length}
    {h : rest.length < text.length} (hread : (letters word tail).map (·.giving a hlt) =
      .ok (⟨b, rest, h⟩ : Parsed α text)) : tail = word ++ rest := by
  obtain ⟨r, hr, hgiving⟩ := map_eq_ok.mp hread
  cases hgiving
  exact eq_append_of_letters hr

theorem takesValue_valueWith {array object : Reader Value}
    (harray : ∀ {text v rest}, Reads array text v rest → Formed (.entries .array true) text rest)
    (hobject : ∀ {text v rest}, Reads object text v rest →
      Formed (.entries .object true) text rest) :
    (valueWith array object).TakesValue := by
  intro text v rest h
  obtain ⟨hlt, hread⟩ := h
  rw [valueWith] at hread
  split at hread
  next => cases hread
  next p hnext =>
    refine ⟨p.value :: p.rest, (blanks_of_next hnext).1, ?_⟩
    simp only at hread
    split_ifs at hread with hn ht hf hquote hminus hdigit hbracket hbrace
    · rw [hn, eq_append_of_giving hread]
      exact .scalar .null
    · rw [ht, eq_append_of_giving hread]
      exact .scalar .isTrue
    · rw [hf, eq_append_of_giving hread]
      exact .scalar .isFalse
    · obtain ⟨q, hq, hafter⟩ := map_eq_ok.mp hread
      cases hafter
      rw [hquote]
      exact formed_string (reads_literal_iff.mp (reads_of_eq_ok hq))
    · obtain ⟨q, hq, hafter⟩ := map_eq_ok.mp hread
      cases hafter
      obtain ⟨n, hn, -⟩ := reads_number_iff.mp (reads_of_eq_ok hq)
      rw [hminus]
      exact .scalar (.negative hn)
    · obtain ⟨q, hq, hafter⟩ := map_eq_ok.mp hread
      cases hafter
      obtain ⟨n, hn, -⟩ := reads_number_iff.mp (reads_of_eq_ok hq)
      exact .scalar (.natural hn)
    · obtain ⟨q, hq, hafter⟩ := map_eq_ok.mp hread
      cases hafter
      rw [hbracket]
      exact (harray (reads_of_eq_ok hq)).array
    · obtain ⟨q, hq, hafter⟩ := map_eq_ok.mp hread
      cases hafter
      rw [hbrace]
      exact (hobject (reads_of_eq_ok hq)).object

theorem takesValue_value (levels : Nat) : (value levels).TakesValue := by
  induction levels with
  | zero =>
    apply takesValue_valueWith
    all_goals
      intro text v rest h
      obtain ⟨_, hfail⟩ := h
      cases hfail
  | succ levels ih =>
    apply takesValue_valueWith
    · intro text v rest h
      obtain ⟨vs, ⟨_, hread⟩, -⟩ := h.of_map
      exact formed_of_elementsFrom ih hread
    · intro text v rest h
      obtain ⟨ms, ⟨_, hread⟩, -⟩ := h.of_map
      refine formed_of_membersFrom ?_ hread
      intro ms name r hr
      cases hr
      exact ih.map _

/-! ## Pairs and records -/

theorem Reads.of_elementAt {expected : String} {count : Nat} {element : Reader α}
    (h : Reads (elementAt expected count element) text a rest) :
    ∃ before, Separated (count == 0) text before ∧ Reads element before a rest := by
  obtain ⟨hlt, hread⟩ := h
  rw [elementAt] at hread
  split at hread
  next => cases hread
  next => cases hread
  next r hnext =>
    obtain ⟨p, hp, hwithin⟩ := map_eq_ok.mp hread
    cases hwithin
    exact ⟨r.rest, separated_of_nextElement hnext, reads_of_eq_ok hp⟩

/-- An element in front of formed elements makes formed elements. -/
theorem Reads.formed_elementAt {expected : String} {count : Nat} {element : Reader α}
    {after : List Char} (h : Reads (elementAt expected count element) text a after)
    (helement : element.TakesValue) (hentries : Formed (.entries .array false) after rest) :
    Formed (.entries .array (count == 0)) text rest := by
  obtain ⟨before, hseparated, hread⟩ := h.of_elementAt
  obtain ⟨start, hblanks, hformed⟩ := helement hread
  exact .entry hseparated .array hblanks hformed hentries

theorem takesValue_pair {title : String} {first : Reader α} {second : Reader β}
    (hfirst : first.TakesValue) (hsecond : second.TakesValue) :
    (pair title first second).TakesValue := by
  intro text ab rest h
  obtain ⟨tail, hblanks, hlt, hread⟩ := h.of_startingWith
  obtain ⟨a, ha, hread⟩ := bind_eq_ok.mp hread
  obtain ⟨b, hb, hread⟩ := bind_eq_ok.mp hread
  obtain ⟨close, hclose, hread⟩ := bind_eq_ok.mp hread
  cases hread
  have hend := blanks_of_reads_token (reads_of_eq_ok hclose)
  have hentries := (reads_of_eq_ok hb).formed_elementAt hsecond (.close hend)
  exact ⟨_, hblanks, ((reads_of_eq_ok ha).formed_elementAt hfirst hentries).array⟩

namespace RecordForm

variable {form : RecordForm σ α}

/-- All fields of the record are read from whole values. -/
def FieldsTakeValues (form : RecordForm σ α) : Prop :=
  ∀ f ∈ form.fields, ∀ state, (f.read state).TakesValue

theorem takesValue_of_step (hfields : form.FieldsTakeValues) {state : σ} {s : String}
    {r : Reader σ} (h : form.step state s = .ok r) : r.TakesValue := by
  rw [step] at h
  split at h
  next f hf =>
    split at h
    next => cases h
    next =>
      cases h
      exact hfields f (List.mem_of_find?_eq_some hf) state
  next =>
    cases h
    exact takesValue_skip.map _

theorem formed_of_positional {expected : String} {fields : List (Field σ)}
    (hfields : ∀ f ∈ fields, ∀ state, (f.read state).TakesValue) {count : Nat} {state state' : σ}
    (h : Reads (positional expected fields count state) text state' rest) :
    Formed (.entries .array (count == 0)) text rest := by
  induction fields generalizing count state text with
  | nil =>
    obtain ⟨u, hclose, -⟩ := h.of_map
    exact .close (blanks_of_reads_token hclose)
  | cons f fields ih =>
    rw [List.forall_mem_cons] at hfields
    obtain ⟨hlt, hread⟩ := h
    rw [positional] at hread
    simp only at hread
    split at hread
    next => cases hread
    next p hp =>
      obtain ⟨q, hq, hafter⟩ := map_eq_ok.mp hread
      cases hafter
      exact (reads_of_eq_ok hp).formed_elementAt (hfields.1 state)
        (ih hfields.2 (reads_of_eq_ok hq))

theorem reads_of_finishing {fields : Reader σ} (h : Reads (form.finishing fields) text a rest) :
    ∃ state, Reads fields text state rest ∧ form.finish state = .ok a := by
  obtain ⟨hlt, hread⟩ := h
  obtain ⟨p, hp, hread⟩ := bind_eq_ok.mp hread
  obtain ⟨b, hb, hread⟩ := bind_eq_ok.mp hread
  cases hread
  refine ⟨p.value, reads_of_eq_ok hp, ?_⟩
  rw [finished] at hb
  cases hfinish : form.finish p.value with
  | error e =>
    rw [hfinish] at hb
    cases hb
  | ok b' =>
    rw [hfinish] at hb
    cases hb
    rfl

theorem takesValue_read (hfields : form.FieldsTakeValues) : form.read.TakesValue := by
  intro text a rest h
  obtain ⟨hlt, hread⟩ := h
  rw [read] at hread
  split at hread
  next => cases hread
  next p hnext =>
    refine ⟨p.value :: p.rest, (blanks_of_next hnext).1, ?_⟩
    split_ifs at hread with hbracket hbrace
    · obtain ⟨q, hq, hafter⟩ := map_eq_ok.mp hread
      cases hafter
      obtain ⟨state, hstate, -⟩ := reads_of_finishing (reads_of_eq_ok hq)
      rw [hbracket]
      exact (formed_of_positional hfields hstate).array
    · obtain ⟨q, hq, hafter⟩ := map_eq_ok.mp hread
      cases hafter
      obtain ⟨state, ⟨_, hstate⟩, -⟩ := reads_of_finishing (reads_of_eq_ok hq)
      rw [hbrace]
      exact (formed_of_membersFrom (fun _ _ _ => takesValue_of_step hfields) hstate).object

end RecordForm
end SymbolCoverage.Json
