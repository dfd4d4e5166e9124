import SymbolCoverage.Json.Read
import SymbolCoverage.Proofs.Results

/-!
What a reader takes off the front of a text.  The spelling of a value is a relation
between the value, a text that starts with it, and what is left of the text after it, so
that spellings are put together without a word about lengths.
-/

namespace SymbolCoverage.Json

variable {α β : Type} {text rest after : List Char} {c : Char} {a : α}

/-- The reader takes `a` off the front of `text` and leaves `rest`. -/
def Reads (r : Reader α) (text : List Char) (a : α) (rest : List Char) : Prop :=
  ∃ h, r text = .ok ⟨a, rest, h⟩

theorem Reads.map {r : Reader α} (h : Reads r text a rest) (f : α → β) :
    Reads (Reader.map f r) text (f a) rest := by
  obtain ⟨hlt, hr⟩ := h
  refine ⟨hlt, ?_⟩
  rw [Reader.map, hr]
  rfl

theorem reads_of_eq_ok {r : Reader α} {p : Parsed α text} (h : r text = .ok p) :
    Reads r text p.value p.rest :=
  ⟨p.shorter, h⟩

/-- What is read, and where reading ends, is settled by the text. -/
theorem Reads.unique {r : Reader α} {a' : α} {rest' : List Char} (h : Reads r text a rest)
    (h' : Reads r text a' rest') : a = a' ∧ rest = rest' := by
  obtain ⟨hlt, hr⟩ := h
  obtain ⟨hlt', hr'⟩ := h'
  rw [hr] at hr'
  cases hr'
  exact ⟨rfl, rfl⟩

theorem Reads.of_map {r : Reader α} {f : α → β} {b : β} (h : Reads (Reader.map f r) text b rest) :
    ∃ a, Reads r text a rest ∧ b = f a := by
  obtain ⟨hlt, hr⟩ := h
  obtain ⟨p, hp, hmap⟩ := map_eq_ok.mp hr
  cases hmap
  exact ⟨p.value, reads_of_eq_ok hp, rfl⟩

theorem readAll_of_reads {r : Reader α} {s : String} (h : Reads r s.toList a rest)
    (hrest : (next rest).isNone = true) : readAll r s = .ok a := by
  obtain ⟨hlt, hr⟩ := h
  rw [readAll, hr]
  exact if_pos hrest

theorem reads_of_readAll {r : Reader α} {s : String} (h : readAll r s = .ok a) :
    ∃ rest, Reads r s.toList a rest := by
  rw [readAll] at h
  split at h
  next => cases h
  next p hp =>
    split at h
    next =>
      cases h
      exact ⟨p.rest, reads_of_eq_ok hp⟩
    next => cases h

/-! ## Blanks and words -/

/-- What is left of `text` without some blanks at its front. -/
inductive Blanks : List Char → List Char → Prop
  | none {text : List Char} : Blanks text text
  | cons {c : Char} {text rest : List Char} :
    isBlank c = true → Blanks text rest → Blanks (c :: text) rest

theorem Blanks.next_eq (h : Blanks text after) (hnext : ∃ hlt, next after = some ⟨c, rest, hlt⟩) :
    ∃ hlt, next text = some ⟨c, rest, hlt⟩ := by
  induction h with
  | none => exact hnext
  | cons hblank _ ih =>
    obtain ⟨hlt, ih⟩ := ih hnext
    refine ⟨Nat.lt_succ_of_lt hlt, ?_⟩
    rw [next, if_pos hblank, ih]
    rfl

/-- The first character behind the blanks is next. -/
theorem Blanks.next (h : Blanks text (c :: rest)) (hc : isBlank c = false) :
    ∃ hlt, next text = some ⟨c, rest, hlt⟩ := by
  refine h.next_eq ⟨Nat.lt_succ_self rest.length, ?_⟩
  rw [Json.next, if_neg (Bool.eq_false_iff.mp hc)]
  rfl

theorem Blanks.next_eq_none (h : Blanks text []) : (Json.next text).isNone = true := by
  generalize hnil : [] = after at h
  induction h with
  | none =>
    rw [← hnil]
    rfl
  | cons hblank _ ih =>
    rw [Json.next, if_pos hblank, Option.isNone_map]
    exact ih hnil

/-- What is next stands behind blanks. -/
theorem blanks_of_next {p : Parsed Char text} (h : Json.next text = some p) :
    Blanks text (p.value :: p.rest) ∧ isBlank p.value = false := by
  induction text with
  | nil => cases h
  | cons c text ih =>
    rw [Json.next] at h
    split at h
    next hblank =>
      obtain ⟨q, hq, rfl⟩ := Option.map_eq_some_iff.mp h
      exact ⟨.cons hblank (ih hq).1, (ih hq).2⟩
    next hblank =>
      cases h
      exact ⟨.none, Bool.eq_false_iff.mpr hblank⟩

theorem letters_append (word rest : List Char) :
    ∃ h, letters word (word ++ rest) = .ok ⟨rest, h⟩ := by
  induction word with
  | nil => exact ⟨Nat.le_refl _, rfl⟩
  | cons c word ih =>
    obtain ⟨h, ih⟩ := ih
    refine ⟨Nat.le_succ_of_le h, ?_⟩
    show (if c = c then (letters word (word ++ rest)).map (·.behind c) else _) = _
    rw [if_pos rfl, ih]
    rfl

theorem eq_append_of_letters {word : List Char} {r : Remaining text}
    (h : letters word text = .ok r) : text = word ++ r.rest := by
  induction word generalizing text with
  | nil =>
    cases h
    rfl
  | cons c word ih =>
    cases text with
    | nil => cases h
    | cons d text =>
      rw [letters] at h
      split at h
      next hcd =>
        obtain ⟨r', hr', hmap⟩ := map_eq_ok.mp h
        cases hmap
        subst hcd
        exact congrArg (c :: ·) (ih hr')
      next => cases h

theorem reads_token (h : Blanks text (c :: rest)) (hc : isBlank c = false) :
    Reads (token c) text () rest := by
  obtain ⟨hlt, hnext⟩ := h.next hc
  refine ⟨hlt, ?_⟩
  rw [token, hnext]
  exact if_pos rfl

theorem blanks_of_reads_token {u : Unit} (h : Reads (token c) text u rest) :
    Blanks text (c :: rest) := by
  obtain ⟨hlt, htoken⟩ := h
  rw [token] at htoken
  split at htoken
  next => cases htoken
  next p hnext =>
    split at htoken
    next hc =>
      cases htoken
      exact hc ▸ (blanks_of_next hnext).1
    next => cases htoken

/-! ## Readers that go by the next character -/

section Dispatch

variable {r : Reader α} {tail : List Char} (hblanks : Blanks text (c :: tail))
  (hc : isBlank c = false)

include hblanks hc

/-- The next character is a letter by which a word is known. -/
theorem reads_word {word : List Char} (htail : tail = word ++ rest)
    (hr : ∀ hlt, next text = some ⟨c, tail, hlt⟩ →
      r text = (letters word tail).map (·.giving a hlt)) : Reads r text a rest := by
  subst htail
  obtain ⟨hnext, htext⟩ := hblanks.next hc
  obtain ⟨hle, hread⟩ := letters_append word rest
  refine ⟨Nat.lt_of_le_of_lt hle hnext, ?_⟩
  rw [hr hnext htext, hread]
  rfl

/-- The next character opens what another reader reads. -/
theorem reads_opened {body : Reader β} {b : β} {f : β → α} (hbody : Reads body tail b rest)
    (hr : ∀ hlt, next text = some ⟨c, tail, hlt⟩ →
      r text = (body tail).map fun p => (p.map f).after hlt) : Reads r text (f b) rest := by
  obtain ⟨hnext, htext⟩ := hblanks.next hc
  obtain ⟨hlt, hread⟩ := hbody
  refine ⟨Nat.lt_trans hlt hnext, ?_⟩
  rw [hr hnext htext, hread]
  rfl

/-- The next character is the first of what another reader reads. -/
theorem reads_started {body : Reader β} {b : β} {f : β → α} (hbody : Reads body (c :: tail) b rest)
    (hr : ∀ hlt, next text = some ⟨c, tail, hlt⟩ →
      r text = (body (c :: tail)).map fun p => (p.map f).within hlt) : Reads r text (f b) rest := by
  obtain ⟨hnext, htext⟩ := hblanks.next hc
  obtain ⟨hlt, hread⟩ := hbody
  refine ⟨Nat.lt_of_lt_of_le hlt hnext, ?_⟩
  rw [hr hnext htext, hread]
  rfl

end Dispatch

/-! ## Spellings -/

/-- A relation between values, texts that start with their spelling, and what is left of
the texts. -/
abbrev Spelling (α : Type) := α → List Char → List Char → Prop

/-- The reader takes what is spelled off the front of a text, blanks before it skipped. -/
def Spelling.ReadBy (spelling : Spelling α) (r : Reader α) (a : α) : Prop :=
  ∀ {text after rest}, Blanks text after → spelling a after rest → Reads r text a rest

end SymbolCoverage.Json
