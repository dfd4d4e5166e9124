import SymbolCoverage.Proofs.Json.Order

/-!
What the printer writes is a spelling of the value, so it is read as the value.  The reader
puts the members of objects in the order of their names, so they must stand in it.
-/

namespace SymbolCoverage.Json

variable {α β : Type} {text before rest : List Char} {v : Value} {levels : Nat}

/-- Values that are printed without loss: constants, integers of 64 bits, strings, and
arrays and objects of such values, at most `levels` deep.  The names of an object are
distinct. -/
inductive Value.Plain : Nat → Value → Prop
  | null {levels : Nat} : Plain levels .null
  | bool {levels : Nat} (b : Bool) : Plain levels (.bool b)
  | integer {levels : Nat} {i : Int} :
    -(Numeral.limit / 2 : Nat) ≤ i → i < Numeral.limit → Plain levels (.number (.integer i))
  | string {levels : Nat} (s : String) : Plain levels (.string s)
  | array {levels : Nat} {vs : List Value} :
    (∀ v ∈ vs, Plain levels v) → Plain (levels + 1) (.array vs)
  | object {levels : Nat} {ms : Members} :
    (ms.map Prod.fst).Nodup → (∀ m ∈ ms, Plain levels m.2) → Plain (levels + 1) (.object ms)

/-! ## What may stand behind a number -/

theorem endsNumber_cons {c : Char} (hdigit : c.isDigit = false)
    (hc : c ≠ '.' ∧ c ≠ 'e' ∧ c ≠ 'E') (tail : List Char) : EndsNumber (c :: tail) := by
  rintro _ _ ⟨⟩
  exact ⟨hdigit, hc⟩

/-! ## Entries with commas between them -/

/-- In front of whatever may stand behind a number, `form` spells `a`. -/
def Spelling.Written (spelling : Spelling α) (a : α) (form : List Char) : Prop :=
  ∀ rest, EndsNumber rest → spelling a (form ++ rest) rest

/-- The entries that follow the first one stand behind a comma and a gap. -/
theorem entriesSpelled_intercalate {spelling : Spelling α} {gap tail : List Char} {bracket : Char}
    (hgap : ∀ rest, Blanks (gap ++ rest) rest) (htail : Blanks tail (bracket :: rest))
    (hends : EndsNumber tail) {a : α} {form : List Char} (ha : spelling.Written a form)
    {as : List α} {forms : List (List Char)} (has : List.Forall₂ spelling.Written as forms)
    {first : Bool} (hseparated : Separated first text before)
    (hblanks : Blanks before (List.intercalate (',' :: gap) (form :: forms) ++ tail)) :
    EntriesSpelled bracket spelling first (a :: as) text rest := by
  induction has generalizing a form first text before with
  | nil =>
    rw [List.intercalate_singleton] at hblanks
    exact .cons hseparated hblanks (ha _ hends) (.close htail)
  | cons hb _ ih =>
    rw [List.intercalate_cons_cons, List.append_assoc, List.append_assoc] at hblanks
    have hcomma := endsNumber_cons (c := ',') rfl (by decide)
    exact .cons hseparated hblanks (ha _ (hcomma _)) (ih hb (.next .none) (hgap _))

theorem blanks_nil (rest : List Char) : Blanks ([] ++ rest) rest := .none

/-- Entries may stand without blanks. -/
theorem entriesSpelled_compact {spelling : Spelling α} {bracket : Char}
    (hbracket : bracket = ']' ∨ bracket = '\x7d') {as : List α} {forms : List (List Char)}
    (h : List.Forall₂ spelling.Written as forms) :
    EntriesSpelled bracket spelling true as (List.intercalate [','] forms ++ bracket :: rest)
      rest := by
  have hends : EndsNumber (bracket :: rest) := by
    cases hbracket with
    | inl h => exact endsNumber_cons (h ▸ rfl) (h ▸ by decide) rest
    | inr h => exact endsNumber_cons (h ▸ rfl) (h ▸ by decide) rest
  cases h with
  | nil => exact .close .none
  | cons ha has => exact entriesSpelled_intercalate blanks_nil .none hends ha has .first .none

/-- Forms that spell the values of a list one by one. -/
theorem forall₂_written {spelling : Spelling α} {form : α → List Char} {as : List α}
    (h : ∀ a ∈ as, spelling.Written a (form a)) :
    List.Forall₂ spelling.Written as (as.map form) := by
  rw [List.forall₂_map_right_iff, List.forall₂_same]
  exact h

/-- Lists that are written entry by entry are intercalated. -/
theorem eq_intercalate {write : List α → List Char} {form : α → List Char} {gap : List Char}
    (hnil : write [] = []) (hsingle : ∀ a, write [a] = form a)
    (hcons : ∀ a b as, write (a :: b :: as) = form a ++ gap ++ write (b :: as)) (as : List α) :
    write as = List.intercalate gap (as.map form) := by
  induction as with
  | nil => exact hnil
  | cons a as ih =>
    cases as with
    | nil => rw [hsingle, List.map_singleton, List.intercalate_singleton]
    | cons b as =>
      rw [hcons, ih]
      simp only [List.map_cons, List.intercalate_cons_cons, List.append_assoc]

/-- A member, with blanks between the colon and the value. -/
def memberForm (blanks : List Char) (name : String) (form : List Char) : List Char :=
  stringForm name ++ (':' :: blanks) ++ form

theorem written_member {spelling : Spelling β} {blanks : List Char}
    (hblanks : ∀ rest, Blanks (blanks ++ rest) rest) (name : String) {b : β} {form : List Char}
    (h : spelling.Written b form) :
    (MemberSpelled (StringSpelled .paired) spelling).Written (name, b)
      (memberForm blanks name form) := by
  intro rest hrest
  obtain ⟨quoted, hquoted, hname⟩ := stringForm_append name (':' :: (blanks ++ (form ++ rest)))
  have htext : memberForm blanks name form ++ rest = '"' :: quoted := by
    rw [← hquoted, memberForm]
    simp only [List.append_assoc, List.cons_append]
  rw [htext]
  exact .mk hname .none (hblanks _) (h _ hrest)

namespace Value

theorem compactElements_eq (vs : List Value) :
    compactElements vs = List.intercalate [','] (vs.map compact) :=
  eq_intercalate rfl (fun _ => rfl) (fun _ _ _ => rfl) vs

theorem compactMembers_eq (ms : Members) :
    compactMembers ms =
      List.intercalate [','] (ms.map fun m => memberForm [] m.1 (compact m.2)) :=
  eq_intercalate rfl (fun _ => rfl) (fun _ _ _ => rfl) ms

theorem compact_array_append (vs : List Value) (rest : List Char) :
    compact (.array vs) ++ rest =
      '[' :: (List.intercalate [','] (vs.map compact) ++ ']' :: rest) := by
  rw [compact, compactElements_eq]
  simp only [List.append_assoc, List.cons_append, List.nil_append]

theorem compact_object_append (ms : Members) (rest : List Char) :
    compact (.object ms) ++ rest =
      '\x7b' :: (List.intercalate [','] (ms.map fun m => memberForm [] m.1 (compact m.2)) ++
        '\x7d' :: rest) := by
  rw [compact, compactMembers_eq]
  simp only [List.append_assoc, List.cons_append, List.nil_append]

end Value

/-! ## Printed values -/

namespace Value

theorem Plain.written_compact (h : v.Plain levels) (hordered : v.Ordered) :
    (ValueSpelled levels).Written v v.compact := by
  induction h with
  | null =>
    intro rest hrest
    exact valueSpelled_of_with fun _ _ => .null
  | bool b =>
    intro rest hrest
    cases b with
    | true => exact valueSpelled_of_with fun _ _ => .isTrue
    | false => exact valueSpelled_of_with fun _ _ => .isFalse
  | integer hlow hhigh =>
    intro rest hrest
    exact valueSpelled_of_with fun _ _ => .number (numberSpelled_numberForm hlow hhigh hrest)
  | string s =>
    intro rest hrest
    obtain ⟨quoted, hquoted, hs⟩ := stringForm_append s rest
    show ValueSpelled _ (.string s) (stringForm s ++ rest) rest
    rw [hquoted]
    exact valueSpelled_of_with fun _ _ => .string hs
  | @array levels vs _ ih =>
    intro rest hrest
    rw [compact_array_append]
    have hvs := forall₂_written fun v hv => ih v hv (hordered.elements v hv)
    exact ValueSpelledWith.array (entriesSpelled_compact (.inl rfl) hvs)
  | @object levels ms _ _ ih =>
    intro rest hrest
    rw [compact_object_append]
    have hmembers := forall₂_written fun m hm =>
      written_member blanks_nil m.1 (ih m hm (hordered.members m hm))
    exact ValueSpelledWith.object ⟨ms, entriesSpelled_compact (.inr rfl) hmembers,
      (Members.ofGiven_of_ascending hordered.names).symm⟩

end Value

end SymbolCoverage.Json
