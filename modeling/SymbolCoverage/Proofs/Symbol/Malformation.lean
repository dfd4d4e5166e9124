import Mathlib.Algebra.Group.Nat.Defs
import SymbolCoverage.Proofs.Symbol.Grammar

/-!
Why a body is malformed.  Groups are read off a body from the left, as long as one is
complete.  The reason says where the rest stands, in bytes, and why no group starts there:
its length is missing, is too large, or announces more characters than follow.
-/

namespace SymbolCoverage.Symbol

open WrittenGroup (charsOf)

/-! ## The longest sequence of groups -/

/-- The groups are the longest sequence of groups that a body starts with.  Any other one is
the beginning of it. -/
structure Leads (gs : List WrittenGroup) (rest body : List Char) : Prop where
  spelled : body = charsOf gs ++ rest
  longest : ∀ gs' rest', body = charsOf gs' ++ rest' → gs' <+: gs

variable {gs : List WrittenGroup} {rest body : List Char}

theorem isPrefix_of_charsOf_append (hstop : ∀ (g : WrittenGroup) tail, rest ≠ g.chars ++ tail)
    {gs' : List WrittenGroup} {rest' : List Char}
    (h : charsOf gs ++ rest = charsOf gs' ++ rest') : gs' <+: gs := by
  induction gs generalizing gs' with
  | nil =>
    cases gs' with
    | nil => exact List.nil_prefix
    | cons g' gs' =>
      rw [WrittenGroup.charsOf_cons, List.append_assoc] at h
      exact absurd h (hstop g' _)
  | cons g gs ih =>
    cases gs' with
    | nil => exact List.nil_prefix
    | cons g' gs' =>
      rw [WrittenGroup.charsOf_cons, WrittenGroup.charsOf_cons, List.append_assoc,
        List.append_assoc] at h
      obtain ⟨rfl, hrest⟩ := Group.chars_append_inj h
      exact (List.prefix_cons_inj g).mpr (ih hrest)

/-- The sequence is the longest one if no group starts behind it. -/
theorem leads_iff :
    Leads gs rest body ↔
      body = charsOf gs ++ rest ∧ ∀ (g : WrittenGroup) tail, rest ≠ g.chars ++ tail := by
  constructor
  · intro h
    refine ⟨h.spelled, fun g tail hrest => ?_⟩
    have hlonger : body = charsOf (gs ++ [g]) ++ tail := by
      rw [h.spelled, hrest, charsOf, charsOf, List.flatMap_append, List.flatMap_singleton,
        List.append_assoc]
    have hlength := (h.longest _ tail hlonger).length_le
    rw [List.length_append, List.length_singleton] at hlength
    omega
  · intro h
    obtain ⟨rfl, hstop⟩ := h
    exact ⟨rfl, fun gs' rest' => isPrefix_of_charsOf_append hstop⟩

theorem exists_leads (body : List Char) : ∃ gs rest, Leads gs rest body := by
  by_cases hstop : ∀ (g : WrittenGroup) tail, body ≠ g.chars ++ tail
  · exact ⟨[], body, leads_iff.mpr ⟨rfl, hstop⟩⟩
  · simp only [not_forall, not_not] at hstop
    obtain ⟨g, tail, hbody⟩ := hstop
    have hshorter : tail.length < body.length := by
      have hdigits := List.length_pos_iff.mpr g.digits_ne_nil
      rw [hbody, WrittenGroup.chars, List.length_append, List.length_append]
      omega
    obtain ⟨gs, rest, hleads⟩ := exists_leads tail
    obtain ⟨rfl, hrest⟩ := leads_iff.mp hleads
    refine ⟨g :: gs, rest, leads_iff.mpr ⟨?_, hrest⟩⟩
    rw [hbody, WrittenGroup.charsOf_cons, List.append_assoc]
termination_by body.length

/-! ## What stands in the way of a group -/

/-- The text starts with the first digit of a numeral without a leading zero. -/
def StartsNumeral (text : List Char) : Prop := ∃ c rest, text = c :: rest ∧ '1' ≤ c ∧ c ≤ '9'

/-- The number that all leading digits of a text spell. -/
def leadingNumber (text : List Char) : Nat := Nat.ofDigitChars 10 (text.takeWhile Char.isDigit) 0

/-- The number of characters that follow the leading digits. -/
def lengthBehind (text : List Char) : Nat := (text.dropWhile Char.isDigit).length

/-- Why no group starts at a text that stands at an offset. -/
inductive Obstruction (offset : Nat) (text : List Char) : Malformation → Prop
  | missing (h : ¬ StartsNumeral text) : Obstruction offset text (.missingLength offset)
  | overflow (h : StartsNumeral text) (hlarge : Group.lengthLimit ≤ leadingNumber text) :
    Obstruction offset text (.lengthOverflow offset)
  | overrun (h : StartsNumeral text) (hlimit : leadingNumber text < Group.lengthLimit)
    (hshort : lengthBehind text < leadingNumber text) :
    Obstruction offset text (.groupOverrun offset (leadingNumber text) (lengthBehind text))

theorem startsNumeral_iff (text : List Char) :
    StartsNumeral text ↔
      ¬ (text.takeWhile Char.isDigit = [] ∨ (text.takeWhile Char.isDigit).head? = some '0') := by
  cases text with
  | nil => exact iff_of_false nofun (not_not.mpr (.inl rfl))
  | cons c rest =>
    have hfirst : StartsNumeral (c :: rest) ↔ '1' ≤ c ∧ c ≤ '9' := by
      simp [StartsNumeral]
    have hdigit : ('1' ≤ c ∧ c ≤ '9') ↔ c.isDigit = true ∧ c ≠ '0' := by
      rw [Char.isDigit_iff_toNat, ne_eq, ← Char.toNat_inj, Char.le_def, Char.le_def,
        UInt32.le_iff_toNat_le, UInt32.le_iff_toNat_le]
      show 49 ≤ c.toNat ∧ c.toNat ≤ 57 ↔ (48 ≤ c.toNat ∧ c.toNat ≤ 57) ∧ ¬ c.toNat = 48
      omega
    rw [hfirst, hdigit]
    by_cases hc : c.isDigit = true
    · simp [hc]
    · simp [hc]

namespace Group

variable {offset : Nat} {reason : Malformation}

theorem obstruction_of_split (h : split offset rest = .error reason) :
    Obstruction offset rest reason := by
  unfold split at h
  simp only at h
  split at h
  next hnumeral =>
    cases h
    exact .missing fun hstarts => (startsNumeral_iff rest).mp hstarts hnumeral
  next hnumeral =>
    have hstarts : StartsNumeral rest := (startsNumeral_iff rest).mpr hnumeral
    split at h
    next hlarge =>
      cases h
      exact .overflow hstarts hlarge
    next hlarge =>
      split at h
      next hshort =>
        cases h
        exact .overrun hstarts (Nat.not_le.mp hlarge) hshort
      next => cases h

/-- Where no group starts and the body has not ended, the obstruction is reported. -/
theorem texts_of_obstructed (hstop : ∀ (g : WrittenGroup) tail, rest ≠ g.chars ++ tail)
    (hend : ¬ (rest = [] ∨ rest = ['E'])) (offset : Nat) :
    ∃ reason, texts offset rest = .error reason ∧ Obstruction offset rest reason := by
  cases hsplit : split offset rest with
  | error reason =>
    exact ⟨reason, texts_of_split_error hend hsplit, obstruction_of_split hsplit⟩
  | ok s =>
    obtain ⟨g, -, hrest⟩ := exists_group_of_split hsplit
    exact absurd hrest (hstop g s.rest)

end Group

/-! ## The reason of a body -/

variable {offset : Nat} {text : List Char} {reason : Malformation}

/-- A malformed body does not end behind its groups. -/
theorem not_end_of_leads (h : Leads gs rest body) (hbody : ¬ (body = [] ∨ body = ['E']))
    (herror : segmentsOfBody body = .error reason) : ¬ (rest = [] ∨ rest = ['E']) := by
  intro hend
  have hgroups : gs ≠ [] := by
    intro hnil
    have hspelled := h.spelled
    rw [hnil, WrittenGroup.charsOf_nil, List.nil_append] at hspelled
    exact hbody (hspelled ▸ hend)
  have hcompose : WrittenGroup.Compose gs body := compose_iff.mpr ⟨hgroups, rest, hend, h.spelled⟩
  rw [segmentsOfBody_eq_ok_iff.mpr ⟨gs, hcompose, rfl⟩] at herror
  cases herror

theorem obstruction_of_segmentsOfBody (h : Leads gs rest body)
    (hbody : ¬ (body = [] ∨ body = ['E'])) (herror : segmentsOfBody body = .error reason) :
    Obstruction (Text.utf8Length (charsOf gs)) rest reason := by
  have hend := not_end_of_leads h hbody herror
  obtain ⟨hspelled, hstop⟩ := leads_iff.mp h
  obtain ⟨reason', htexts, hobstruction⟩ :=
    Group.texts_of_obstructed hstop hend (0 + Text.utf8Length (charsOf gs))
  rw [segmentsOfBody, if_neg hbody, map_eq_error, hspelled, Group.texts_append, htexts] at herror
  cases herror
  rwa [Nat.zero_add] at hobstruction

theorem Obstruction.missingLength_iff (h : Obstruction offset text reason) (o : Nat) :
    reason = .missingLength o ↔ o = offset ∧ ¬ StartsNumeral text := by
  cases h with
  | missing hnot => simp [hnot, eq_comm]
  | overflow hstarts => simp [hstarts]
  | overrun hstarts => simp [hstarts]

theorem Obstruction.lengthOverflow_iff (h : Obstruction offset text reason) (o : Nat) :
    reason = .lengthOverflow o ↔
      o = offset ∧ StartsNumeral text ∧ 2 ^ 64 ≤ leadingNumber text := by
  cases h with
  | missing hnot => simp [hnot]
  | overflow hstarts hlarge =>
    have hlarge' : 2 ^ 64 ≤ leadingNumber text := hlarge
    simp only [Malformation.lengthOverflow.injEq, hstarts, hlarge', and_self, and_true, eq_comm]
  | overrun hstarts hlimit =>
    have hlimit' : ¬ 2 ^ 64 ≤ leadingNumber text := Nat.not_le.mpr hlimit
    simp only [reduceCtorEq, hlimit', and_false]

theorem Obstruction.groupOverrun_iff (h : Obstruction offset text reason) (o n m : Nat) :
    reason = .groupOverrun o n m ↔
      o = offset ∧ StartsNumeral text ∧ leadingNumber text = n ∧ n < 2 ^ 64 ∧
        lengthBehind text = m ∧ m < n := by
  cases h with
  | missing hnot => simp [hnot]
  | overflow hstarts hlarge =>
    refine iff_of_false nofun fun hoverrun => ?_
    obtain ⟨-, -, rfl, hlimit, -⟩ := hoverrun
    exact absurd hlarge (Nat.not_le.mpr hlimit)
  | overrun hstarts hlimit hshort =>
    constructor
    · intro heq
      cases heq
      exact ⟨rfl, hstarts, rfl, hlimit, rfl, hshort⟩
    · intro hoverrun
      obtain ⟨rfl, -, rfl, -, rfl, -⟩ := hoverrun
      rfl

theorem segmentsOfBody_eq_emptyBody_iff (herror : segmentsOfBody body = .error reason) :
    reason = .emptyBody ↔ body = [] ∨ body = ['E'] := by
  by_cases hbody : body = [] ∨ body = ['E']
  · rw [segmentsOfBody, if_pos hbody] at herror
    cases herror
    exact iff_of_true rfl hbody
  · obtain ⟨gs, rest, hleads⟩ := exists_leads body
    refine iff_of_false (fun heq => ?_) hbody
    have hobstruction := obstruction_of_segmentsOfBody hleads hbody herror
    rw [heq] at hobstruction
    cases hobstruction

/-- The reason why a symbol in the envelope is malformed.  Its body is empty, apart from an
`E`, or else the reason is decided by what stands behind the longest sequence of groups that
the body starts with.  Its offset counts the bytes of these groups, and the characters that
remain count a closing `E`. -/
theorem decode_error_reason {symbol body digits : String} {e : MalformedSymbol}
    (h : Enveloped symbol body digits) (he : decode symbol = .error e) :
    (e.reason = .emptyBody ↔ body = "" ∨ body = "E") ∧
    (∃ gs rest, Leads gs rest body.toList) ∧
    ∀ gs rest, Leads gs rest body.toList → body ≠ "" → body ≠ "E" →
      rest ≠ [] ∧ rest ≠ ['E'] ∧
      (∀ o, e.reason = .missingLength o ↔
        o = (String.ofList (charsOf gs)).utf8ByteSize ∧ ¬ StartsNumeral rest) ∧
      (∀ o, e.reason = .lengthOverflow o ↔
        o = (String.ofList (charsOf gs)).utf8ByteSize ∧ StartsNumeral rest ∧
          2 ^ 64 ≤ leadingNumber rest) ∧
      ∀ o n m, e.reason = .groupOverrun o n m ↔
        o = (String.ofList (charsOf gs)).utf8ByteSize ∧ StartsNumeral rest ∧
          leadingNumber rest = n ∧ n < 2 ^ 64 ∧ lengthBehind rest = m ∧ m < n := by
  obtain ⟨hash, -, hsymbol⟩ := enveloped_iff.mp h
  have herror : segmentsOfBody body.toList = .error e.reason := by
    rw [decode_enveloped body.toList hash symbol hsymbol] at he
    cases hsegments : segmentsOfBody body.toList with
    | ok segments =>
      rw [hsegments] at he
      cases he
    | error reason =>
      rw [hsegments] at he
      cases he
      rfl
  have hends : (body.toList = [] ∨ body.toList = ['E']) ↔ body = "" ∨ body = "E" := by
    rw [← String.toList_inj, ← String.toList_inj]
    rfl
  refine ⟨(segmentsOfBody_eq_emptyBody_iff herror).trans hends, exists_leads _, ?_⟩
  intro gs rest hleads hempty hclosing
  have hbody : ¬ (body.toList = [] ∨ body.toList = ['E']) := by
    rw [hends, not_or]
    exact ⟨hempty, hclosing⟩
  have hobstruction := obstruction_of_segmentsOfBody hleads hbody herror
  rw [← Text.utf8ByteSize_ofList] at hobstruction
  obtain ⟨hnil, hE⟩ := not_or.mp (not_end_of_leads hleads hbody herror)
  exact ⟨hnil, hE, hobstruction.missingLength_iff, hobstruction.lengthOverflow_iff,
    hobstruction.groupOverrun_iff⟩

/-- A group of four characters and six bytes, before one that is too long even with the
closing `E`. -/
theorem decode_error_reason_wideGroup :
    Enveloped "_ZN3föö9barE17h0123456789abcdefE" "3föö9barE" "0123456789abcdef" ∧
      decode "_ZN3föö9barE17h0123456789abcdefE" =
        .error ⟨"_ZN3föö9barE17h0123456789abcdefE", .groupOverrun 6 9 4⟩ ∧
      ∃ gs rest, Leads gs rest "3föö9barE".toList ∧ rest ≠ [] ∧
        6 = (String.ofList (charsOf gs)).utf8ByteSize ∧ StartsNumeral rest ∧
          leadingNumber rest = 9 ∧ lengthBehind rest = 4 := by
  have henveloped : Enveloped "_ZN3föö9barE17h0123456789abcdefE" "3föö9barE" "0123456789abcdef" :=
    ⟨by decide, by decide, ((isHashDigits_iff _).mp (by decide)).2⟩
  have he : decode "_ZN3föö9barE17h0123456789abcdefE" =
      .error ⟨"_ZN3föö9barE17h0123456789abcdefE", .groupOverrun 6 9 4⟩ :=
    failure?_eq_some.mp (by decide +kernel)
  obtain ⟨-, ⟨gs, rest, hleads⟩, hreason⟩ := decode_error_reason henveloped he
  obtain ⟨hnil, -, -, -, hoverrun⟩ := hreason gs rest hleads (by decide) (by decide)
  obtain ⟨hoffset, hstarts, hnumber, -, hbehind, -⟩ := (hoverrun 6 9 4).mp rfl
  exact ⟨henveloped, he, gs, rest, hleads, hnil, hoffset, hstarts, hnumber, hbehind⟩

end SymbolCoverage.Symbol
