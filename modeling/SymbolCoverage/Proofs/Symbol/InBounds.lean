import SymbolCoverage.Proofs.Results
import SymbolCoverage.Proofs.Symbol.Bytewise
import SymbolCoverage.Proofs.Symbol.Grammar

/-!
Decoding with byte offsets is without fault.  In the loop over a body the offset is the length of
the characters that were read, so a cut there is always between two characters.  What a group
declares is compared with the characters that are left before it is used, so no offset comes from
a length that the body does not have.  The end of a symbol is found by counting bytes from behind,
which may lead into a character.  There the symbol is left as it is.
-/

namespace SymbolCoverage.Symbol.Bytewise

open Text

variable {limit : Nat}

/-! ## Reading groups -/

theorem utf8Length_eq_zero_iff {cs : List Char} : utf8Length cs = 0 ↔ cs = [] := by
  constructor
  · intro h
    have hle := length_le_utf8Length cs
    exact List.eq_nil_of_length_eq_zero (by omega)
  · intro h
    rw [h, utf8Length]

/-- No digit in front, or a zero in front, is the same in bytes and in characters. -/
theorem no_numeral_iff (cs : List Char) :
    (leadingDigits (.ofList cs) = 0 ∨ (String.ofList cs).toList.head? = some '0') ↔
      cs.takeWhile Char.isDigit = [] ∨ (cs.takeWhile Char.isDigit).head? = some '0' := by
  rw [leadingDigits_ofList, utf8Length_eq_zero_iff, String.toList_ofList]
  cases cs with
  | nil => simp
  | cons c rest =>
    by_cases hc : c.isDigit = true
    · simp [hc]
    · simp [hc]

theorem announced_ofList (offset : Nat) (cs : List Char) :
    announced offset (.ofList cs) =
      let digits := cs.takeWhile Char.isDigit
      let declared := Nat.ofDigitChars 10 digits 0
      pure (if digits = [] ∨ digits.head? = some '0' then .error (.missingLength offset)
        else if Group.lengthLimit ≤ declared then .error (.lengthOverflow offset)
        else .ok (utf8Length digits, declared)) := by
  have hdigits : sliceTo (.ofList cs) (utf8Length (cs.takeWhile Char.isDigit)) =
      pure (.ofList (cs.takeWhile Char.isDigit)) := by
    have h := sliceTo_ofList (cs.takeWhile Char.isDigit) (cs.dropWhile Char.isDigit)
    rwa [List.takeWhile_append_dropWhile] at h
  simp only [announced, no_numeral_iff]
  split
  next => rfl
  next =>
    rw [leadingDigits_ofList, hdigits, pure_bind, String.toList_ofList]
    split <;> rfl

/-- The text of a group ends behind its last character, or the group is too short. -/
theorem textEnd_ofList (offset declared : Nat) (group : List Char) :
    textEnd offset declared (.ofList group) =
      if group.length < declared then .error (.groupOverrun offset declared group.length)
      else .ok (utf8Length (group.take declared)) := by
  rw [textEnd, String.toList_ofList, getElem?_charIndices, String.length_ofList]
  by_cases hlt : declared < group.length
  · have hroom : ¬ group.length < declared := by omega
    simp only [List.getElem?_eq_getElem hlt, Option.map_some, if_neg hroom, Nat.zero_add]
  · rw [List.getElem?_eq_none (by omega), Option.map_none, List.take_of_length_le (by omega),
      utf8ByteSize_ofList]

theorem stripPrefix?_underscore (text : List Char) :
    (stripPrefix? "_" (.ofList text)).getD (.ofList text) =
      .ofList (WrittenGroup.withoutUnderscore text) := by
  rw [WrittenGroup.withoutUnderscore]
  by_cases hunderscore : text.head? = some '_'
  · obtain ⟨tail, rfl⟩ := List.head?_eq_some_iff.mp hunderscore
    have hstrip : stripPrefix? "_" (.ofList ('_' :: tail)) = some (.ofList tail) :=
      stripPrefix?_append "_" tail
    rw [hstrip, Option.getD_some, if_pos hunderscore, List.tail_cons]
  · have hstrip : stripPrefix? "_" (.ofList text) = none := by
      refine stripPrefix?_eq_none fun tail htail => ?_
      exact hunderscore (htail ▸ rfl)
    rw [hstrip, Option.getD_none, if_neg hunderscore]

theorem utf8Length_withoutUnderscore_le (text : List Char) :
    utf8Length (WrittenGroup.withoutUnderscore text) ≤ utf8Length text := by
  rw [WrittenGroup.withoutUnderscore]
  split
  next =>
    cases text with
    | nil => exact Nat.le_refl 0
    | cons c tail =>
      rw [List.tail_cons, utf8Length]
      omega
  next => exact Nat.le_refl _

theorem segmentTo_ofList {text : List Char} (h : utf8Length text < limit) (behind : List Char) :
    segmentTo limit (.ofList (text ++ behind)) (utf8Length text) = pure (Group.segment text) := by
  have hle := utf8Length_withoutUnderscore_le text
  have hfits : (String.ofList (WrittenGroup.withoutUnderscore text)).utf8ByteSize < limit := by
    rw [utf8ByteSize_ofList]
    omega
  rw [segmentTo, sliceTo_ofList, pure_bind, stripPrefix?_underscore, unescape_eq hfits,
    WrittenGroup.segment_eq_unescape]

/-- The loop is over where the body ends, or only the closing `E` is left. -/
theorem groupPass_end {before rest : List Char} (hend : rest = [] ∨ rest = ['E'])
    (segments : List String) :
    groupPass limit (.ofList (before ++ rest)) ⟨segments, utf8Length before⟩ =
      pure (.done (.ok segments)) := by
  rcases hend with rfl | rfl
  · rw [groupPass, if_pos (by rw [List.append_nil, utf8ByteSize_ofList])]
  · have hinside : ¬ (String.ofList (before ++ ['E'])).utf8ByteSize ≤ utf8Length before := by
      have hE : utf8Length ['E'] = 1 := rfl
      rw [utf8ByteSize_ofList, utf8Length_append]
      omega
    simp only [groupPass, if_neg hinside, sliceFrom_ofList, pure_bind]
    rfl

/-- A pass over a body splits one group off, or meets what is wrong with it. -/
theorem groupPass_ofList {before rest : List Char} (hend : ¬ (rest = [] ∨ rest = ['E']))
    (hlimit : utf8Length (before ++ rest) < limit) (segments : List String) :
    groupPass limit (.ofList (before ++ rest)) ⟨segments, utf8Length before⟩ =
      pure (match Group.split (utf8Length before) rest with
        | .error reason => .done (.error reason)
        | .ok g => .again ⟨segments ++ [Group.segment g.text],
            utf8Length before + (utf8Length g.digits + utf8Length g.text)⟩) := by
  rw [not_or] at hend
  have hinside : ¬ (String.ofList (before ++ rest)).utf8ByteSize ≤ utf8Length before := by
    have hpos := List.length_pos_iff.mpr hend.1
    have hle := length_le_utf8Length rest
    rw [utf8ByteSize_ofList, utf8Length_append]
    omega
  have hclosing : String.ofList rest ≠ "E" := by
    intro heq
    rw [← String.toList_inj, String.toList_ofList] at heq
    exact hend.2 heq
  simp only [groupPass, if_neg hinside, sliceFrom_ofList, pure_bind, if_neg hclosing,
    announced_ofList, Group.split]
  have hrest : rest.takeWhile Char.isDigit ++ rest.dropWhile Char.isDigit = rest :=
    List.takeWhile_append_dropWhile
  generalize rest.takeWhile Char.isDigit = digits, rest.dropWhile Char.isDigit = tail at hrest ⊢
  generalize Nat.ofDigitChars 10 digits 0 = declared
  by_cases hnumeral : digits = [] ∨ digits.head? = some '0'
  · simp only [if_pos hnumeral]
  by_cases hlarge : Group.lengthLimit ≤ declared
  · simp only [if_neg hnumeral, if_pos hlarge]
  have hgroup : sliceFrom (.ofList rest) (utf8Length digits) = pure (.ofList tail) :=
    hrest ▸ sliceFrom_ofList digits tail
  by_cases hshort : tail.length < declared
  · simp only [if_neg hnumeral, if_neg hlarge, hgroup, pure_bind, textEnd_ofList, if_pos hshort]
  · -- digits and text are parts of the body, so no sum of their lengths is too large
    have hparts : utf8Length (tail.take declared) + utf8Length (tail.drop declared) =
        utf8Length tail := by
      rw [← utf8Length_append, List.take_append_drop]
    rw [← hrest, utf8Length_append, utf8Length_append] at hlimit
    have hsegment : segmentTo limit (.ofList tail) (utf8Length (tail.take declared)) =
        pure (Group.segment (tail.take declared)) := by
      have htext : utf8Length (tail.take declared) < limit := by omega
      have h := segmentTo_ofList htext (tail.drop declared)
      rwa [List.take_append_drop] at h
    have hlength : add limit (utf8Length digits) (utf8Length (tail.take declared)) =
        pure (utf8Length digits + utf8Length (tail.take declared)) := add_eq (by omega)
    have hoffset : add limit (utf8Length before)
          (utf8Length digits + utf8Length (tail.take declared)) =
        pure (utf8Length before + (utf8Length digits + utf8Length (tail.take declared))) :=
      add_eq (by omega)
    simp only [if_neg hnumeral, if_neg hlarge, if_neg hshort, hgroup, pure_bind, textEnd_ofList,
      hsegment, hlength, hoffset]

/-- What is left of the body completes the segments so far to the result. -/
structure Continues (body : List Char) (result : Except Malformation (List String))
    (s : Reading) : Prop where
  exists_rest : ∃ before rest, body = before ++ rest ∧ s.offset = utf8Length before ∧
    (Group.texts s.offset rest).map (fun texts => s.segments ++ texts.map Group.segment) = result

theorem continues_start (body : List Char) :
    Continues body ((Group.texts 0 body).map fun texts => texts.map Group.segment) ⟨[], 0⟩ :=
  ⟨[], body, rfl, rfl, rfl⟩

/-- A group takes a byte or more for its length, and a byte or more for its text. -/
theorem utf8Length_of_split {offset : Nat} {body : List Char} {g : Group.Split}
    (h : Group.split offset body = .ok g) :
    1 ≤ utf8Length g.digits ∧ 1 ≤ utf8Length g.text ∧
      utf8Length g.digits + utf8Length g.text + utf8Length g.rest = utf8Length body := by
  have hdigits := List.length_pos_iff.mpr (Group.split_digits h)
  obtain ⟨w, hw, -⟩ := Group.exists_group_of_split h
  obtain ⟨c, cs, htext, -⟩ := w.start
  have hlength : 1 ≤ g.text.length := by
    rw [← hw, htext, List.length_cons]
    omega
  refine ⟨Nat.le_trans hdigits (length_le_utf8Length _),
    Nat.le_trans hlength (length_le_utf8Length _), ?_⟩
  rw [← utf8Length_append, ← utf8Length_append, Group.split_append h]

/-- Each pass advances by two bytes or more, but not beyond the end of the body, and the result
stays the same. -/
theorem keeps_groupPass {body : List Char} (h : utf8Length body < limit)
    (result : Except Malformation (List String)) :
    Keeps (groupPass limit (.ofList body)) (Continues body result)
      (fun s s' => s.offset + 2 ≤ s'.offset ∧ s'.offset ≤ utf8Length body) result := by
  intro s hs
  obtain ⟨segments, offset⟩ := s
  obtain ⟨before, rest, rfl, hoffset, rfl⟩ := hs.exists_rest
  cases hoffset
  by_cases hend : rest = [] ∨ rest = ['E']
  · left
    rw [groupPass_end hend segments, Group.texts_of_end hend]
    simp [Except.map]
  · have hpass := groupPass_ofList hend h segments
    cases hsplit : Group.split (utf8Length before) rest with
    | error reason =>
      rw [hsplit] at hpass
      left
      rw [hpass, Group.texts_of_split_error hend hsplit]
      rfl
    | ok g =>
      rw [hsplit] at hpass
      right
      obtain ⟨hdigits, htext, hsum⟩ := utf8Length_of_split hsplit
      refine ⟨_, hpass, ⟨?_, ?_⟩, before ++ (g.digits ++ g.text), g.rest, ?_, ?_, ?_⟩
      · simp only
        omega
      · simp only [utf8Length_append]
        omega
      · rw [List.append_assoc, Group.split_append hsplit]
      · rw [utf8Length_append, utf8Length_append]
      · rw [Group.texts_of_split hend hsplit, ← Nat.add_assoc]
        cases Group.texts (utf8Length before + utf8Length g.digits + utf8Length g.text) g.rest with
        | error reason => rfl
        | ok texts => simp [Except.map]

theorem decodeBody_eq {body : String} (h : body.utf8ByteSize < limit) :
    decodeBody limit body = pure (segmentsOfBody body.toList) := by
  obtain ⟨cs, rfl⟩ := body.exists_eq_ofList
  rw [utf8ByteSize_ofList] at h
  have hend : (String.ofList cs = "" ∨ String.ofList cs = "E") ↔ cs = [] ∨ cs = ['E'] := by
    rw [← String.toList_inj, ← String.toList_inj, String.toList_ofList]
    rfl
  rw [decodeBody, segmentsOfBody, String.toList_ofList]
  simp only [hend]
  split
  next => rfl
  next =>
    refine (keeps_groupPass h _).loop_eq (fun s => utf8Length cs - s.offset) ?_
      (continues_start cs)
    intro s s' hs
    omega

/-! ## Decoding -/

theorem ofChars?_eq_some_iff {text : String} {hash : Hash} :
    Hash.ofChars? text.toList = some hash ↔ text = hash.digits := by
  rw [Hash.ofChars?]
  constructor
  · intro h
    split at h
    next =>
      cases h
      exact String.ofList_toList.symm
    next => cases h
  · intro h
    subst h
    rw [dif_pos hash.wellFormed]
    cases hash
    simp only [String.ofList_toList]

theorem hashOf?_eq_some_iff {tail : String} {hash : Hash} :
    hashOf? tail = some hash ↔ tail = .ofList (suffix hash) := by
  have hsuffix : String.ofList (suffix hash) = "17h" ++ (hash.digits ++ "E") := by
    rw [← String.toList_inj]
    simp [suffix, hashMarker]
  simp only [hashOf?, Option.bind_eq_some_iff, stripPrefix?_eq_some_iff, stripSuffix?_eq_some_iff,
    ofChars?_eq_some_iff, hsuffix]
  constructor
  · intro h
    obtain ⟨digits, ⟨rest, rfl, rfl⟩, rfl⟩ := h
    rfl
  · intro h
    exact ⟨_, ⟨_, h, rfl⟩, rfl⟩

theorem utf8Length_suffix (hash : Hash) : utf8Length (suffix hash) = suffixLength := by
  rw [← length_suffix hash]
  refine utf8Length_of_ascii fun c hc => ?_
  obtain ⟨-, hdigits⟩ := (isHashDigits_iff _).mp hash.wellFormed
  rw [suffix, List.mem_append, List.mem_append] at hc
  rw [Char.utf8Size_eq_one_iff, UInt32.le_iff_toNat_le]
  rcases hc with (hc | hc) | hc
  · simp only [hashMarker, List.mem_cons, List.not_mem_nil, or_false] at hc
    rcases hc with rfl | rfl | rfl <;> decide
  · have hrange : c.toNat ≤ 57 ∨ c.toNat ≤ 102 := (hdigits c hc).imp (·.2) (·.2)
    show c.toNat ≤ 127
    omega
  · rw [List.mem_singleton] at hc
    subst hc
    decide

theorem splitEnvelope_of_envelope {symbol : String} {body : List Char} {hash : Hash}
    (h : symbol.toList = opening ++ body ++ suffix hash) :
    splitEnvelope symbol = pure (some (.ofList body, hash)) := by
  have hopened : stripPrefix? "_ZN" symbol = some (.ofList (body ++ suffix hash)) := by
    rw [stripPrefix?_eq_some_iff, ← String.toList_inj, h, String.toList_append,
      String.toList_ofList, List.append_assoc]
    simp [opening]
  have hsize : (String.ofList (body ++ suffix hash)).utf8ByteSize =
      utf8Length body + suffixLength := by
    rw [utf8ByteSize_ofList, utf8Length_append, utf8Length_suffix]
  have hlong : ¬ utf8Length body + suffixLength < suffixLength := by omega
  have hboundary : IsBoundary (.ofList (body ++ suffix hash)) (utf8Length body) :=
    isBoundary_iff.mpr ⟨body, suffix hash, rfl, rfl⟩
  have hhash : hashOf? (.ofList (suffix hash)) = some hash := hashOf?_eq_some_iff.mpr rfl
  simp only [splitEnvelope, hopened, hsize, if_neg hlong, Nat.add_sub_cancel, if_pos hboundary,
    sliceTo_ofList, sliceFrom_ofList, pure_bind, hhash, Option.map_some]

/-- A symbol is taken apart without fault, also where its end falls inside a character. -/
theorem splitEnvelope_sound (symbol : String) :
    ∃ parts, splitEnvelope symbol = pure parts ∧
      ∀ body hash, parts = some (body, hash) →
        symbol.toList = opening ++ body.toList ++ suffix hash := by
  rw [splitEnvelope]
  cases hstrip : stripPrefix? "_ZN" symbol with
  | none => exact ⟨none, rfl, nofun⟩
  | some rest =>
    simp only
    by_cases hshort : rest.utf8ByteSize < suffixLength
    · exact ⟨none, if_pos hshort, nofun⟩
    rw [if_neg hshort]
    by_cases hboundary : IsBoundary rest (rest.utf8ByteSize - suffixLength)
    · obtain ⟨before, behind, rfl, hcut⟩ := isBoundary_iff.mp hboundary
      rw [if_pos hboundary, hcut, sliceTo_ofList, pure_bind, sliceFrom_ofList, pure_bind]
      refine ⟨_, rfl, fun body hash hparts => ?_⟩
      obtain ⟨hash', hhash, heq⟩ := Option.map_eq_some_iff.mp hparts
      cases heq
      have hbehind := hashOf?_eq_some_iff.mp hhash
      rw [String.ofList_inj] at hbehind
      rw [stripPrefix?_eq_some_iff.mp hstrip, hbehind, String.toList_append, String.toList_ofList,
        String.toList_ofList, List.append_assoc]
      simp [opening]
    · exact ⟨none, if_neg hboundary, nofun⟩

theorem splitEnvelope_eq (symbol : String) :
    splitEnvelope symbol =
      pure ((Envelope.ofChars? symbol.toList).map fun e => (.ofList e.body, e.hash)) := by
  cases henvelope : Envelope.ofChars? symbol.toList with
  | some envelope =>
    exact splitEnvelope_of_envelope (Envelope.ofChars?_eq_some_iff.mp henvelope)
  | none =>
    obtain ⟨parts, hparts, hsound⟩ := splitEnvelope_sound symbol
    cases parts with
    | none => exact hparts
    | some part =>
      rw [Envelope.ofChars?_eq_some_iff.mpr (hsound part.1 part.2 rfl)] at henvelope
      cases henvelope

theorem decode_eq {symbol : String} (h : symbol.utf8ByteSize < limit) :
    decode limit symbol = pure (Symbol.decode symbol) := by
  rw [decode, splitEnvelope_eq, pure_bind, Symbol.decode]
  cases henvelope : Envelope.ofChars? symbol.toList with
  | none => rfl
  | some envelope =>
    have hsymbol := Envelope.ofChars?_eq_some_iff.mp henvelope
    have hbody : (String.ofList envelope.body).utf8ByteSize < limit := by
      rw [← String.ofList_toList (s := symbol), hsymbol, utf8ByteSize_ofList, utf8Length_append,
        utf8Length_append] at h
      rw [utf8ByteSize_ofList]
      omega
    simp only [Option.map_some, decodeBody_eq hbody, pure_bind, String.toList_ofList]
    cases segmentsOfBody envelope.body <;> rfl

/-- Decoding that cuts texts at byte offsets is without fault and ends.  No cut is outside a text
or inside a character, and no sum of offsets is too large where the length of the text is not, as
for any text that is in memory.  Each part of it gives what it gives on characters.  In the loop
over a body the offset is always a boundary, and grows by two bytes or more in a pass, whatever
lengths the groups declare.  In the loop over an escaped text a pass always leaves less of it. -/
theorem decoding_in_bounds {text : String} (h : text.utf8ByteSize < limit) :
    (splitEnvelope text =
        pure ((Envelope.ofChars? text.toList).map fun e => (.ofList e.body, e.hash)) ∧
      splitCode limit text =
        pure ((Escape.splitCode? text.toList).map fun split => (split.1, .ofList split.2)) ∧
      unescape limit text = pure (Symbol.unescape text) ∧
      decodeBody limit text = pure (segmentsOfBody text.toList) ∧
      decode limit text = pure (Symbol.decode text)) ∧
    (∀ s, Reaches (groupPass limit text) ⟨[], 0⟩ s →
      IsBoundary text s.offset ∧ s.offset ≤ text.utf8ByteSize ∧
        ∃ p, groupPass limit text s = pure p ∧ ∀ s', p = .again s' → s.offset + 2 ≤ s'.offset) ∧
    ∀ s, Reaches (expandPass limit) ⟨"", text⟩ s →
      ∃ p, expandPass limit s = pure p ∧
        ∀ s', p = .again s' → s'.rest.utf8ByteSize < s.rest.utf8ByteSize := by
  obtain ⟨cs, rfl⟩ := text.exists_eq_ofList
  have hcs : utf8Length cs < limit := utf8ByteSize_ofList cs ▸ h
  refine ⟨⟨splitEnvelope_eq _, ?_, unescape_eq h, decodeBody_eq h, decode_eq h⟩, ?_, ?_⟩
  · rw [String.toList_ofList]
    exact splitCode_ofList hcs
  · intro s hs
    have hkeeps := keeps_groupPass hcs ((Group.texts 0 cs).map fun texts => texts.map Group.segment)
    obtain ⟨p, hpass, hadvances⟩ := hkeeps.pass_of_reaches (continues_start cs) hs
    obtain ⟨before, rest, rfl, hoffset, -⟩ :=
      (hkeeps.holds_of_reaches (continues_start cs) hs).exists_rest
    refine ⟨isBoundary_iff.mpr ⟨before, rest, rfl, hoffset⟩, ?_, p, hpass, ?_⟩
    · rw [utf8ByteSize_ofList, utf8Length_append, hoffset]
      omega
    · exact fun s' hs' => (hadvances s' hs').1
  · intro s hs
    exact (keeps_expandPass limit _).pass_of_reaches (completes_start h) hs

/-- The largest length that a group can declare, where one character of two bytes follows, and a
symbol whose last twenty bytes start inside a character. -/
theorem decoding_in_bounds_largestLength :
    ("_ZN18446744073709551615é17h0123456789abcdefE".utf8ByteSize < Group.lengthLimit ∧
      decode Group.lengthLimit "_ZN18446744073709551615é17h0123456789abcdefE" =
        pure (.error ⟨"_ZN18446744073709551615é17h0123456789abcdefE",
          .groupOverrun 0 (2 ^ 64 - 1) 1⟩)) ∧
      "_ZN1aé7h0123456789abcdefE".utf8ByteSize < Group.lengthLimit ∧
        ¬ IsBoundary "1aé7h0123456789abcdefE"
          ("1aé7h0123456789abcdefE".utf8ByteSize - suffixLength) ∧
          decode Group.lengthLimit "_ZN1aé7h0123456789abcdefE" =
            pure (.ok (.verbatim "_ZN1aé7h0123456789abcdefE")) := by
  have hlarge : "_ZN18446744073709551615é17h0123456789abcdefE".utf8ByteSize <
      Group.lengthLimit := by
    decide +kernel
  have hinside : "_ZN1aé7h0123456789abcdefE".utf8ByteSize < Group.lengthLimit := by
    decide +kernel
  refine ⟨⟨hlarge, ?_⟩, hinside, by decide +kernel, ?_⟩
  · rw [(decoding_in_bounds hlarge).1.2.2.2.2]
    exact congrArg pure (failure?_eq_some.mp (by decide +kernel))
  · rw [(decoding_in_bounds hinside).1.2.2.2.2]
    exact congrArg pure (toOption_eq_some.mp (by decide +kernel))

end SymbolCoverage.Symbol.Bytewise
