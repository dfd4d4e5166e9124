import Mathlib.Data.List.Basic
import SymbolCoverage.Proofs.Results
import SymbolCoverage.Symbol.Decoded

/-!
The grammar of structured symbols, and that the decoder accepts exactly it.

A symbol is enveloped if it reads `_ZN`, a body, `17h`, sixteen hexadecimal digits
and `E`.  A body is composed of one or more groups, each of them a numeral and as
many characters, and may be closed by one `E`.  The first character behind a
numeral is no digit, so a body is composed in at most one way.
-/

namespace SymbolCoverage.Symbol

/-- A numeral without a leading zero, and as many characters as it says.  The
first of them is no digit, so the numeral ends where they begin. -/
@[ext] structure WrittenGroup where
  digits : List Char
  text : List Char
  all_isDigit : ∀ c ∈ digits, c.isDigit = true
  head_ne_zero : digits.head? ≠ some '0'
  value : Nat.ofDigitChars 10 digits 0 = text.length
  length_lt : text.length < Group.lengthLimit
  start : ∃ c rest, text = c :: rest ∧ c.isDigit = false

/-- Digits are cut off where a text without a digit in front begins. -/
theorem cut_digits {digits text : List Char} (hdigits : ∀ c ∈ digits, c.isDigit = true)
    (hstart : ∃ c cs, text = c :: cs ∧ c.isDigit = false) (rest : List Char) :
    (digits ++ text ++ rest).takeWhile Char.isDigit = digits ∧
      (digits ++ text ++ rest).dropWhile Char.isDigit = text ++ rest := by
  obtain ⟨c, cs, rfl, hc⟩ := hstart
  rw [List.append_assoc, List.takeWhile_append_of_pos hdigits,
    List.dropWhile_append_of_pos hdigits]
  simp [hc]

/-- A body that starts with a numeral does not end here. -/
theorem digits_append_ne {digits : List Char} (hnil : digits ≠ [])
    (hdigits : ∀ c ∈ digits, c.isDigit = true) (rest : List Char) :
    ¬ (digits ++ rest = [] ∨ digits ++ rest = ['E']) := by
  obtain ⟨c, cs, rfl⟩ := List.exists_cons_of_ne_nil hnil
  have hc : c.isDigit = true := hdigits c List.mem_cons_self
  intro hend
  rcases hend with h | h
  · cases h
  · rw [List.cons_append, List.cons.injEq] at h
    exact absurd (h.1 ▸ hc) (by decide)

namespace WrittenGroup

def chars (g : WrittenGroup) : List Char := g.digits ++ g.text

/-- A text without the underscore that it may start with. -/
def withoutUnderscore (text : List Char) : List Char :=
  if text.head? = some '_' then text.tail else text

/-- The segment that a group stands for. -/
def segment (g : WrittenGroup) : String := unescape (.ofList (withoutUnderscore g.text))

def charsOf (gs : List WrittenGroup) : List Char := gs.flatMap chars

/-- The groups are all of a body, apart from an `E` that may close it. -/
def Compose (gs : List WrittenGroup) (body : List Char) : Prop :=
  gs ≠ [] ∧ (body = charsOf gs ∨ body = charsOf gs ++ ['E'])

theorem segment_eq_unescape (text : List Char) :
    Group.segment text = unescape (.ofList (withoutUnderscore text)) := by
  rw [unescape, String.toList_ofList, withoutUnderscore]
  cases text with
  | nil => rfl
  | cons c rest =>
    by_cases hc : c = '_'
    · subst hc
      rfl
    · rw [Group.segment.eq_2 _ fun _ h => hc (List.cons.inj h).1, if_neg (by simpa using hc)]

theorem segment_eq (g : WrittenGroup) : Group.segment g.text = g.segment :=
  segment_eq_unescape g.text

theorem digits_ne_nil (g : WrittenGroup) : g.digits ≠ [] := by
  intro hnil
  have hvalue := g.value
  obtain ⟨c, rest, htext, -⟩ := g.start
  rw [hnil, htext] at hvalue
  simp at hvalue

theorem charsOf_nil : charsOf [] = [] := rfl

theorem charsOf_cons (g : WrittenGroup) (gs : List WrittenGroup) :
    charsOf (g :: gs) = g.chars ++ charsOf gs := List.flatMap_cons

theorem chars_append_ne (g : WrittenGroup) (rest : List Char) :
    ¬ (g.chars ++ rest = [] ∨ g.chars ++ rest = ['E']) := by
  rw [chars, List.append_assoc]
  exact digits_append_ne g.digits_ne_nil g.all_isDigit _

theorem dropWhile_isDigit (g : WrittenGroup) (rest : List Char) :
    (g.chars ++ rest).takeWhile Char.isDigit = g.digits ∧
      (g.chars ++ rest).dropWhile Char.isDigit = g.text ++ rest :=
  cut_digits g.all_isDigit g.start rest

end WrittenGroup

namespace Group

/-- A group is split off whatever follows it. -/
theorem split_chars (g : WrittenGroup) (offset : Nat) (rest : List Char) :
    split offset (g.chars ++ rest) = .ok ⟨g.digits, g.text, rest⟩ := by
  obtain ⟨htake, hdrop⟩ := g.dropWhile_isDigit rest
  have hnumeral : ¬ (g.digits = [] ∨ g.digits.head? = some '0') := by
    rw [not_or]
    exact ⟨g.digits_ne_nil, g.head_ne_zero⟩
  have hlimit : ¬ lengthLimit ≤ g.text.length := Nat.not_le.mpr g.length_lt
  have hroom : ¬ (g.text ++ rest).length < g.text.length := by
    rw [List.length_append]
    omega
  simp only [split, htake, hdrop, if_neg hnumeral, g.value, if_neg hlimit, if_neg hroom,
    List.take_left, List.drop_left]

theorem ofDigitChars_pos {digits : List Char} (hnil : digits ≠ [])
    (hall : ∀ c ∈ digits, c.isDigit = true) (hhead : digits.head? ≠ some '0') :
    0 < Nat.ofDigitChars 10 digits 0 := by
  obtain ⟨c, cs, rfl⟩ := List.exists_cons_of_ne_nil hnil
  have hc : c.isDigit = true := hall c List.mem_cons_self
  have hne : c ≠ '0' := fun h => hhead (by rw [h]; rfl)
  have hlower : 48 ≤ c.toNat := (Char.isDigit_iff_toNat.mp hc).1
  have hneNat : c.toNat ≠ 48 := fun h => hne (Char.toNat_inj.mp h)
  have hzero : '0'.toNat = 48 := rfl
  rw [Nat.ofDigitChars_cons, Nat.ofDigitChars_eq_ofDigitChars_zero, hzero]
  have hpos : 0 < 10 ^ cs.length * (10 * 0 + (c.toNat - 48)) :=
    Nat.mul_pos (Nat.pow_pos (by decide)) (by omega)
  omega

theorem split_eq_ok {offset : Nat} {body : List Char} {s : Split}
    (h : split offset body = .ok s) :
    let digits := body.takeWhile Char.isDigit
    let tail := body.dropWhile Char.isDigit
    let declared := Nat.ofDigitChars 10 digits 0
    digits ≠ [] ∧ digits.head? ≠ some '0' ∧ declared < lengthLimit ∧ declared ≤ tail.length ∧
      s = ⟨digits, tail.take declared, tail.drop declared⟩ := by
  unfold split at h
  simp only at h ⊢
  split at h
  · cases h
  · rename_i hnumeral
    rw [not_or] at hnumeral
    split at h
    · cases h
    · rename_i hlimit
      split at h
      · cases h
      · rename_i hroom
        cases h
        exact ⟨hnumeral.1, hnumeral.2, Nat.not_le.mp hlimit, Nat.not_lt.mp hroom, rfl⟩

theorem take_dropWhile_eq_cons {body : List Char} {n : Nat} (hpos : 0 < n)
    (hle : n ≤ (body.dropWhile Char.isDigit).length) :
    ∃ c rest, (body.dropWhile Char.isDigit).take n = c :: rest ∧ c.isDigit = false := by
  cases hdrop : body.dropWhile Char.isDigit with
  | nil =>
    rw [hdrop, List.length_nil] at hle
    omega
  | cons c cs =>
    obtain ⟨k, rfl⟩ := Nat.exists_eq_succ_of_ne_zero (Nat.ne_of_gt hpos)
    have hhead := List.head?_dropWhile_not Char.isDigit body
    rw [hdrop] at hhead
    exact ⟨c, cs.take k, List.take_succ_cons, by simpa using hhead⟩

/-- What is split off a body is a group. -/
theorem exists_group_of_split {offset : Nat} {body : List Char} {s : Split}
    (h : split offset body = .ok s) :
    ∃ g : WrittenGroup, g.text = s.text ∧ body = g.chars ++ s.rest := by
  have happend := split_append h
  obtain ⟨hnil, hhead, hlimit, hroom, hs⟩ := split_eq_ok h
  have hall : ∀ c ∈ body.takeWhile Char.isDigit, c.isDigit = true :=
    fun c hc => List.all_eq_true.mp List.all_takeWhile c hc
  have hlength : s.text.length = Nat.ofDigitChars 10 (body.takeWhile Char.isDigit) 0 := by
    rw [hs, List.length_take, Nat.min_eq_left hroom]
  have hdigits : s.digits = body.takeWhile Char.isDigit := by rw [hs]
  have hstart : ∃ c rest, s.text = c :: rest ∧ c.isDigit = false := by
    rw [hs]
    exact take_dropWhile_eq_cons (ofDigitChars_pos hnil hall hhead) hroom
  rw [← hdigits] at hall hhead hlength hlimit
  exact ⟨⟨s.digits, s.text, hall, hhead, hlength.symm, by rw [hlength]; exact hlimit, hstart⟩,
    rfl, happend.symm⟩

/-- Splitting finds only one group, so what starts with a group does so in one way. -/
theorem chars_append_inj {g g' : WrittenGroup} {rest rest' : List Char}
    (h : g.chars ++ rest = g'.chars ++ rest') : g = g' ∧ rest = rest' := by
  have hsplit := split_chars g 0 rest
  rw [h, split_chars] at hsplit
  simp only [Except.ok.injEq, Split.mk.injEq] at hsplit
  exact ⟨WrittenGroup.ext hsplit.1.symm hsplit.2.1.symm, hsplit.2.2.symm⟩

/-! ## Bodies -/

section Texts

variable {offset : Nat} {body : List Char}

theorem texts_of_end (h : body = [] ∨ body = ['E']) : texts offset body = .ok [] := by
  rw [texts, if_pos h]

theorem texts_of_split_error {reason : Malformation} (hend : ¬ (body = [] ∨ body = ['E']))
    (h : split offset body = .error reason) : texts offset body = .error reason := by
  rw [texts, if_neg hend]
  split
  next h' =>
    rw [h] at h'
    cases h'
    rfl
  next h' =>
    rw [h] at h'
    cases h'

theorem texts_of_split {s : Split} (hend : ¬ (body = [] ∨ body = ['E']))
    (h : split offset body = .ok s) :
    texts offset body =
      (texts (offset + Text.utf8Length s.digits + Text.utf8Length s.text) s.rest).map
        (s.text :: ·) := by
  rw [texts, if_neg hend]
  split
  next h' =>
    rw [h] at h'
    cases h'
  next h' =>
    rw [h] at h'
    cases h'
    rfl

end Texts

/-- Complete groups are passed over, and the offset grows by their bytes. -/
theorem texts_append (gs : List WrittenGroup) (rest : List Char) (offset : Nat) :
    texts offset (WrittenGroup.charsOf gs ++ rest) =
      (texts (offset + Text.utf8Length (WrittenGroup.charsOf gs)) rest).map
        (gs.map (·.text) ++ ·) := by
  induction gs generalizing offset with
  | nil =>
    show texts offset rest = (texts offset rest).map id
    cases texts offset rest <;> rfl
  | cons g gs ih =>
    have hoffset : offset + Text.utf8Length g.digits + Text.utf8Length g.text +
        Text.utf8Length (WrittenGroup.charsOf gs) =
          offset + Text.utf8Length (g.chars ++ WrittenGroup.charsOf gs) := by
      rw [WrittenGroup.chars, Text.utf8Length_append, Text.utf8Length_append]
      omega
    rw [WrittenGroup.charsOf_cons, List.append_assoc,
      texts_of_split (g.chars_append_ne _) (split_chars g offset _), ih, hoffset]
    cases texts (offset + Text.utf8Length (g.chars ++ WrittenGroup.charsOf gs)) rest <;> rfl

theorem texts_charsOf {closing : List Char} (hclosing : closing = [] ∨ closing = ['E'])
    (gs : List WrittenGroup) (offset : Nat) :
    texts offset (WrittenGroup.charsOf gs ++ closing) = .ok (gs.map (·.text)) := by
  rw [texts_append, texts_of_end hclosing, Except.map, List.append_nil]

/-- Texts that are read off a body are the texts of its groups. -/
theorem exists_groups_of_texts {offset : Nat} {body : List Char} {ts : List (List Char)}
    (h : texts offset body = .ok ts) :
    ∃ gs : List WrittenGroup, ts = gs.map (·.text) ∧
      (body = WrittenGroup.charsOf gs ∨ body = WrittenGroup.charsOf gs ++ ['E']) := by
  induction offset, body using texts.induct generalizing ts with
  | case1 offset body hend =>
    rw [texts_of_end hend] at h
    cases h
    exact ⟨[], rfl, hend⟩
  | case2 offset body hend reason hsplit =>
    rw [texts_of_split_error hend hsplit] at h
    cases h
  | case3 offset body hend s hsplit hlt ih =>
    rw [texts_of_split hend hsplit] at h
    obtain ⟨ts', hts', rfl⟩ := map_eq_ok.mp h
    obtain ⟨gs, rfl, hbody⟩ := ih hts'
    obtain ⟨g, htext, hg⟩ := exists_group_of_split hsplit
    refine ⟨g :: gs, by rw [List.map_cons, htext], ?_⟩
    rw [hg, WrittenGroup.charsOf_cons, List.append_assoc]
    exact hbody.imp (congrArg _) (congrArg _)

/-- Groups one behind the other are told apart in one way only. -/
theorem groups_unique {closing closing' : List Char} (hclosing : closing = [] ∨ closing = ['E'])
    (hclosing' : closing' = [] ∨ closing' = ['E']) {gs gs' : List WrittenGroup}
    (h : WrittenGroup.charsOf gs ++ closing = WrittenGroup.charsOf gs' ++ closing') : gs = gs' := by
  induction gs generalizing gs' with
  | nil =>
    cases gs' with
    | nil => rfl
    | cons g' gs' =>
      rw [WrittenGroup.charsOf_nil, List.nil_append, WrittenGroup.charsOf_cons,
        List.append_assoc] at h
      exact absurd (h ▸ hclosing) (g'.chars_append_ne _)
  | cons g gs ih =>
    cases gs' with
    | nil =>
      rw [WrittenGroup.charsOf_nil, List.nil_append, WrittenGroup.charsOf_cons,
        List.append_assoc] at h
      exact absurd (h ▸ hclosing') (g.chars_append_ne _)
    | cons g' gs' =>
      rw [WrittenGroup.charsOf_cons, WrittenGroup.charsOf_cons, List.append_assoc,
        List.append_assoc] at h
      obtain ⟨rfl, hrest⟩ := chars_append_inj h
      rw [ih hrest]

end Group

open WrittenGroup (Compose charsOf)

theorem compose_iff {gs : List WrittenGroup} {body : List Char} :
    Compose gs body ↔
      gs ≠ [] ∧ ∃ closing, (closing = [] ∨ closing = ['E']) ∧ body = charsOf gs ++ closing := by
  rw [Compose]
  constructor
  · intro h
    obtain ⟨hnil, hbody⟩ := h
    rcases hbody with hbody | hbody
    · exact ⟨hnil, [], .inl rfl, by rw [hbody, List.append_nil]⟩
    · exact ⟨hnil, ['E'], .inr rfl, hbody⟩
  · intro h
    obtain ⟨hnil, closing, hclosing, hbody⟩ := h
    rcases hclosing with rfl | rfl
    · exact ⟨hnil, .inl (by rw [hbody, List.append_nil])⟩
    · exact ⟨hnil, .inr hbody⟩

theorem Compose.unique {gs gs' : List WrittenGroup} {body : List Char} (h : Compose gs body)
    (h' : Compose gs' body) : gs = gs' := by
  obtain ⟨-, closing, hclosing, hbody⟩ := compose_iff.mp h
  obtain ⟨-, closing', hclosing', hbody'⟩ := compose_iff.mp h'
  exact Group.groups_unique hclosing hclosing' (hbody.symm.trans hbody')

theorem segmentsOfBody_eq_ok_iff {body : List Char} {segments : List String} :
    segmentsOfBody body = .ok segments ↔
      ∃ gs, Compose gs body ∧ segments = gs.map WrittenGroup.segment := by
  rw [segmentsOfBody]
  constructor
  · intro h
    split at h
    · cases h
    · rename_i hend
      obtain ⟨ts, hts, rfl⟩ := map_eq_ok.mp h
      obtain ⟨gs, rfl, hbody⟩ := Group.exists_groups_of_texts hts
      have hnil : gs ≠ [] := by
        intro h
        rw [h] at hbody
        exact hend hbody
      refine ⟨gs, ⟨hnil, hbody⟩, ?_⟩
      rw [List.map_map]
      exact List.map_congr_left fun g _ => g.segment_eq
  · intro h
    obtain ⟨gs, hgs, rfl⟩ := h
    obtain ⟨hnil, closing, hclosing, rfl⟩ := compose_iff.mp hgs
    obtain ⟨g, rest, rfl⟩ := List.exists_cons_of_ne_nil hnil
    have hend :
        ¬ (charsOf (g :: rest) ++ closing = [] ∨ charsOf (g :: rest) ++ closing = ['E']) := by
      rw [WrittenGroup.charsOf_cons, List.append_assoc]
      exact g.chars_append_ne _
    rw [if_neg hend, Group.texts_charsOf hclosing, Except.map, List.map_map]
    exact congrArg _ (List.map_congr_left fun g _ => g.segment_eq)

/-! ## Envelopes -/

/-- A symbol in the envelope: `_ZN`, a body, `17h`, sixteen lower-case hexadecimal
digits and `E`. -/
structure Enveloped (symbol body digits : String) : Prop where
  spelled : symbol = "_ZN" ++ body ++ "17h" ++ digits ++ "E"
  length_eq : digits.length = 16
  hexadecimal : ∀ c ∈ digits.toList, ('0' ≤ c ∧ c ≤ '9') ∨ ('a' ≤ c ∧ c ≤ 'f')

theorem Hash.eq_of_digits {a b : Hash} (h : a.digits = b.digits) : a = b := by
  cases a
  cases b
  cases h
  rfl

theorem isHashDigits_iff (cs : List Char) :
    isHashDigits cs = true ↔
      cs.length = 16 ∧ ∀ c ∈ cs, ('0' ≤ c ∧ c ≤ '9') ∨ ('a' ≤ c ∧ c ≤ 'f') := by
  simp only [isHashDigits, Text.isLowerHex, Char.isDigit, Bool.and_eq_true, beq_iff_eq,
    List.all_eq_true, Bool.or_eq_true, decide_eq_true_eq]
  rfl

theorem hashOfSuffix?_suffix (hash : Hash) : hashOfSuffix? (suffix hash) = some hash := by
  have hlength : hash.digits.toList.length = 16 := ((isHashDigits_iff _).mp hash.wellFormed).1
  have hopen : hashMarker.isPrefixOf (suffix hash) = true := by
    rw [List.isPrefixOf_iff_prefix, suffix, List.append_assoc]
    exact List.prefix_append _ _
  have hmarker : (suffix hash).drop 3 = hash.digits.toList ++ ['E'] := by
    rw [suffix, List.append_assoc]
    exact List.drop_left' rfl
  have hdigits : ((suffix hash).drop 3).take 16 = hash.digits.toList := by
    rw [hmarker]
    exact List.take_left' hlength
  have hend : (suffix hash).drop 19 = ['E'] := by
    rw [show 19 = 3 + 16 from rfl, ← List.drop_drop, hmarker]
    exact List.drop_left' hlength
  rw [hashOfSuffix?, if_pos ⟨hopen, hend⟩, hdigits, Hash.ofChars?, dif_pos hash.wellFormed]
  cases hash
  simp only [String.ofList_toList]

theorem eq_suffix_of_hashOfSuffix? {cs : List Char} {hash : Hash}
    (h : hashOfSuffix? cs = some hash) : cs = suffix hash := by
  unfold hashOfSuffix? at h
  split at h
  · rename_i hshape
    obtain ⟨rest, rfl⟩ := List.isPrefixOf_iff_prefix.mp hshape.1
    have hdrop3 : (hashMarker ++ rest).drop 3 = rest := List.drop_left' rfl
    rw [hdrop3] at h
    have hend : rest.drop 16 = ['E'] := by
      have h19 := hshape.2
      rwa [show 19 = 3 + 16 from rfl, ← List.drop_drop, hdrop3] at h19
    unfold Hash.ofChars? at h
    split at h
    · cases h
      rw [suffix, String.toList_ofList, List.append_assoc, ← hend, List.take_append_drop]
    · cases h
  · cases h

/-- The parts into which a symbol is taken are the ones it is put together from. -/
theorem Envelope.ofChars?_eq_some_iff {cs body : List Char} {hash : Hash} :
    ofChars? cs = some ⟨body, hash⟩ ↔ cs = opening ++ body ++ suffix hash := by
  constructor
  · intro h
    unfold ofChars? at h
    split at h
    · rename_i hopen
      obtain ⟨rest, rfl⟩ := List.isPrefixOf_iff_prefix.mp hopen
      rw [List.drop_left] at h
      simp only at h
      split at h
      · obtain ⟨hash', hhash, heq⟩ := Option.map_eq_some_iff.mp h
        cases heq
        rw [← eq_suffix_of_hashOfSuffix? hhash, List.append_assoc, List.take_append_drop]
      · cases h
    · cases h
  · intro h
    subst h
    have hopen : opening.isPrefixOf (opening ++ (body ++ suffix hash)) = true := by
      rw [List.isPrefixOf_iff_prefix]
      exact List.prefix_append _ _
    have hcut : (body ++ suffix hash).length - suffixLength = body.length := by
      rw [List.length_append, length_suffix]
      omega
    have hlong : suffixLength ≤ (body ++ suffix hash).length := by
      rw [List.length_append, length_suffix]
      omega
    rw [List.append_assoc, ofChars?, if_pos hopen, List.drop_left]
    simp only [if_pos hlong, hcut, List.drop_left, List.take_left, hashOfSuffix?_suffix,
      Option.map_some]

theorem decode_enveloped (body : List Char) (hash : Hash) (symbol : String)
    (h : symbol.toList = opening ++ body ++ suffix hash) :
    decode symbol =
      match segmentsOfBody body with
      | .ok segments => .ok (.mangled ⟨segments⟩ hash)
      | .error reason => .error ⟨symbol, reason⟩ := by
  have henvelope := Envelope.ofChars?_eq_some_iff.mpr h
  cases hbody : segmentsOfBody body with
  | ok segments => simp only [decode, henvelope, hbody]
  | error reason => simp only [decode, henvelope, hbody]

theorem decode_mangled_iff {body : List Char} {hash hash' : Hash} {symbol : String} {path : Path}
    (h : symbol.toList = opening ++ body ++ suffix hash) :
    decode symbol = .ok (.mangled path hash') ↔
      segmentsOfBody body = .ok path.segments ∧ hash' = hash := by
  obtain ⟨segments⟩ := path
  rw [decode_enveloped body hash symbol h]
  cases segmentsOfBody body with
  | error reason => simp
  | ok segments' =>
    simp only [Except.ok.injEq, Decoded.mangled.injEq, Path.mk.injEq]
    exact and_congr_right fun _ => eq_comm

theorem decode_eq_mangled_iff {path : Path} {hash : Hash} {symbol : String} :
    decode symbol = .ok (.mangled path hash) ↔
      ∃ body, symbol.toList = opening ++ body ++ suffix hash ∧
        segmentsOfBody body = .ok path.segments := by
  constructor
  · intro h
    cases henvelope : Envelope.ofChars? symbol.toList with
    | none =>
      rw [decode, henvelope] at h
      cases h
    | some envelope =>
      obtain ⟨body, hash'⟩ := envelope
      have hsymbol := Envelope.ofChars?_eq_some_iff.mp henvelope
      obtain ⟨hsegments, rfl⟩ := (decode_mangled_iff hsymbol).mp h
      exact ⟨body, hsymbol, hsegments⟩
  · intro h
    obtain ⟨body, hsymbol, hsegments⟩ := h
    exact (decode_mangled_iff hsymbol).mpr ⟨hsegments, rfl⟩

theorem enveloped_iff {symbol body digits : String} :
    Enveloped symbol body digits ↔
      ∃ hash : Hash, hash.digits = digits ∧
        symbol.toList = opening ++ body.toList ++ suffix hash := by
  constructor
  · intro h
    obtain ⟨rfl, hlength, hhex⟩ := h
    rw [← String.length_toList] at hlength
    refine ⟨⟨digits, (isHashDigits_iff _).mpr ⟨hlength, hhex⟩⟩, rfl, ?_⟩
    simp [suffix, opening, hashMarker]
  · intro h
    obtain ⟨hash, rfl, hsymbol⟩ := h
    obtain ⟨hlength, hhex⟩ := (isHashDigits_iff _).mp hash.wellFormed
    refine ⟨?_, by rw [← String.length_toList, hlength], hhex⟩
    apply String.toList_injective
    rw [hsymbol]
    simp [suffix, opening, hashMarker]

theorem decode_verbatim_iff (symbol raw : String) :
    decode symbol = .ok (.verbatim raw) ↔
      raw = symbol ∧ ¬ ∃ body digits, Enveloped symbol body digits := by
  cases henvelope : Envelope.ofChars? symbol.toList with
  | none =>
    have hnot : ¬ ∃ body digits, Enveloped symbol body digits := by
      intro henveloped
      obtain ⟨body, digits, h⟩ := henveloped
      obtain ⟨hash, -, hsymbol⟩ := enveloped_iff.mp h
      rw [Envelope.ofChars?_eq_some_iff.mpr hsymbol] at henvelope
      cases henvelope
    rw [decode, henvelope]
    simp only [Except.ok.injEq, Decoded.verbatim.injEq, hnot, not_false_eq_true, and_true]
    exact eq_comm
  | some envelope =>
    obtain ⟨body, hash⟩ := envelope
    have hsymbol := Envelope.ofChars?_eq_some_iff.mp henvelope
    have hyes : ∃ body digits, Enveloped symbol body digits :=
      ⟨.ofList body, hash.digits,
        enveloped_iff.mpr ⟨hash, rfl, by rw [String.toList_ofList, hsymbol]⟩⟩
    rw [decode_enveloped body hash symbol hsymbol]
    simp only [hyes, not_true, and_false, iff_false]
    split <;> simp

/-- The decoder accepts exactly the grammar.  A symbol is kept verbatim if it is not
enveloped.  An enveloped symbol has the segments of the groups that compose its
body, of which there is at most one choice, and is malformed if there is none. -/
theorem decode_accepts_grammar (symbol : String) :
    (∀ raw, decode symbol = .ok (.verbatim raw) ↔
      raw = symbol ∧ ¬ ∃ body digits, Enveloped symbol body digits) ∧
    ∀ body digits, Enveloped symbol body digits →
      (∀ path hash, decode symbol = .ok (.mangled path hash) ↔
        hash.digits = digits ∧
          ∃ gs, Compose gs body.toList ∧ path.segments = gs.map WrittenGroup.segment) ∧
      ((∃ reason, decode symbol = .error ⟨symbol, reason⟩) ↔ ¬ ∃ gs, Compose gs body.toList) ∧
      ∀ gs gs', Compose gs body.toList → Compose gs' body.toList → gs = gs' := by
  refine ⟨decode_verbatim_iff symbol, fun body digits h => ?_⟩
  obtain ⟨hash, rfl, hsymbol⟩ := enveloped_iff.mp h
  refine ⟨fun path hash' => ?_, ?_, fun gs gs' => Compose.unique⟩
  · rw [decode_mangled_iff hsymbol, segmentsOfBody_eq_ok_iff, and_comm]
    exact and_congr_left fun _ => ⟨congrArg Hash.digits, Hash.eq_of_digits⟩
  · rw [decode_enveloped body.toList hash symbol hsymbol]
    cases hsegments : segmentsOfBody body.toList with
    | error reason =>
      simp only [Except.error.injEq, MalformedSymbol.mk.injEq, true_and, exists_eq', true_iff]
      intro hcompose
      obtain ⟨gs, hgs⟩ := hcompose
      rw [segmentsOfBody_eq_ok_iff.mpr ⟨gs, hgs, rfl⟩] at hsegments
      cases hsegments
    | ok segments =>
      obtain ⟨gs, hgs, -⟩ := segmentsOfBody_eq_ok_iff.mp hsegments
      simp only [reduceCtorEq, exists_false, false_iff, not_not]
      exact ⟨gs, hgs⟩

end SymbolCoverage.Symbol
