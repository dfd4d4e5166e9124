import SymbolCoverage.Proofs.Symbol.RoundTrip
import SymbolCoverage.Proofs.Symbol.Tokens

/-!
Canonical symbols.  A symbol that decodes is what encoding gives for its path and hash
exactly if its body is not closed and every text is a spelling behind its guard.  Any
other symbol that decodes shares its path and hash with the canonical one, if there is
one.
-/

namespace SymbolCoverage.Symbol

open WrittenGroup (Compose charsOf)

/-- A spelling that starts with no underscore, or the guard and a spelling that needs it. -/
def CanonicalText (coded : Char → Prop) (text : List Char) : Prop :=
  (text.head? ≠ some '_' ∧ Token.IsSpelling coded text) ∨
    ∃ c rest, text = '_' :: c :: rest ∧ (c = '_' ∨ c.isDigit = true) ∧
      Token.IsSpelling coded (c :: rest)

/-- The body of the symbol is composed of groups with canonical texts, and no `E` closes
it. -/
def CanonicalSymbol (coded : Char → Prop) (symbol : String) : Prop :=
  ∃ body digits gs, Enveloped symbol body digits ∧ gs ≠ [] ∧ body.toList = charsOf gs ∧
    ∀ g ∈ gs, CanonicalText coded g.text

/-! ## Texts -/

theorem canonicalText_guarded {cs text : List Char} (hcs : cs ≠ [])
    (h : Escape.escape cs = .ok text) : CanonicalText Token.HasCode (Group.guarded text) := by
  have hspelling := Token.isSpelling_iff.mpr ⟨cs, hcs, h⟩
  cases text with
  | nil => exact .inl ⟨nofun, hspelling⟩
  | cons c rest =>
    rw [Group.guarded_cons]
    by_cases hc : c = '_' ∨ c.isDigit = true
    · rw [if_pos hc]
      exact .inr ⟨c, rest, rfl, hc, hspelling⟩
    · rw [if_neg hc]
      refine .inl ⟨?_, hspelling⟩
      intro hhead
      exact hc (.inl (Option.some.inj hhead))

/-- A canonical text is the guarded spelling of a text that is not empty. -/
theorem CanonicalText.exists_escape {text : List Char} (h : CanonicalText Token.HasCode text)
    (hstart : ∃ c rest, text = c :: rest ∧ c.isDigit = false) :
    ∃ cs spelling, cs ≠ [] ∧ Escape.escape cs = .ok spelling ∧ text = Group.guarded spelling := by
  rcases h with ⟨hhead, hspelling⟩ | ⟨c, rest, rfl, hc, hspelling⟩
  · obtain ⟨cs, hcs, hescape⟩ := Token.isSpelling_iff.mp hspelling
    obtain ⟨c, rest, rfl, hdigit⟩ := hstart
    have hguard : ¬ (c = '_' ∨ c.isDigit = true) := by
      rintro (rfl | hc)
      · exact hhead rfl
      · rw [hdigit] at hc
        cases hc
    exact ⟨cs, c :: rest, hcs, hescape, by rw [Group.guarded_cons, if_neg hguard]⟩
  · obtain ⟨cs, hcs, hescape⟩ := Token.isSpelling_iff.mp hspelling
    exact ⟨cs, c :: rest, hcs, hescape, by rw [Group.guarded_cons, if_pos hc]⟩

/-! ## Groups -/

/-- A numeral without a leading zero is the shortest one for its value. -/
theorem toDigits_ofDigitChars {digits : List Char} (hnil : digits ≠ [])
    (hall : ∀ c ∈ digits, c.isDigit = true) (hhead : digits.head? ≠ some '0') :
    Nat.toDigits 10 (Nat.ofDigitChars 10 digits 0) = digits := by
  induction digits using List.reverseRecOn with
  | nil => exact absurd rfl hnil
  | append_singleton digits c ih =>
    rw [List.forall_mem_append, List.forall_mem_singleton] at hall
    obtain ⟨hlt, hchar⟩ := Text.digitChar_toNat_sub hall.2
    have hzero : '0'.toNat = 48 := rfl
    rw [Nat.ofDigitChars_append, Nat.ofDigitChars_cons, Nat.ofDigitChars_nil, hzero]
    by_cases hdigits : digits = []
    · rw [hdigits, Nat.ofDigitChars_nil, Nat.mul_zero, Nat.zero_add,
        Nat.toDigits_of_lt_base hlt, hchar, List.nil_append]
    · rw [List.head?_append_of_ne_nil _ hdigits] at hhead
      have hpos := Group.ofDigitChars_pos hdigits hall.1 hhead
      rw [← Nat.toDigits_append_toDigits (by decide) hpos hlt, ih hdigits hall.1 hhead,
        Nat.toDigits_of_lt_base hlt, hchar]

theorem WrittenGroup.chars_eq_spelled (g : WrittenGroup) : g.chars = Group.spelled g.text := by
  rw [chars, Group.spelled, ← g.value,
    toDigits_ofDigitChars g.digits_ne_nil g.all_isDigit g.head_ne_zero]

/-- The text of a group in front is determined by what it is spelled as. -/
theorem WrittenGroup.text_eq_of_spelled (g : WrittenGroup) {text rest rest' : List Char}
    (hstart : ∃ c cs, text = c :: cs ∧ c.isDigit = false)
    (h : g.chars ++ rest = Group.spelled text ++ rest') : g.text = text ∧ rest = rest' := by
  obtain ⟨htake, hdrop⟩ := g.dropWhile_isDigit rest
  obtain ⟨htake', hdrop'⟩ := cut_digits (Group.all_isDigit_toDigits text.length) hstart rest'
  rw [h, Group.spelled] at htake hdrop
  have hdigits : g.digits = Nat.toDigits 10 text.length := htake.symm.trans htake'
  have hlength : g.text.length = text.length := by
    rw [← g.value, hdigits, Nat.ofDigitChars_ten_toDigits]
  exact List.append_inj (hdrop.symm.trans hdrop') hlength

/-- The segment of a group with a canonical text is spelled as this text. -/
theorem WrittenGroup.exists_escape_segment (g : WrittenGroup)
    (h : CanonicalText Token.HasCode g.text) :
    g.segment.toList ≠ [] ∧ ∃ spelling, Escape.escape g.segment.toList = .ok spelling ∧
      g.text = Group.guarded spelling := by
  obtain ⟨cs, spelling, hcs, hescape, htext⟩ := h.exists_escape g.start
  have hsegment : g.segment.toList = cs := by
    rw [← g.segment_eq, htext, Group.segment_guarded, Escape.expand_escape hescape,
      String.toList_ofList]
  rw [hsegment]
  exact ⟨hcs, spelling, hescape, htext⟩

theorem encodeSegments_map_segment {gs : List WrittenGroup}
    (h : ∀ g ∈ gs, CanonicalText Token.HasCode g.text) (index : Nat) :
    encodeSegments index (gs.map WrittenGroup.segment) = .ok (charsOf gs) := by
  induction gs generalizing index with
  | nil => rfl
  | cons g gs ih =>
    rw [List.forall_mem_cons] at h
    obtain ⟨hempty, spelling, hescape, htext⟩ := g.exists_escape_segment h.1
    rw [List.map_cons, encodeSegments_cons_eq_ok]
    refine ⟨hempty, spelling, charsOf gs, hescape, ih h.2 (index + 1), ?_⟩
    rw [WrittenGroup.charsOf_cons, g.chars_eq_spelled, htext]

/-- Encoded segments leave no room for an `E` behind their groups. -/
theorem canonicalText_of_encodeSegments {segments : List String} {gs : List WrittenGroup}
    {index : Nat} {closing : List Char} (hclosing : closing = [] ∨ closing = ['E'])
    (h : encodeSegments index segments = .ok (charsOf gs ++ closing)) :
    closing = [] ∧ ∀ g ∈ gs, CanonicalText Token.HasCode g.text := by
  induction segments generalizing index gs with
  | nil =>
    rw [encodeSegments, Except.ok.injEq] at h
    obtain ⟨hgs, hnil⟩ := List.append_eq_nil_iff.mp h.symm
    cases gs with
    | nil => exact ⟨hnil, by simp⟩
    | cons g gs =>
      rw [WrittenGroup.charsOf_cons] at hgs
      exact absurd (.inl hgs) (g.chars_append_ne _)
  | cons segment rest ih =>
    obtain ⟨hempty, spelling, tail, hescape, htail, hbody⟩ := encodeSegments_cons_eq_ok.mp h
    cases gs with
    | nil =>
      rw [WrittenGroup.charsOf_nil, List.nil_append, Group.spelled, List.append_assoc] at hbody
      exact absurd (hbody ▸ hclosing)
        (digits_append_ne Nat.toDigits_ne_nil (Group.all_isDigit_toDigits _) _)
    | cons g gs =>
      have hstart := Group.guarded_start (Escape.escape_ne_nil hempty hescape)
      rw [WrittenGroup.charsOf_cons, List.append_assoc] at hbody
      obtain ⟨htext, hrest⟩ := g.text_eq_of_spelled hstart hbody
      obtain ⟨hnil, hcanonical⟩ := ih (hrest ▸ htail)
      refine ⟨hnil, List.forall_mem_cons.mpr ⟨?_, hcanonical⟩⟩
      rw [htext]
      exact canonicalText_guarded hempty hescape

/-! ## Symbols -/

/-- A symbol that decodes is encoded from its path and hash exactly if it is canonical. -/
theorem encode_eq_ok_iff_canonicalSymbol {path : Path} {hash : Hash} {symbol : String}
    (h : decode symbol = .ok (.mangled path hash)) :
    encode path hash = .ok symbol ↔ CanonicalSymbol Token.HasCode symbol := by
  rw [encode_eq_ok_iff]
  constructor
  · intro hencode
    obtain ⟨-, body, hbody, hsymbol⟩ := hencode
    obtain ⟨hsegments, -⟩ := (decode_mangled_iff hsymbol).mp h
    obtain ⟨gs, hgs, -⟩ := segmentsOfBody_eq_ok_iff.mp hsegments
    obtain ⟨hnil, closing, hclosing, rfl⟩ := compose_iff.mp hgs
    obtain ⟨rfl, hcanonical⟩ := canonicalText_of_encodeSegments hclosing hbody
    rw [List.append_nil] at hsymbol
    refine ⟨.ofList (charsOf gs), hash.digits, gs, ?_, hnil, String.toList_ofList, hcanonical⟩
    rw [enveloped_iff]
    exact ⟨hash, rfl, by rw [String.toList_ofList, hsymbol]⟩
  · intro hcanonical
    obtain ⟨body, digits, gs, henveloped, hnil, hbody, htexts⟩ := hcanonical
    obtain ⟨hash', -, hsymbol⟩ := enveloped_iff.mp henveloped
    rw [hbody] at hsymbol
    obtain ⟨hsegments, rfl⟩ := (decode_mangled_iff hsymbol).mp h
    have hgs : segmentsOfBody (charsOf gs) = .ok (gs.map WrittenGroup.segment) :=
      segmentsOfBody_eq_ok_iff.mpr ⟨gs, ⟨hnil, .inl rfl⟩, rfl⟩
    rw [hgs, Except.ok.injEq] at hsegments
    rw [← hsegments]
    refine ⟨?_, charsOf gs, encodeSegments_map_segment htexts 0, hsymbol⟩
    rwa [ne_eq, List.map_eq_nil_iff]

/-- Of the symbols that decode to a path and a hash, encoding gives the canonical one.
For every other one it fails, or gives a different symbol with this path and hash, as
long as that is not longer than a length can say. -/
theorem encode_decoded_iff_canonical {path : Path} {hash : Hash} {symbol : String}
    (h : decode symbol = .ok (.mangled path hash)) :
    (encode path hash = .ok symbol ↔ CanonicalSymbol Token.HasCode symbol) ∧
    (¬ CanonicalSymbol Token.HasCode symbol →
      (∃ e, encode path hash = .error e) ∨
        ∃ other, encode path hash = .ok other ∧ other ≠ symbol ∧
          (other.length < Group.lengthLimit → decode other = .ok (.mangled path hash))) := by
  have hiff := encode_eq_ok_iff_canonicalSymbol h
  refine ⟨hiff, fun hnot => ?_⟩
  cases hencode : encode path hash with
  | error e => exact .inl ⟨e, rfl⟩
  | ok other =>
    refine .inr ⟨other, rfl, ?_, ?_⟩
    · rintro rfl
      exact hnot (hiff.mp hencode)
    · intro hlt
      exact decode_of_encode hencode (lengthsFit_of_encode hencode hlt)

def mixedSymbol : String := "_ZN19_1..:$u2e$$LT$$ue9$15__$u24$u20$u24$17h0123456789abcdefE"

/-- An underscore that guards nothing and a closing `E` are read, but not written. -/
theorem encode_decoded_iff_canonical_mixedSymbol :
    decode mixedSymbol = .ok (.mangled mixedPath mixedHash) ∧
      CanonicalSymbol Token.HasCode mixedSymbol ∧
      decode "_ZN4_fooE17h0123456789abcdefE" = .ok (.mangled ⟨["foo"]⟩ mixedHash) ∧
      ¬ CanonicalSymbol Token.HasCode "_ZN4_fooE17h0123456789abcdefE" ∧
      ∃ other, encode ⟨["foo"]⟩ mixedHash = .ok other ∧ other ≠ "_ZN4_fooE17h0123456789abcdefE" ∧
        decode other = .ok (.mangled ⟨["foo"]⟩ mixedHash) := by
  have hmixed : decode mixedSymbol = .ok (.mangled mixedPath mixedHash) := by decide +kernel
  have hmixed' : encode mixedPath mixedHash = .ok mixedSymbol := by decide +kernel
  have hcanonical := (encode_decoded_iff_canonical hmixed).1.mp hmixed'
  have hencode : encode ⟨["foo"]⟩ mixedHash = .ok "_ZN3foo17h0123456789abcdefE" := by
    decide +kernel
  have hclosed : decode "_ZN4_fooE17h0123456789abcdefE" = .ok (.mangled ⟨["foo"]⟩ mixedHash) := by
    decide +kernel
  obtain ⟨hiff, hother⟩ := encode_decoded_iff_canonical hclosed
  have hnot : ¬ CanonicalSymbol Token.HasCode "_ZN4_fooE17h0123456789abcdefE" := by
    rw [← hiff, hencode]
    decide
  refine ⟨hmixed, hcanonical, hclosed, hnot, ?_⟩
  rcases hother hnot with ⟨e, he⟩ | ⟨other, hok, hne, hshort⟩
  · rw [hencode] at he
    cases he
  · refine ⟨other, hok, hne, hshort ?_⟩
    rw [hencode] at hok
    cases hok
    decide

/-! ## Codes of more than four digits

Such a code is not recognised.  It is read as the characters it consists of, and its
dollars are escaped when they are written. -/

def longCodeSymbol : String := "_ZN8$u1f980$17h0123456789abcdefE"

/-- With codes for all characters the canonical symbols would not be the encoded ones. -/
theorem encode_longCode_ne :
    decode longCodeSymbol = .ok (.mangled ⟨["$u1f980$"]⟩ mixedHash) ∧
      encode ⟨["$u1f980$"]⟩ mixedHash = .ok "_ZN16$u24$u1f980$u24$17h0123456789abcdefE" ∧
      ¬ (encode ⟨["$u1f980$"]⟩ mixedHash = .ok longCodeSymbol ↔
        CanonicalSymbol (fun _ => True) longCodeSymbol) := by
  have hdecode : decode longCodeSymbol = .ok (.mangled ⟨["$u1f980$"]⟩ mixedHash) := by
    decide +kernel
  have hencode : encode ⟨["$u1f980$"]⟩ mixedHash =
      .ok "_ZN16$u24$u1f980$u24$17h0123456789abcdefE" := by
    decide +kernel
  let g : WrittenGroup :=
    { digits := ['8']
      text := "$u1f980$".toList
      all_isDigit := by simp
      head_ne_zero := by decide
      value := by decide
      length_lt := by decide
      start := ⟨'$', "u1f980$".toList, by decide, by decide⟩ }
  have hspelling : Token.IsSpelling (fun _ => True) g.text := by
    refine ⟨[.codePoint (Char.ofNat 0x1F980)], by simp, ?_, .singleton _, by decide⟩
    rw [List.forall_mem_singleton]
    refine ⟨?_, by decide, trivial⟩
    rintro (h | h | h) <;> revert h <;> decide
  have hcanonical : CanonicalSymbol (fun _ => True) longCodeSymbol := by
    have henveloped : Enveloped longCodeSymbol "8$u1f980$" mixedHash.digits :=
      enveloped_iff.mpr ⟨mixedHash, rfl, by decide⟩
    refine ⟨"8$u1f980$", mixedHash.digits, [g], henveloped, by simp, by decide, ?_⟩
    rw [List.forall_mem_singleton]
    exact .inl ⟨by decide, hspelling⟩
  refine ⟨hdecode, hencode, fun hiff => ?_⟩
  have hsame := hiff.mpr hcanonical
  rw [hencode] at hsame
  exact absurd hsame (by decide)

end SymbolCoverage.Symbol
