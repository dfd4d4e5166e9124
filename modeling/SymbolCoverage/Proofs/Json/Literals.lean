import SymbolCoverage.Json.Printer
import SymbolCoverage.Proofs.Json.Reading
import SymbolCoverage.Proofs.Symbol.RoundTrip

/-!
How strings are spelled.  A string is taken off the front of a text exactly if it is
spelled there, and the printer writes one of its spellings.
-/

namespace SymbolCoverage.Json

variable {text rest : List Char} {c : Char} {n : Nat}

/-! ## Strings -/

/-- The code that four digits name. -/
inductive CodeUnitSpelled : Spelling Nat
  | mk {w x y z : Char} {n : Nat} {rest : List Char} :
    Text.hexNumber? [w, x, y, z] = some n → CodeUnitSpelled n (w :: x :: y :: z :: rest) rest

/-- A character behind a backslash: by a letter, by its code, or by the codes of the two
surrogates that make it up.  Where surrogates need not come in pairs, each counts as a
replacement character. -/
inductive EscapeSpelled : Surrogates → Spelling Char
  | short {surrogates : Surrogates} {e c : Char} {rest : List Char} :
    shortEscapes.lookup e = some c → EscapeSpelled surrogates c (e :: rest) rest
  | code {surrogates : Surrogates} {n : Nat} {c : Char} {text rest : List Char} :
    CodeUnitSpelled n text rest → Text.scalar? n = some c →
      EscapeSpelled surrogates c ('u' :: text) rest
  | pair {high low : Nat} {c : Char} {text behind rest : List Char} :
    CodeUnitSpelled high text ('\\' :: 'u' :: behind) → Text.scalar? high = none →
      isLowSurrogate high = false → CodeUnitSpelled low behind rest →
        isLowSurrogate low = true → Text.scalar? (pairedCodePoint high low) = some c →
          EscapeSpelled .paired c ('u' :: text) rest
  | lone {n : Nat} {text rest : List Char} :
    CodeUnitSpelled n text rest → Text.scalar? n = none →
      EscapeSpelled .free '\ufffd' ('u' :: text) rest

inductive CharSpelled (surrogates : Surrogates) : Spelling Char
  | plain {c : Char} {rest : List Char} :
    c ≠ '"' → c ≠ '\\' → ¬ c < ' ' → CharSpelled surrogates c (c :: rest) rest
  | escaped {c : Char} {text rest : List Char} :
    EscapeSpelled surrogates c text rest → CharSpelled surrogates c ('\\' :: text) rest

/-- Characters, and the closing quote. -/
inductive CharsSpelled (surrogates : Surrogates) : Spelling (List Char)
  | close {rest : List Char} : CharsSpelled surrogates [] ('"' :: rest) rest
  | cons {c : Char} {cs text after rest : List Char} :
    CharSpelled surrogates c text after → CharsSpelled surrogates cs after rest →
      CharsSpelled surrogates (c :: cs) text rest

/-- A string, after its opening quote. -/
def StringSpelled (surrogates : Surrogates) : Spelling String :=
  fun s text rest => CharsSpelled surrogates s.toList text rest

/-! ## Escapes are read exactly as they are spelled -/

theorem lookup_u : shortEscapes.lookup 'u' = none := by decide

theorem reads_codeUnit_iff : Reads codeUnit text n rest ↔ CodeUnitSpelled n text rest := by
  constructor
  · intro h
    obtain ⟨hlt, hread⟩ := h
    unfold codeUnit at hread
    split at hread
    next w x y z tail =>
      split at hread
      next n' hnumber =>
        cases hread
        exact .mk hnumber
      next => cases hread
    next => cases hread
  · intro h
    obtain ⟨hnumber⟩ := h
    refine ⟨length_lt_of_four _ _ _ _ rest, ?_⟩
    rw [codeUnit, hnumber]

theorem reads_exactly_iff : Reads (exactly c) text () rest ↔ text = c :: rest := by
  constructor
  · intro h
    obtain ⟨hlt, hread⟩ := h
    cases text with
    | nil => cases hread
    | cons d text =>
      rw [exactly] at hread
      split at hread
      next hdc =>
        cases hread
        rw [hdc]
      next => cases hread
  · intro h
    subst h
    exact ⟨Nat.lt_succ_self _, if_pos rfl⟩

/-- The second half of a pair is an escape for a low surrogate. -/
theorem reads_lowHalf_iff {high : Nat} :
    Reads (lowHalf high) text c rest ↔
      ∃ behind low, text = '\\' :: 'u' :: behind ∧ CodeUnitSpelled low behind rest ∧
        isLowSurrogate low = true ∧ Text.scalar? (pairedCodePoint high low) = some c := by
  constructor
  · intro h
    obtain ⟨hlt, hread⟩ := h
    obtain ⟨slash, hslash, hread⟩ := bind_eq_ok.mp hread
    obtain ⟨letter, hletter, hread⟩ := bind_eq_ok.mp hread
    obtain ⟨low, hlow, hread⟩ := bind_eq_ok.mp hread
    have htext := reads_exactly_iff.mp (reads_of_eq_ok hslash)
    have hbehind := reads_exactly_iff.mp (reads_of_eq_ok hletter)
    have hunit := reads_codeUnit_iff.mp (reads_of_eq_ok hlow)
    split at hread
    next hsurrogate =>
      split at hread
      next d hscalar =>
        cases hread
        exact ⟨letter.rest, low.value, hbehind ▸ htext, hunit, hsurrogate, hscalar⟩
      next => cases hread
    next => cases hread
  · intro h
    obtain ⟨behind, low, rfl, hunit, hsurrogate, hscalar⟩ := h
    obtain ⟨hlt, hlow⟩ := reads_codeUnit_iff.mpr hunit
    refine ⟨Nat.lt_succ_of_lt (Nat.lt_succ_of_lt hlt), ?_⟩
    refine bind_eq_ok.mpr ⟨_, hlow, ?_⟩
    simp only [hsurrogate, if_true, hscalar]
    rfl

/-- What is read for a code depends on whether it names a character. -/
theorem codePoint_eq {surrogates : Surrogates} {p : Parsed Nat text} (h : codeUnit text = .ok p) :
    codePoint surrogates text =
      match Text.scalar? p.value, surrogates with
      | some c, _ => .ok (p.map fun _ => c)
      | none, .free => .ok (p.map fun _ => '\ufffd')
      | none, .paired =>
        if isLowSurrogate p.value then .error .malformed
        else (lowHalf p.value p.rest).map (·.after p.shorter) := by
  unfold codePoint
  generalize codeUnit text = result at h
  subst h
  rfl

theorem reads_codePoint_iff {surrogates : Surrogates} :
    Reads (codePoint surrogates) text c rest ↔ EscapeSpelled surrogates c ('u' :: text) rest := by
  constructor
  · intro h
    obtain ⟨hlt, hread⟩ := h
    cases hunit : codeUnit text with
    | error e => rw [codePoint, hunit] at hread; cases hread
    | ok p =>
      have hspelled := reads_codeUnit_iff.mp (reads_of_eq_ok hunit)
      rw [codePoint_eq hunit] at hread
      split at hread
      next d hscalar =>
        cases hread
        exact .code hspelled hscalar
      next hscalar =>
        cases hread
        exact .lone hspelled hscalar
      next hscalar =>
        split at hread
        next => cases hread
        next hhigh =>
          obtain ⟨q, hq, hafter⟩ := map_eq_ok.mp hread
          cases hafter
          obtain ⟨behind, low, htext, hlow, hsurrogate, hpaired⟩ :=
            reads_lowHalf_iff.mp (reads_of_eq_ok hq)
          rw [htext] at hspelled
          exact .pair hspelled hscalar (Bool.eq_false_iff.mpr hhigh) hlow hsurrogate hpaired
  · intro h
    cases h with
    | short hlookup =>
      rw [lookup_u] at hlookup
      cases hlookup
    | code hspelled hscalar =>
      obtain ⟨hlt, hunit⟩ := reads_codeUnit_iff.mpr hspelled
      refine ⟨hlt, ?_⟩
      rw [codePoint_eq hunit]
      simp only [hscalar]
      rfl
    | pair hspelled hscalar hhigh hlow hsurrogate hpaired =>
      obtain ⟨hlt, hunit⟩ := reads_codeUnit_iff.mpr hspelled
      obtain ⟨hlt', hhalf⟩ := reads_lowHalf_iff.mpr ⟨_, _, rfl, hlow, hsurrogate, hpaired⟩
      refine ⟨Nat.lt_trans hlt' hlt, ?_⟩
      rw [codePoint_eq hunit]
      simp only [hscalar, hhigh, hhalf]
      rfl
    | lone hspelled hscalar =>
      obtain ⟨hlt, hunit⟩ := reads_codeUnit_iff.mpr hspelled
      refine ⟨hlt, ?_⟩
      rw [codePoint_eq hunit]
      simp only [hscalar]
      rfl

theorem reads_escape_iff {surrogates : Surrogates} :
    Reads (escape surrogates) text c rest ↔ EscapeSpelled surrogates c text rest := by
  cases text with
  | nil =>
    constructor
    · intro h
      obtain ⟨hlt, hread⟩ := h
      cases hread
    · nofun
  | cons e tail =>
    cases hlookup : shortEscapes.lookup e with
    | some d =>
      have hescape : escape surrogates (e :: tail) = .ok (.ofChar d e tail) := by
        rw [escape, hlookup]
      constructor
      · intro h
        obtain ⟨hlt, hread⟩ := h
        rw [hescape] at hread
        cases hread
        exact .short hlookup
      · intro h
        cases h with
        | short h =>
          rw [hlookup] at h
          cases h
          exact ⟨_, hescape⟩
        | _ =>
          rw [lookup_u] at hlookup
          cases hlookup
    | none =>
      have hescape : escape surrogates (e :: tail) =
          if e = 'u' then (codePoint surrogates tail).map (·.behind e) else .error .malformed := by
        rw [escape, hlookup]
      constructor
      · intro h
        obtain ⟨hlt, hread⟩ := h
        rw [hescape] at hread
        split at hread
        next hu =>
          obtain ⟨p, hp, hbehind⟩ := map_eq_ok.mp hread
          cases hbehind
          subst hu
          exact reads_codePoint_iff.mp (reads_of_eq_ok hp)
        next => cases hread
      · intro h
        have hu : e = 'u' := by
          cases h with
          | short h => rw [hlookup] at h; cases h
          | _ => rfl
        subst hu
        obtain ⟨hlt, hpoint⟩ := reads_codePoint_iff.mpr h
        refine ⟨Nat.lt_succ_of_lt hlt, ?_⟩
        rw [hescape, if_pos rfl, hpoint]
        rfl

/-! ## Strings are read exactly as they are spelled -/

variable {surrogates : Surrogates}

/-- Characters are read in order, behind those that have been read. -/
theorem CharsSpelled.reads_literalFrom {cs : List Char} (h : CharsSpelled surrogates cs text rest)
    (start read : List Char) (hle : text.length ≤ start.length) :
    ∃ hlt, literalFrom surrogates start read text hle =
      .ok ⟨.ofList (read.reverse ++ cs), rest, hlt⟩ := by
  induction h generalizing read with
  | close =>
    refine ⟨hle, ?_⟩
    rw [literalFrom, if_pos rfl, List.append_nil]
  | @cons c cs text after rest hc _ ih =>
    have hbehind : read.reverse ++ c :: cs = (c :: read).reverse ++ cs := by simp
    rw [hbehind]
    cases hc with
    | plain hquote hbackslash hcontrol =>
      obtain ⟨hlt, ih⟩ := ih (c :: read) (Nat.le_of_lt hle)
      refine ⟨hlt, ?_⟩
      rw [literalFrom, if_neg hquote, if_neg hbackslash, if_neg hcontrol]
      exact ih
    | escaped hescape =>
      obtain ⟨hafter, hread⟩ := reads_escape_iff.mpr hescape
      obtain ⟨hlt, ih⟩ := ih (c :: read) (Nat.le_trans (Nat.le_of_lt hafter) (Nat.le_of_lt hle))
      refine ⟨hlt, ?_⟩
      rw [literalFrom, if_neg (by decide), if_pos rfl, hread]
      exact ih

theorem charsSpelled_of_literalFrom {start read : List Char} {hle : text.length ≤ start.length}
    {p : Parsed String start} (h : literalFrom surrogates start read text hle = .ok p) :
    ∃ cs, CharsSpelled surrogates cs text p.rest ∧ p.value = .ofList (read.reverse ++ cs) := by
  fun_induction literalFrom surrogates start read text hle with
  | case1 => cases h
  | case2 =>
    cases h
    exact ⟨[], .close, by rw [List.append_nil]⟩
  | case3 => cases h
  | case4 read tail q hescape _ _ _ _ ih =>
    obtain ⟨cs, hcs, hvalue⟩ := ih h
    have hspelled := reads_escape_iff.mp (reads_of_eq_ok hescape)
    exact ⟨q.value :: cs, .cons (.escaped hspelled) hcs, by simpa using hvalue⟩
  | case5 => cases h
  | case6 read c tail _ hquote hbackslash hcontrol _ ih =>
    obtain ⟨cs, hcs, hvalue⟩ := ih h
    exact ⟨c :: cs, .cons (.plain hquote hbackslash hcontrol) hcs, by simpa using hvalue⟩

theorem reads_literal_iff {s : String} :
    Reads (literal surrogates) text s rest ↔ StringSpelled surrogates s text rest := by
  constructor
  · intro h
    obtain ⟨hlt, hread⟩ := h
    obtain ⟨cs, hcs, hvalue⟩ := charsSpelled_of_literalFrom hread
    have hchars : s.toList = cs := by
      simp only at hvalue
      rw [hvalue, List.reverse_nil, List.nil_append, String.toList_ofList]
    rw [StringSpelled, hchars]
    exact hcs
  · intro h
    obtain ⟨hlt, hread⟩ := CharsSpelled.reads_literalFrom h text [] (le_length text)
    refine ⟨hlt, ?_⟩
    rw [literal, hread]
    simp only [List.reverse_nil, List.nil_append, String.ofList_toList]

/-! ## Paired surrogates are surrogates -/

theorem scalar?_of_isLowSurrogate (h : isLowSurrogate n = true) : Text.scalar? n = none := by
  simp only [isLowSurrogate, Bool.and_eq_true, decide_eq_true_eq] at h
  have hn : ¬ n.isValidChar := by
    unfold Nat.isValidChar
    omega
  exact if_neg hn

/-- A string whose surrogates come in pairs is also one whose surrogates need not. -/
theorem CharsSpelled.exists_free {cs : List Char} (h : CharsSpelled .paired cs text rest) :
    ∃ cs', CharsSpelled .free cs' text rest := by
  induction h with
  | close => exact ⟨[], .close⟩
  | @cons c _ _ _ _ hc _ ih =>
    obtain ⟨cs', hcs'⟩ := ih
    cases hc with
    | plain hquote hbackslash hcontrol =>
      exact ⟨c :: cs', .cons (.plain hquote hbackslash hcontrol) hcs'⟩
    | escaped hescape =>
      cases hescape with
      | short hlookup => exact ⟨c :: cs', .cons (.escaped (.short hlookup)) hcs'⟩
      | code hunit hscalar => exact ⟨c :: cs', .cons (.escaped (.code hunit hscalar)) hcs'⟩
      | pair hhigh hscalar _ hlow hsurrogate _ =>
        have hlone := EscapeSpelled.lone hlow (scalar?_of_isLowSurrogate hsurrogate)
        exact ⟨_, .cons (.escaped (.lone hhigh hscalar)) (.cons (.escaped hlone) hcs')⟩

theorem StringSpelled.exists_free {s : String} (h : StringSpelled .paired s text rest) :
    ∃ s', StringSpelled .free s' text rest := by
  obtain ⟨cs, hcs⟩ := CharsSpelled.exists_free h
  refine ⟨.ofList cs, ?_⟩
  rw [StringSpelled, String.toList_ofList]
  exact hcs

/-! ## Printed strings -/

/-- Zeros and the digits of a control are four digits that name it. -/
theorem charSpelled_code (hc : c < ' ') (rest : List Char) :
    let digits := Text.hexSpelling c.toNat
    CharSpelled surrogates c
      (['\\', 'u'] ++ List.replicate (4 - digits.length) '0' ++ digits ++ rest) rest := by
  intro digits
  have hlength : digits.length ≤ 4 :=
    Symbol.Escape.length_hexSpelling_le (Nat.le_trans (Nat.le_of_lt hc) (by decide))
  have hpadded : (List.replicate (4 - digits.length) '0' ++ digits).length = 4 := by
    rw [List.length_append, List.length_replicate]
    omega
  have hnumber := (Text.hexNumber?_replicate_zero (4 - digits.length) digits).trans
    (Text.hexNumber?_hexSpelling c.toNat)
  obtain ⟨w, x, y, z, hfour⟩ := List.length_eq_four.mp hpadded
  rw [hfour] at hnumber
  rw [List.append_assoc ['\\', 'u'], hfour]
  exact .escaped (.code (.mk hnumber) (Text.scalar?_toNat c))

theorem charSpelled_charForm (c : Char) (rest : List Char) :
    CharSpelled surrogates c (charForm c ++ rest) rest := by
  have hshort : ∀ {d e}, c = d → shortEscapes.lookup e = some d →
      CharSpelled surrogates c (['\\', e] ++ rest) rest := by
    rintro _ e rfl he
    exact .escaped (.short he)
  unfold charForm
  split_ifs with hquote hbackslash hbackspace hfeed hnewline hreturn htab hcontrol
  · exact hshort hquote rfl
  · exact hshort hbackslash rfl
  · exact hshort hbackspace rfl
  · exact hshort hfeed rfl
  · exact hshort hnewline rfl
  · exact hshort hreturn rfl
  · exact hshort htab rfl
  · exact charSpelled_code hcontrol rest
  · exact .plain hquote hbackslash hcontrol

theorem charsSpelled_flatMap (cs rest : List Char) :
    CharsSpelled surrogates cs (cs.flatMap charForm ++ '"' :: rest) rest := by
  induction cs with
  | nil => exact .close
  | cons c cs ih =>
    rw [List.flatMap_cons, List.append_assoc]
    exact .cons (charSpelled_charForm c _) ih

/-- A printed string is its opening quote and a spelling. -/
theorem stringForm_append (s : String) (rest : List Char) :
    ∃ text, stringForm s ++ rest = '"' :: text ∧ StringSpelled surrogates s text rest := by
  refine ⟨s.toList.flatMap charForm ++ '"' :: rest, ?_, charsSpelled_flatMap s.toList rest⟩
  simp only [stringForm, List.append_assoc, List.cons_append, List.nil_append]

end SymbolCoverage.Json
