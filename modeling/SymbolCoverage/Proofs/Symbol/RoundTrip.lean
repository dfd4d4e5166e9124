import SymbolCoverage.Proofs.Symbol.Grammar
import SymbolCoverage.Proofs.Symbol.Spelling

/-!
Decoding undoes encoding.  Each encoded segment is a group of the grammar, since
the underscore in front keeps a digit of the text apart from the numeral, and
dropping it again and expanding the text gives the segment.
-/

namespace SymbolCoverage.Symbol

namespace Group

theorem guarded_cons (c : Char) (rest : List Char) :
    guarded (c :: rest) =
      if c = '_' ∨ c.isDigit = true then '_' :: c :: rest else c :: rest := rfl

/-- The guard is what is dropped when the text is read. -/
theorem segment_guarded (text : List Char) :
    segment (guarded text) = .ofList (Escape.expand text) := by
  cases text with
  | nil => rfl
  | cons c rest =>
    rw [guarded_cons]
    by_cases hc : c = '_' ∨ c.isDigit = true
    · rw [if_pos hc, segment]
    · rw [if_neg hc, segment.eq_2 _ fun _ h => hc (.inl (List.cons.inj h).1)]

/-- A guarded text does not start with a digit. -/
theorem guarded_start {text : List Char} (h : text ≠ []) :
    ∃ c rest, guarded text = c :: rest ∧ c.isDigit = false := by
  obtain ⟨c, rest, rfl⟩ := List.exists_cons_of_ne_nil h
  rw [guarded_cons]
  by_cases hc : c = '_' ∨ c.isDigit = true
  · exact ⟨'_', c :: rest, if_pos hc, by decide⟩
  · refine ⟨c, rest, if_neg hc, ?_⟩
    rw [not_or] at hc
    exact Bool.eq_false_iff.mpr hc.2

theorem all_isDigit_toDigits (n : Nat) : ∀ c ∈ Nat.toDigits 10 n, c.isDigit = true :=
  fun _ hc => Nat.isDigit_of_mem_toDigits (by decide) (by decide) hc

theorem head?_toDigits_ne_zero {n : Nat} (h : 0 < n) : (Nat.toDigits 10 n).head? ≠ some '0' := by
  induction n using Nat.base_induction 10 (by decide) with
  | single d hd =>
    rw [Nat.toDigits_of_lt_base hd]
    interval_cases d <;> decide
  | digit n d hd hn ih =>
    rw [← Nat.toDigits_append_toDigits (by decide) hn hd, List.head?_append_of_ne_nil _ (by simp)]
    exact ih hn

/-- An encoded segment is a group that stands for this segment. -/
theorem exists_group_of_escape {cs text : List Char} (hcs : cs ≠ [])
    (h : Escape.escape cs = .ok text) (hlt : (guarded text).length < lengthLimit) :
    ∃ g : WrittenGroup, g.chars = spelled (guarded text) ∧ g.segment = .ofList cs := by
  obtain ⟨c, rest, hstart, hc⟩ := guarded_start (Escape.escape_ne_nil hcs h)
  have hpos : 0 < (guarded text).length := by
    rw [hstart]
    exact Nat.succ_pos _
  let g : WrittenGroup :=
    { digits := Nat.toDigits 10 (guarded text).length
      text := guarded text
      all_isDigit := all_isDigit_toDigits _
      head_ne_zero := head?_toDigits_ne_zero hpos
      value := Nat.ofDigitChars_ten_toDigits
      length_lt := hlt
      start := ⟨c, rest, hstart, hc⟩ }
  refine ⟨g, rfl, ?_⟩
  rw [← g.segment_eq, segment_guarded, Escape.expand_escape h]

end Group

/-- Each text that encoding puts behind a length is as short as a length can say. -/
def Path.LengthsFit (path : Path) : Prop :=
  ∀ segment ∈ path.segments, ∀ text, Escape.escape segment.toList = .ok text →
    (Group.guarded text).length < Group.lengthLimit

theorem toList_eq_nil_iff {s : String} : s.toList = [] ↔ s = "" := by
  rw [← String.toList_inj]
  rfl

theorem encodeSegments_isOk_iff (segments : List String) (index : Nat) :
    (∃ body, encodeSegments index segments = .ok body) ↔
      ∀ segment ∈ segments, segment ≠ "" ∧ ∀ c ∈ segment.toList, c.toNat ≤ 0xFFFF := by
  induction segments generalizing index with
  | nil => simp [encodeSegments]
  | cons segment rest ih =>
    rw [List.forall_mem_cons, encodeSegments, ← ih (index + 1)]
    by_cases hempty : segment.toList = []
    · rw [if_pos hempty]
      simp [toList_eq_nil_iff.mp hempty]
    · rw [if_neg hempty]
      have hne : segment ≠ "" := fun h => hempty (toList_eq_nil_iff.mpr h)
      have hlimit := Escape.escape_isOk_iff segment.toList
      rw [Escape.codePointLimit] at hlimit
      rw [← hlimit]
      cases hescape : Escape.escape segment.toList with
      | error c => simp
      | ok text => simp [map_eq_ok, hne]

theorem encodeSegments_cons_eq_ok {segment : String} {rest : List String} {index : Nat}
    {body : List Char} :
    encodeSegments index (segment :: rest) = .ok body ↔
      segment.toList ≠ [] ∧ ∃ text tail, Escape.escape segment.toList = .ok text ∧
        encodeSegments (index + 1) rest = .ok tail ∧
          body = Group.spelled (Group.guarded text) ++ tail := by
  rw [encodeSegments]
  by_cases hempty : segment.toList = []
  · simp [hempty]
  · rw [if_neg hempty]
    cases Escape.escape segment.toList with
    | error c => simp
    | ok text => simp [map_eq_ok, hempty, @eq_comm _ body]

theorem exists_groups_of_encodeSegments {segments : List String} {index : Nat} {body : List Char}
    (h : encodeSegments index segments = .ok body)
    (hfit : ∀ segment ∈ segments, ∀ text, Escape.escape segment.toList = .ok text →
      (Group.guarded text).length < Group.lengthLimit) :
    ∃ gs, body = WrittenGroup.charsOf gs ∧ gs.map WrittenGroup.segment = segments := by
  induction segments generalizing index body with
  | nil =>
    cases h
    exact ⟨[], rfl, rfl⟩
  | cons segment rest ih =>
    rw [List.forall_mem_cons] at hfit
    obtain ⟨hempty, text, tail, hescape, htail, rfl⟩ := encodeSegments_cons_eq_ok.mp h
    obtain ⟨gs, rfl, rfl⟩ := ih htail hfit.2
    obtain ⟨g, hchars, hsegment⟩ :=
      Group.exists_group_of_escape hempty hescape (hfit.1 text hescape)
    refine ⟨g :: gs, ?_, ?_⟩
    · rw [WrittenGroup.charsOf_cons, hchars]
    · rw [List.map_cons, hsegment, String.ofList_toList]

theorem encode_eq_ok_iff {path : Path} {hash : Hash} {symbol : String} :
    encode path hash = .ok symbol ↔
      path.segments ≠ [] ∧ ∃ body, encodeSegments 0 path.segments = .ok body ∧
        symbol.toList = opening ++ body ++ suffix hash := by
  rw [encode]
  by_cases hnil : path.segments = []
  · simp [hnil]
  · rw [if_neg hnil, map_eq_ok]
    simp only [ne_eq, hnil, not_false_eq_true, true_and, ← String.toList_inj,
      String.toList_ofList, eq_comm]

theorem decode_of_encode {path : Path} {hash : Hash} {symbol : String}
    (h : encode path hash = .ok symbol) (hfit : path.LengthsFit) :
    decode symbol = .ok (.mangled path hash) := by
  obtain ⟨hnil, body, hbody, hsymbol⟩ := encode_eq_ok_iff.mp h
  obtain ⟨gs, rfl, hsegments⟩ := exists_groups_of_encodeSegments hbody hfit
  have hgs : gs ≠ [] := by
    rintro rfl
    exact hnil hsegments.symm
  rw [decode_eq_mangled_iff]
  exact ⟨_, hsymbol, segmentsOfBody_eq_ok_iff.mpr ⟨gs, ⟨hgs, .inl rfl⟩, hsegments.symm⟩⟩

theorem length_guarded_le {segments : List String} {index : Nat} {body : List Char}
    (h : encodeSegments index segments = .ok body) :
    ∀ segment ∈ segments, ∀ text, Escape.escape segment.toList = .ok text →
      (Group.guarded text).length ≤ body.length := by
  induction segments generalizing index body with
  | nil =>
    intro segment hs
    cases hs
  | cons first rest ih =>
    obtain ⟨-, spelling, tail, hescape, htail, rfl⟩ := encodeSegments_cons_eq_ok.mp h
    rw [List.forall_mem_cons]
    constructor
    · intro text htext
      rw [hescape] at htext
      cases htext
      simp only [Group.spelled, List.length_append]
      omega
    · intro segment hs text htext
      have hle := ih htail segment hs text htext
      rw [List.length_append]
      omega

/-- An encoded symbol that is itself shorter than a length can say fits. -/
theorem lengthsFit_of_encode {path : Path} {hash : Hash} {symbol : String}
    (h : encode path hash = .ok symbol) (hlt : symbol.length < Group.lengthLimit) :
    path.LengthsFit := by
  obtain ⟨-, body, hbody, hsymbol⟩ := encode_eq_ok_iff.mp h
  intro segment hs text htext
  have hle := length_guarded_le hbody segment hs text htext
  rw [← String.length_toList, hsymbol, List.length_append, List.length_append] at hlt
  omega

/-- A path is encoded exactly if it has segments, none of them empty, and no
character above `U+FFFF`, and the encoded symbol decodes to this path and hash. -/
theorem decode_encode (path : Path) (hash : Hash) :
    ((∃ symbol, encode path hash = .ok symbol) ↔
      path.segments ≠ [] ∧
        ∀ segment ∈ path.segments, segment ≠ "" ∧ ∀ c ∈ segment.toList, c.toNat ≤ 0xFFFF) ∧
    ∀ symbol, encode path hash = .ok symbol → path.LengthsFit →
      decode symbol = .ok (.mangled path hash) := by
  rw [encode]
  by_cases hnil : path.segments = []
  · rw [if_pos hnil]
    simp [hnil]
  · rw [if_neg hnil]
    refine ⟨?_, fun symbol h hfit => ?_⟩
    · rw [← encodeSegments_isOk_iff path.segments 0]
      simp [map_eq_ok, hnil]
    · obtain ⟨body, hbody, rfl⟩ := map_eq_ok.mp h
      obtain ⟨gs, rfl, hsegments⟩ := exists_groups_of_encodeSegments hbody hfit
      have hgs : gs ≠ [] := by
        intro h
        rw [h] at hsegments
        exact hnil hsegments.symm
      rw [decode_mangled_iff String.toList_ofList, segmentsOfBody_eq_ok_iff]
      exact ⟨⟨gs, ⟨hgs, .inl rfl⟩, hsegments.symm⟩, rfl⟩

/-- Segments with three colons, a dot, a digit and an underscore in front, and text
that looks like a code. -/
def mixedPath : Path := ⟨["1:::.<é", "_$u20$"]⟩

def mixedHash : Hash := ⟨"0123456789abcdef", by decide⟩

theorem decode_encode_mixedPath :
    encode mixedPath mixedHash =
        .ok "_ZN19_1..:$u2e$$LT$$ue9$15__$u24$u20$u24$17h0123456789abcdefE" ∧
      mixedPath.LengthsFit ∧
      decode "_ZN19_1..:$u2e$$LT$$ue9$15__$u24$u20$u24$17h0123456789abcdefE" =
        .ok (.mangled mixedPath mixedHash) := by
  have hencode : encode mixedPath mixedHash =
      .ok "_ZN19_1..:$u2e$$LT$$ue9$15__$u24$u20$u24$17h0123456789abcdefE" := rfl
  have hfit : mixedPath.LengthsFit := by
    intro segment hsegment text htext
    simp only [mixedPath, List.mem_cons, List.not_mem_nil, or_false] at hsegment
    rcases hsegment with rfl | rfl
    · have hescape : Escape.escape "1:::.<é".toList = .ok "1..:$u2e$$LT$$ue9$".toList := by
        decide +kernel
      rw [hescape] at htext
      cases htext
      decide
    · have hescape : Escape.escape "_$u20$".toList = .ok "_$u24$u20$u24$".toList := by
        decide +kernel
      rw [hescape] at htext
      cases htext
      decide
  exact ⟨hencode, hfit, (decode_encode mixedPath mixedHash).2 _ hencode hfit⟩

end SymbolCoverage.Symbol
