import SymbolCoverage.Proofs.Symbol.Spelling
import SymbolCoverage.Proofs.Text.Cuts
import SymbolCoverage.Symbol.Decoded

/-!
Decoding with byte offsets.  A program need not take a symbol apart into characters: it can keep
the text and cut it at offsets, which it finds by counting bytes, and go through a body and through
the text of a group in loops.  Here are the definitions, with cuts and sums that may be undefined
and with loops that may not end.  Of escapes it is shown that none of this happens: each pass of the
loop takes some characters off the text, as expanding a list of characters does.
-/

namespace SymbolCoverage.Symbol.Bytewise

open Text

/-! ## Escapes -/

/-- Splits the text after an opening `$` at the closing one. -/
def splitCode (limit : Nat) (text : String) : Checked (Option (Escape × String)) :=
  match offsetOf? '$' text with
  | none => pure none
  | some close => do
    let code ← sliceTo text close
    match Escape.ofCode? code.toList with
    | none => pure none
    | some e => do
      let start ← add limit close 1
      let tail ← sliceFrom text start
      pure (some (e, tail))

/-- A text that is being expanded: what it gave so far, and what is left of it. -/
structure Expansion where
  out : String
  rest : String

/-- Copies the character in front. -/
def copyPass (s : Expansion) (c : Char) : Checked (Pass Expansion String) := do
  let tail ← sliceFrom s.rest c.utf8Size
  pure (.again ⟨s.out.push c, tail⟩)

def expandPass (limit : Nat) (s : Expansion) : Checked (Pass Expansion String) :=
  match s.rest.toList.head? with
  | none => pure (.done s.out)
  | some c =>
    match stripPrefix? ".." s.rest with
    | some tail => pure (.again ⟨s.out ++ "::", tail⟩)
    | none =>
      if c = '$' then do
        let text ← sliceFrom s.rest 1
        match ← splitCode limit text with
        | some (e, tail) => pure (.again ⟨s.out.push e.char, tail⟩)
        | none => copyPass s c
      else copyPass s c

def unescape (limit : Nat) (text : String) : Checked String := loop (expandPass limit) ⟨"", text⟩

/-! ## Bodies -/

/-- A body that is being read: the segments so far, and where the next group starts. -/
structure Reading where
  segments : List String
  offset : Nat

/-- The number of digits in front, and the length that they announce. -/
def announced (offset : Nat) (rest : String) : Checked (Except Malformation (Nat × Nat)) :=
  let count := leadingDigits rest
  if count = 0 ∨ rest.toList.head? = some '0' then pure (.error (.missingLength offset))
  else do
    let digits ← sliceTo rest count
    let declared := Nat.ofDigitChars 10 digits.toList 0
    if Group.lengthLimit ≤ declared then pure (.error (.lengthOverflow offset))
    else pure (.ok (count, declared))

/-- Where the text of a group ends that has a number of characters. -/
def textEnd (offset declared : Nat) (group : String) : Except Malformation Nat :=
  match (charIndices 0 group.toList)[declared]? with
  | some (stop, _) => .ok stop
  | none =>
    if group.length < declared then .error (.groupOverrun offset declared group.length)
    else .ok group.utf8ByteSize

/-- The segment of a group whose text ends at an offset. -/
def segmentTo (limit : Nat) (group : String) (stop : Nat) : Checked String := do
  let text ← sliceTo group stop
  unescape limit ((stripPrefix? "_" text).getD text)

def groupPass (limit : Nat) (body : String) (s : Reading) :
    Checked (Pass Reading (Except Malformation (List String))) :=
  if body.utf8ByteSize ≤ s.offset then pure (.done (.ok s.segments))
  else do
    let rest ← sliceFrom body s.offset
    if rest = "E" then pure (.done (.ok s.segments))
    else
      match ← announced s.offset rest with
      | .error reason => pure (.done (.error reason))
      | .ok (count, declared) => do
        let group ← sliceFrom rest count
        match textEnd s.offset declared group with
        | .error reason => pure (.done (.error reason))
        | .ok stop => do
          let segment ← segmentTo limit group stop
          let length ← add limit count stop
          let offset ← add limit s.offset length
          pure (.again ⟨s.segments ++ [segment], offset⟩)

def decodeBody (limit : Nat) (body : String) : Checked (Except Malformation (List String)) :=
  if body = "" ∨ body = "E" then pure (.error .emptyBody)
  else loop (groupPass limit body) ⟨[], 0⟩

/-! ## Symbols -/

/-- The hash of the part that closes the envelope. -/
def hashOf? (tail : String) : Option Hash :=
  ((stripPrefix? "17h" tail).bind (stripSuffix? "E")).bind (Hash.ofChars? ·.toList)

/-- The body and the hash of a symbol in the envelope. -/
def splitEnvelope (symbol : String) : Checked (Option (String × Hash)) :=
  match stripPrefix? "_ZN" symbol with
  | none => pure none
  | some rest =>
    if rest.utf8ByteSize < suffixLength then pure none
    else
      let cut := rest.utf8ByteSize - suffixLength
      if IsBoundary rest cut then do
        let body ← sliceTo rest cut
        let tail ← sliceFrom rest cut
        pure ((hashOf? tail).map (body, ·))
      else pure none

def decode (limit : Nat) (symbol : String) : Checked (Except MalformedSymbol Decoded) := do
  match ← splitEnvelope symbol with
  | none => pure (.ok (.verbatim symbol))
  | some (body, hash) =>
    match ← decodeBody limit body with
    | .ok segments => pure (.ok (.mangled ⟨segments⟩ hash))
    | .error reason => pure (.error ⟨symbol, reason⟩)

variable {limit : Nat}

/-! ## Expanding -/

theorem splitCode_ofList {text : List Char} (h : utf8Length text < limit) :
    splitCode limit (.ofList text) =
      pure ((Escape.splitCode? text).map fun split => (split.1, .ofList split.2)) := by
  by_cases hmem : '$' ∈ text
  · obtain ⟨code, tail, rfl, hdollar⟩ := List.eq_append_cons_of_mem hmem
    have hclose : offsetOf? '$' (.ofList (code ++ '$' :: tail)) = some (utf8Length code) := by
      rw [offsetOf?, String.toList_ofList, find?_charIndices_append hdollar, Option.map_some,
        Nat.zero_add]
    have hopen : utf8Length (code ++ ['$']) = utf8Length code + 1 := utf8Length_append _ _
    have hsum : utf8Length code + 1 < limit := by
      rw [utf8Length_append] at h
      have htail : utf8Length ('$' :: tail) = 1 + utf8Length tail := rfl
      omega
    have htail := sliceFrom_ofList (code ++ ['$']) tail
    rw [hopen, List.append_assoc, List.singleton_append] at htail
    rw [Escape.splitCode?_of_dollar hdollar]
    simp only [splitCode, hclose, sliceTo_ofList, pure_bind, String.toList_ofList]
    cases Escape.ofCode? code with
    | none => rfl
    | some e => simp only [add_eq hsum, pure_bind, htail, Option.map_some]
  · have hnone : offsetOf? '$' (.ofList text) = none := by
      rw [offsetOf?, String.toList_ofList, find?_charIndices_eq_none hmem, Option.map_none]
    rw [splitCode, hnone, Escape.splitCode?_of_no_dollar hmem, Option.map_none]

theorem copyPass_ofList (out : String) (c : Char) (rest : List Char) :
    copyPass ⟨out, .ofList (c :: rest)⟩ c = pure (.again ⟨out.push c, .ofList rest⟩) := by
  have htail := sliceFrom_ofList [c] rest
  rw [utf8Length, utf8Length, Nat.add_zero, List.singleton_append] at htail
  rw [copyPass, htail, pure_bind]

theorem expandPass_end (out : String) : expandPass limit ⟨out, .ofList []⟩ = pure (.done out) := rfl

theorem expandPass_dots (out : String) (rest : List Char) :
    expandPass limit ⟨out, .ofList ('.' :: '.' :: rest)⟩ =
      pure (.again ⟨out ++ "::", .ofList rest⟩) := by
  have hstrip : stripPrefix? ".." (.ofList ('.' :: '.' :: rest)) = some (.ofList rest) :=
    stripPrefix?_append ".." rest
  simp only [expandPass, String.toList_ofList, List.head?_cons, hstrip]

theorem stripPrefix?_not_dots {c : Char} {rest : List Char}
    (h : ∀ tail, c = '.' → rest = '.' :: tail → False) :
    stripPrefix? ".." (.ofList (c :: rest)) = none := by
  refine stripPrefix?_eq_none fun tail heq => ?_
  obtain ⟨hc, hrest⟩ := List.cons.inj heq
  exact h tail hc hrest

theorem expandPass_plain {c : Char} {rest : List Char}
    (hdots : ∀ tail, c = '.' → rest = '.' :: tail → False) (hc : c ≠ '$') (out : String) :
    expandPass limit ⟨out, .ofList (c :: rest)⟩ = pure (.again ⟨out.push c, .ofList rest⟩) := by
  simp only [expandPass, String.toList_ofList, List.head?_cons, stripPrefix?_not_dots hdots,
    if_neg hc, copyPass_ofList]

theorem expandPass_dollar {rest : List Char} (h : utf8Length ('$' :: rest) < limit) (out : String) :
    expandPass limit ⟨out, .ofList ('$' :: rest)⟩ =
      pure (.again (match Escape.splitCode? rest with
        | some (e, tail) => ⟨out.push e.char, .ofList tail⟩
        | none => ⟨out.push '$', .ofList rest⟩)) := by
  have hdots : ∀ tail, '$' = '.' → rest = '.' :: tail → False :=
    fun tail heq => absurd heq (by decide)
  have htext : sliceFrom (.ofList ('$' :: rest)) 1 = pure (.ofList rest) :=
    sliceFrom_ofList ['$'] rest
  have hrest : utf8Length rest < limit := by
    have hsize : utf8Length ('$' :: rest) = 1 + utf8Length rest := rfl
    omega
  simp only [expandPass, String.toList_ofList, List.head?_cons, stripPrefix?_not_dots hdots,
    if_true, htext, pure_bind, splitCode_ofList hrest, copyPass_ofList]
  cases Escape.splitCode? rest <;> rfl

theorem append_ofList_cons (out : String) (c : Char) (cs : List Char) :
    out ++ .ofList (c :: cs) = out.push c ++ .ofList cs := by
  rw [← String.toList_inj]
  simp

theorem utf8Length_lt_append {before : List Char} (h : before ≠ []) (behind : List Char) :
    utf8Length behind < utf8Length (before ++ behind) := by
  have hpos := List.length_pos_iff.mpr h
  have hle := length_le_utf8Length before
  rw [utf8Length_append]
  omega

/-- What is left of the text completes what came out of it to the result. -/
structure Completes (limit : Nat) (result : String) (s : Expansion) : Prop where
  fits : s.rest.utf8ByteSize < limit
  completed : s.out ++ .ofList (Escape.expand s.rest.toList) = result

/-- A pass may replace some text in front by what it stands for. -/
theorem Completes.advance {result out out' : String} {before behind : List Char}
    (h : Completes limit result ⟨out, .ofList (before ++ behind)⟩) (hbefore : before ≠ [])
    (hout : out' ++ .ofList (Escape.expand behind) =
      out ++ .ofList (Escape.expand (before ++ behind))) :
    (String.ofList behind).utf8ByteSize < (String.ofList (before ++ behind)).utf8ByteSize ∧
      Completes limit result ⟨out', .ofList behind⟩ := by
  obtain ⟨hfits, hcompleted⟩ := h
  have hlt := utf8Length_lt_append hbefore behind
  rw [← utf8ByteSize_ofList, ← utf8ByteSize_ofList] at hlt
  refine ⟨hlt, Nat.lt_trans hlt hfits, ?_⟩
  rw [String.toList_ofList] at hcompleted ⊢
  exact hout.trans hcompleted

/-- Each pass leaves less of the text, and the result stays the same. -/
theorem keeps_expandPass (limit : Nat) (result : String) :
    Keeps (expandPass limit) (Completes limit result)
      (fun s s' => s'.rest.utf8ByteSize < s.rest.utf8ByteSize) result := by
  intro s hs
  obtain ⟨out, rest⟩ := s
  obtain ⟨text, rfl⟩ := rest.exists_eq_ofList
  cases text using Escape.expand.fun_cases with
  | case1 =>
    have hend : out ++ String.ofList (Escape.expand []) = result := hs.completed
    rw [Escape.expand, String.ofList_nil, String.append_empty] at hend
    exact .inl (hend ▸ expandPass_end out)
  | case2 rest =>
    refine .inr ⟨_, expandPass_dots out rest, hs.advance (List.cons_ne_nil '.' ['.']) ?_⟩
    show out ++ String.ofList [':', ':'] ++ .ofList (Escape.expand rest) =
      out ++ .ofList (Escape.expand ('.' :: '.' :: rest))
    rw [Escape.expand, String.append_assoc, ← String.ofList_append]
    rfl
  | case3 rest e tail hsplit hlt hdots =>
    have hpass := expandPass_dollar (utf8ByteSize_ofList _ ▸ hs.fits) out
    obtain ⟨code, -, rfl⟩ := Escape.splitCode?_eq_some hsplit
    simp only [hsplit] at hpass
    have htext : '$' :: (code ++ '$' :: tail) = '$' :: code ++ ['$'] ++ tail := by simp
    refine .inr ⟨_, hpass, ?_⟩
    rw [htext] at hs ⊢
    refine hs.advance (by simp) ?_
    rw [← htext, Escape.expand_of_splitCode? hsplit, append_ofList_cons]
  | case4 rest hsplit hdots =>
    have hpass := expandPass_dollar (utf8ByteSize_ofList _ ▸ hs.fits) out
    simp only [hsplit] at hpass
    refine .inr ⟨_, hpass, hs.advance (List.cons_ne_nil '$' []) ?_⟩
    rw [List.cons_append, List.nil_append, Escape.expand_of_splitCode?_none hsplit,
      append_ofList_cons]
  | case5 c rest hdots hdollar =>
    refine .inr ⟨_, expandPass_plain hdots hdollar out, hs.advance (List.cons_ne_nil c []) ?_⟩
    rw [List.cons_append, List.nil_append, Escape.expand_of_not_dots hdots hdollar,
      append_ofList_cons]

theorem completes_start {text : String} (h : text.utf8ByteSize < limit) :
    Completes limit (Symbol.unescape text) ⟨"", text⟩ := by
  refine ⟨h, ?_⟩
  rw [String.empty_append]
  rfl

theorem unescape_eq {text : String} (h : text.utf8ByteSize < limit) :
    unescape limit text = pure (Symbol.unescape text) :=
  (keeps_expandPass limit (Symbol.unescape text)).loop_eq (fun s => s.rest.utf8ByteSize)
    (fun _ _ => id) (completes_start h)

end SymbolCoverage.Symbol.Bytewise
