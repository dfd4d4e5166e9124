import Mathlib.Data.PFun
import SymbolCoverage.Text.Utf8

/-!
Texts cut at byte offsets.  A cut is only defined between two boundaries of characters, and a sum
of offsets only below a limit, so a computation that cuts texts may stop at a fault.  A loop may
also never end.  It is without fault, and ends, if each of its passes keeps an invariant and makes
some measure smaller.
-/

namespace SymbolCoverage.Text

/-! ## Faults -/

/-- What a computation on byte offsets may stop at: a cut that is not defined, or a sum that is
too large. -/
inductive Fault
  | cut (text : String) (start stop : Nat)
  | overflow (m n : Nat)

/-- A computation that gives a result, stops at a fault or does not end. -/
abbrev Checked (α : Type) : Type := ExceptT Fault Part α

theorem pure_inj {α : Type} {a b : α} : (pure a : Checked α) = pure b ↔ a = b := by
  constructor
  · intro h
    exact Except.ok.inj (Part.some_inj.mp h)
  · exact congrArg pure

/-- The offset is the start of a character in the UTF-8 form of a text, or its end. -/
def IsBoundary (text : String) (offset : Nat) : Prop := (⟨offset⟩ : String.Pos.Raw).IsValid text

instance (text : String) (offset : Nat) : Decidable (IsBoundary text offset) :=
  inferInstanceAs (Decidable ((⟨offset⟩ : String.Pos.Raw).IsValid text))

theorem IsBoundary.isValid {text : String} {offset : Nat} (h : IsBoundary text offset) :
    (⟨offset⟩ : String.Pos.Raw).IsValid text := h

/-- The part of a text from one boundary to a later one. -/
def slice (text : String) (start stop : Nat) : Checked String :=
  if h : start ≤ stop ∧ IsBoundary text start ∧ IsBoundary text stop then
    pure (text.extract (text.pos ⟨start⟩ h.2.1.isValid) (text.pos ⟨stop⟩ h.2.2.isValid))
  else throw (.cut text start stop)

def sliceFrom (text : String) (start : Nat) : Checked String := slice text start text.utf8ByteSize

def sliceTo (text : String) (stop : Nat) : Checked String := slice text 0 stop

/-- The sum of two numbers, where numbers are kept below a limit. -/
def add (limit m n : Nat) : Checked Nat :=
  if m + n < limit then pure (m + n) else throw (.overflow m n)

theorem add_eq {limit m n : Nat} (h : m + n < limit) : add limit m n = pure (m + n) := if_pos h

/-! ## Cuts -/

theorem isBoundary_iff {text : String} {offset : Nat} :
    IsBoundary text offset ↔
      ∃ before behind, text = .ofList (before ++ behind) ∧ offset = utf8Length before := by
  rw [IsBoundary, String.Pos.Raw.isValid_iff_exists_append]
  constructor
  · intro h
    obtain ⟨s, t, rfl, hoffset⟩ := h
    refine ⟨s.toList, t.toList, ?_, ?_⟩
    · rw [String.ofList_append, String.ofList_toList, String.ofList_toList]
    · rw [← utf8ByteSize_ofList, String.ofList_toList]
      exact congrArg String.Pos.Raw.byteIdx hoffset
  · intro h
    obtain ⟨before, behind, rfl, rfl⟩ := h
    refine ⟨.ofList before, .ofList behind, String.ofList_append, ?_⟩
    rw [String.Pos.Raw.ext_iff, String.byteIdx_rawEndPos, utf8ByteSize_ofList]

theorem size_utf8Encode (cs : List Char) : cs.utf8Encode.size = utf8Length cs := by
  rw [← String.toByteArray_ofList, String.size_toByteArray, utf8ByteSize_ofList]

/-- Between two boundaries stand the characters that are between them. -/
theorem slice_ofList (before part behind : List Char) :
    slice (.ofList (before ++ (part ++ behind))) (utf8Length before)
      (utf8Length before + utf8Length part) = pure (.ofList part) := by
  have hstart : IsBoundary (.ofList (before ++ (part ++ behind))) (utf8Length before) :=
    isBoundary_iff.mpr ⟨before, part ++ behind, rfl, rfl⟩
  have hstop : IsBoundary (.ofList (before ++ (part ++ behind)))
      (utf8Length before + utf8Length part) :=
    isBoundary_iff.mpr ⟨before ++ part, behind, by rw [List.append_assoc],
      (utf8Length_append before part).symm⟩
  rw [slice, dif_pos ⟨Nat.le_add_right _ _, hstart, hstop⟩]
  refine congrArg pure ?_
  rw [← String.toByteArray_inj, String.toByteArray_extract, String.offset_pos, String.offset_pos,
    String.toByteArray_ofList, String.toByteArray_ofList, List.utf8Encode_append,
    List.utf8Encode_append, ← size_utf8Encode, ← size_utf8Encode]
  have hfront := ByteArray.extract_append_size_add (a := before.utf8Encode)
    (b := part.utf8Encode ++ behind.utf8Encode) (i := 0) (j := part.utf8Encode.size)
  rw [Nat.add_zero] at hfront
  rw [hfront]
  exact ByteArray.extract_append_eq_left rfl

theorem sliceTo_ofList (part behind : List Char) :
    sliceTo (.ofList (part ++ behind)) (utf8Length part) = pure (.ofList part) := by
  have h := slice_ofList [] part behind
  rwa [utf8Length, Nat.zero_add] at h

theorem sliceFrom_ofList (before part : List Char) :
    sliceFrom (.ofList (before ++ part)) (utf8Length before) = pure (.ofList part) := by
  have h := slice_ofList before part []
  rwa [List.append_nil, ← utf8Length_append, ← utf8ByteSize_ofList (before ++ part)] at h

theorem utf8Length_of_ascii {cs : List Char} (h : ∀ c ∈ cs, c.utf8Size = 1) :
    utf8Length cs = cs.length := by
  induction cs with
  | nil => rfl
  | cons c cs ih =>
    rw [List.forall_mem_cons] at h
    rw [utf8Length, h.1, ih h.2, List.length_cons, Nat.add_comm]

/-! ## Prefixes and suffixes -/

/-- A text without the part that it starts with. -/
def stripPrefix? (front text : String) : Option String :=
  if front.toList.isPrefixOf text.toList then some (.ofList (text.toList.drop front.length))
  else none

/-- A text without the part that it ends with. -/
def stripSuffix? (back text : String) : Option String :=
  if back.toList.isSuffixOf text.toList then
    some (.ofList (text.toList.take (text.length - back.length)))
  else none

theorem stripPrefix?_eq_some_iff {front text rest : String} :
    stripPrefix? front text = some rest ↔ text = front ++ rest := by
  rw [stripPrefix?, ← String.toList_inj, String.toList_append]
  constructor
  · intro h
    split at h
    next hfront =>
      cases h
      obtain ⟨cs, hcs⟩ := List.isPrefixOf_iff_prefix.mp hfront
      rw [String.toList_ofList, ← hcs, ← String.length_toList, List.drop_left]
    next => cases h
  · intro h
    have hfront : front.toList.isPrefixOf text.toList = true := by
      rw [List.isPrefixOf_iff_prefix, h]
      exact List.prefix_append _ _
    rw [if_pos hfront, h, ← String.length_toList, List.drop_left, String.ofList_toList]

theorem stripPrefix?_append (front : String) (rest : List Char) :
    stripPrefix? front (.ofList (front.toList ++ rest)) = some (.ofList rest) := by
  rw [stripPrefix?_eq_some_iff, String.ofList_append, String.ofList_toList]

theorem stripPrefix?_eq_none {front : String} {cs : List Char}
    (h : ∀ rest, cs ≠ front.toList ++ rest) : stripPrefix? front (.ofList cs) = none := by
  rw [Option.eq_none_iff_forall_ne_some]
  intro rest hrest
  rw [stripPrefix?_eq_some_iff, ← String.toList_inj, String.toList_append, String.toList_ofList]
    at hrest
  exact h rest.toList hrest

theorem stripSuffix?_eq_some_iff {back text rest : String} :
    stripSuffix? back text = some rest ↔ text = rest ++ back := by
  rw [stripSuffix?, ← String.toList_inj, String.toList_append]
  constructor
  · intro h
    split at h
    next hback =>
      cases h
      obtain ⟨cs, hcs⟩ := List.isSuffixOf_iff_suffix.mp hback
      rw [String.toList_ofList, ← String.length_toList, ← String.length_toList, ← hcs,
        List.length_append, Nat.add_sub_cancel, List.take_left]
    next => cases h
  · intro h
    have hback : back.toList.isSuffixOf text.toList = true := by
      rw [List.isSuffixOf_iff_suffix, h]
      exact List.suffix_append _ _
    rw [if_pos hback, h, ← String.length_toList, ← String.length_toList, h, List.length_append,
      Nat.add_sub_cancel, List.take_left, String.ofList_toList]

/-! ## Offsets of characters -/

/-- The characters of a text that stands at an offset, each with the offset of its first byte. -/
def charIndices (offset : Nat) : List Char → List (Nat × Char)
  | [] => []
  | c :: cs => (offset, c) :: charIndices (offset + c.utf8Size) cs

theorem getElem?_charIndices (offset : Nat) (cs : List Char) (n : Nat) :
    (charIndices offset cs)[n]? = cs[n]?.map (offset + utf8Length (cs.take n), ·) := by
  induction cs generalizing offset n with
  | nil => rfl
  | cons c cs ih =>
    cases n with
    | zero => rfl
    | succ n =>
      rw [charIndices, List.getElem?_cons_succ, ih, List.getElem?_cons_succ, List.take_succ_cons,
        utf8Length, Nat.add_assoc]

/-- The offset of the first occurrence of a character. -/
def offsetOf? (c : Char) (text : String) : Option Nat :=
  ((charIndices 0 text.toList).find? (·.2 == c)).map (·.1)

theorem find?_charIndices_eq_none {c : Char} {cs : List Char} (h : c ∉ cs) (offset : Nat) :
    (charIndices offset cs).find? (·.2 == c) = none := by
  induction cs generalizing offset with
  | nil => rfl
  | cons d cs ih =>
    rw [List.mem_cons, not_or] at h
    rw [charIndices, List.find?_cons_of_neg, ih h.2]
    simpa using Ne.symm h.1

theorem find?_charIndices_append {c : Char} {before : List Char} (h : c ∉ before) (offset : Nat)
    (behind : List Char) :
    (charIndices offset (before ++ c :: behind)).find? (·.2 == c) =
      some (offset + utf8Length before, c) := by
  induction before generalizing offset with
  | nil =>
    rw [List.nil_append, charIndices, List.find?_cons_of_pos, utf8Length, Nat.add_zero]
    exact beq_self_eq_true c
  | cons d before ih =>
    rw [List.mem_cons, not_or] at h
    rw [List.cons_append, charIndices, List.find?_cons_of_neg, ih h.2, utf8Length, Nat.add_assoc]
    simpa using Ne.symm h.1

/-! ## Digits in the bytes of a text -/

def isDigitByte (b : UInt8) : Bool := 48 ≤ b && b ≤ 57

/-- The number of bytes in front that are digits. -/
def leadingDigits (text : String) : Nat :=
  (text.toByteArray.data.toList.takeWhile isDigitByte).length

theorem utf8Size_of_isDigit {c : Char} (h : c.isDigit = true) : c.utf8Size = 1 := by
  have hrange : 48 ≤ c.toNat ∧ c.toNat ≤ 57 := Char.isDigit_iff_toNat.mp h
  rw [Char.utf8Size_eq_one_iff, UInt32.le_iff_toNat_le]
  show c.toNat ≤ 127
  omega

theorem isDigitByte_iff {b : UInt8} : isDigitByte b = true ↔ 48 ≤ b.toNat ∧ b.toNat ≤ 57 := by
  rw [isDigitByte, Bool.and_eq_true, decide_eq_true_eq, decide_eq_true_eq, UInt8.le_iff_toNat_le,
    UInt8.le_iff_toNat_le]
  exact Iff.rfl

/-- The first byte of a character is a digit exactly if the character is one.  Where there are
more bytes, the first one is above all digits. -/
theorem exists_firstByte (c : Char) :
    ∃ b bs, String.utf8EncodeChar c = b :: bs ∧ isDigitByte b = c.isDigit := by
  have hdigit : c.isDigit = true ↔ 48 ≤ c.val.toNat ∧ c.val.toNat ≤ 57 := Char.isDigit_iff_toNat
  unfold String.utf8EncodeChar
  simp only
  repeat' split
  all_goals
    refine ⟨_, _, rfl, ?_⟩
    rw [Bool.eq_iff_iff, isDigitByte_iff, hdigit, UInt8.toNat_ofNat']
    omega

theorem leadingDigits_ofList (cs : List Char) :
    leadingDigits (.ofList cs) = utf8Length (cs.takeWhile Char.isDigit) := by
  rw [leadingDigits, String.toByteArray_ofList, List.utf8Encode, List.toList_data_toByteArray]
  induction cs with
  | nil => rfl
  | cons c cs ih =>
    obtain ⟨b, bs, hbytes, hb⟩ := exists_firstByte c
    rw [List.flatMap_cons, hbytes, List.cons_append]
    by_cases hc : c.isDigit = true
    · have hone : (b :: bs).length = 1 := by
        rw [← hbytes, String.length_utf8EncodeChar, utf8Size_of_isDigit hc]
      have hnil : bs = [] := List.eq_nil_of_length_eq_zero (Nat.succ.inj hone)
      rw [hnil, List.nil_append, List.takeWhile_cons_of_pos (hb.trans hc),
        List.takeWhile_cons_of_pos hc, List.length_cons, ih, utf8Length, utf8Size_of_isDigit hc,
        Nat.add_comm]
    · rw [List.takeWhile_cons_of_neg (hb ▸ hc), List.takeWhile_cons_of_neg hc]
      rfl

/-! ## Loops -/

/-- What a pass of a loop leads to: a state for the next pass, or the result. -/
inductive Pass (σ ρ : Type)
  | again (state : σ)
  | done (result : ρ)

variable {σ ρ : Type}

/-- What comes after a pass: the end, also because of a fault, or a further pass. -/
def Pass.next : Except Fault (Pass σ ρ) → Except Fault ρ ⊕ σ
  | .error fault => .inl (.error fault)
  | .ok (.done result) => .inl (.ok result)
  | .ok (.again state) => .inr state

/-- One pass after the other, until there is a result or a fault. -/
def loop (pass : σ → Checked (Pass σ ρ)) : σ → Checked ρ :=
  PFun.fix fun s => (pass s).run.map Pass.next

variable {pass : σ → Checked (Pass σ ρ)} {s s' start : σ}

theorem loop_of_done {result : ρ} (h : pass s = pure (.done result)) :
    loop pass s = pure result := by
  refine Part.eq_some_iff.mpr (PFun.fix_stop ?_)
  rw [h]
  exact Part.mem_map Pass.next (Part.mem_some _)

theorem loop_of_fault {fault : Fault} (h : pass s = throw fault) : loop pass s = throw fault := by
  refine Part.eq_some_iff.mpr (PFun.fix_stop ?_)
  rw [h]
  exact Part.mem_map Pass.next (Part.mem_some _)

theorem loop_of_again (h : pass s = pure (.again s')) : loop pass s = loop pass s' := by
  refine PFun.fix_fwd_eq ?_
  rw [h]
  exact Part.mem_map Pass.next (Part.mem_some _)

/-- The states that a loop comes to. -/
inductive Reaches (pass : σ → Checked (Pass σ ρ)) (start : σ) : σ → Prop
  | start : Reaches pass start start
  | step {s s' : σ} : Reaches pass start s → pass s = pure (.again s') → Reaches pass start s'

theorem loop_of_reaches (h : Reaches pass start s) : loop pass start = loop pass s := by
  induction h with
  | start => rfl
  | step _ hpass ih => exact ih.trans (loop_of_again hpass)

/-- A fault in any pass is the fault of the loop. -/
theorem fault_of_reaches {fault : Fault} (h : Reaches pass start s)
    (hfault : pass s = throw fault) : loop pass start = throw fault :=
  (loop_of_reaches h).trans (loop_of_fault hfault)

/-- While the invariant holds a pass is without fault.  It ends with the result, or advances to
a state in which the invariant holds again. -/
def Keeps (pass : σ → Checked (Pass σ ρ)) (holds : σ → Prop) (advances : σ → σ → Prop)
    (result : ρ) : Prop :=
  ∀ s, holds s →
    pass s = pure (.done result) ∨ ∃ s', pass s = pure (.again s') ∧ advances s s' ∧ holds s'

namespace Keeps

variable {holds : σ → Prop} {advances : σ → σ → Prop} {result : ρ}

/-- If each advance makes some size smaller, the loop ends. -/
theorem loop_eq (h : Keeps pass holds advances result) (size : σ → Nat)
    (hsize : ∀ s s', advances s s' → size s' < size s) (hs : holds s) :
    loop pass s = pure result := by
  induction hn : size s using Nat.strongRecOn generalizing s with
  | ind n ih =>
    cases h s hs with
    | inl hdone => exact loop_of_done hdone
    | inr hagain =>
      obtain ⟨s', hpass, hadvances, hs'⟩ := hagain
      have hrest := ih (size s') (hn ▸ hsize s s' hadvances) hs' rfl
      exact (loop_of_again hpass).trans hrest

theorem holds_of_reaches (h : Keeps pass holds advances result) (hstart : holds start)
    (hs : Reaches pass start s) : holds s := by
  induction hs with
  | start => exact hstart
  | @step s s' _ hpass ih =>
    cases h s ih with
    | inl hdone =>
      rw [hdone, pure_inj] at hpass
      cases hpass
    | inr hagain =>
      obtain ⟨s'', hpass', -, hs''⟩ := hagain
      rw [hpass', pure_inj] at hpass
      cases hpass
      exact hs''

theorem pass_of_reaches (h : Keeps pass holds advances result) (hstart : holds start)
    (hs : Reaches pass start s) :
    ∃ p, pass s = pure p ∧ ∀ s', p = .again s' → advances s s' := by
  cases h s (h.holds_of_reaches hstart hs) with
  | inl hdone => exact ⟨_, hdone, nofun⟩
  | inr hagain =>
    obtain ⟨s', hpass, hadvances, -⟩ := hagain
    refine ⟨_, hpass, fun s'' heq => ?_⟩
    cases heq
    exact hadvances

end Keeps

end SymbolCoverage.Text
