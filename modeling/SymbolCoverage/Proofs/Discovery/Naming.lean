import Mathlib.Data.List.Basic
import SymbolCoverage.Discovery.NamePattern
import SymbolCoverage.Proofs.Disk.FileNames

/-!
Names that name a crate.  The stem is the crate's name, perhaps with a dash and a hash behind
it, and the extension follows.  The crate's name may hold dashes, dots and the extension
itself, so the parts are told apart by their places only.  A comparison of texts decides
which names these are.
-/

namespace SymbolCoverage.Discovery

variable {crate file path : String}

/-- The characters of a hash in a file name. -/
def HashChar (c : Char) : Prop := ('a' ≤ c ∧ c ≤ 'z') ∨ ('0' ≤ c ∧ c ≤ '9')

/-- The stems of the files of a crate. -/
inductive IsStemOf (crate : String) : String → Prop
  | bare : IsStemOf crate crate
  | hashed {hash : String} : hash ≠ "" → (∀ c ∈ hash.toList, HashChar c) →
    IsStemOf crate (crate ++ "-" ++ hash)

def NamesCrate (crate file : String) : Prop :=
  ∃ stem, IsStemOf crate stem ∧ file = stem ++ ".smir.json"

theorem namesCrate_iff :
    NamesCrate crate file ↔ file = crate ++ ".smir.json" ∨
      ∃ hash, hash ≠ "" ∧ (∀ c ∈ hash.toList, HashChar c) ∧
        file = crate ++ "-" ++ hash ++ ".smir.json" := by
  constructor
  · rintro ⟨_, hstem, rfl⟩
    cases hstem with
    | bare => exact .inl rfl
    | hashed hempty hall => exact .inr ⟨_, hempty, hall, rfl⟩
  · rintro (rfl | ⟨hash, hempty, hall, rfl⟩)
    · exact ⟨crate, .bare, rfl⟩
    · exact ⟨_, .hashed hempty hall, rfl⟩

/-- The last name of the path names the crate. -/
def PathNamesCrate (crate path : String) : Prop :=
  ∃ file, Disk.fileName? path = some file ∧ NamesCrate crate file

/-! ## Comparison of texts -/

def isHashChar (c : Char) : Bool := c.isDigit || ('a' ≤ c && c ≤ 'z')

/-- What may stand between the name of the crate and the extension. -/
def isHashTail : List Char → Bool
  | [] => true
  | c :: hash => c == '-' && !hash.isEmpty && hash.all isHashChar

/-- Whether a file name names a crate.  The crate's name is taken literally. -/
def nameMatches (crate file : String) : Bool :=
  match crate.toList.isPrefixOf? file.toList with
  | none => false
  | some rest =>
    match extension.isSuffixOf? rest with
    | none => false
    | some tail => isHashTail tail

def pathMatches (crate path : String) : Bool :=
  match Disk.fileName? path with
  | none => false
  | some file => nameMatches crate file

theorem isHashChar_iff {c : Char} : isHashChar c = true ↔ HashChar c := by
  simp only [isHashChar, Char.isDigit, Bool.or_eq_true, Bool.and_eq_true, decide_eq_true_eq]
  exact or_comm

theorem isHashTail_iff {tail : List Char} :
    isHashTail tail = true ↔
      tail = [] ∨ ∃ hash, hash ≠ [] ∧ (∀ c ∈ hash, HashChar c) ∧ tail = '-' :: hash := by
  cases tail with
  | nil => exact iff_of_true rfl (.inl rfl)
  | cons c hash =>
    simp only [isHashTail, Bool.and_eq_true, beq_iff_eq, Bool.not_eq_true',
      List.isEmpty_eq_false_iff, List.all_eq_true, isHashChar_iff, reduceCtorEq, false_or]
    constructor
    · intro h
      obtain ⟨⟨rfl, hempty⟩, hall⟩ := h
      exact ⟨hash, hempty, hall, rfl⟩
    · intro h
      obtain ⟨hash, hempty, hall, heq⟩ := h
      cases heq
      exact ⟨⟨rfl, hempty⟩, hall⟩

theorem nameMatches_iff_exists_tail :
    nameMatches crate file = true ↔
      ∃ tail, isHashTail tail = true ∧ file.toList = crate.toList ++ tail ++ extension := by
  rw [nameMatches]
  constructor
  · intro h
    split at h
    next => cases h
    next rest hrest =>
      split at h
      next => cases h
      next tail htail =>
        rw [List.isPrefixOf?_eq_some_iff_append_eq] at hrest
        rw [List.isSuffixOf?_eq_some_iff_append_eq] at htail
        exact ⟨tail, h, by rw [← hrest, ← htail, List.append_assoc]⟩
  · intro h
    obtain ⟨tail, htail, hfile⟩ := h
    have hfront : crate.toList.isPrefixOf? file.toList = some (tail ++ extension) := by
      rw [List.isPrefixOf?_eq_some_iff_append_eq, hfile, List.append_assoc]
    have hback : extension.isSuffixOf? (tail ++ extension) = some tail :=
      List.isSuffixOf?_eq_some_iff_append_eq.mpr rfl
    simp only [hfront, hback, htail]

theorem toList_extended (stem : String) :
    (stem ++ ".smir.json").toList = stem.toList ++ extension := String.toList_append

theorem toList_hashed (crate hash : String) :
    (crate ++ "-" ++ hash).toList = crate.toList ++ '-' :: hash.toList := by
  rw [String.toList_append, String.toList_append, List.append_assoc]
  rfl

/-- The crate's name and the extension are cut off from both ends, and never overlap. -/
theorem nameMatches_iff : nameMatches crate file = true ↔ NamesCrate crate file := by
  rw [nameMatches_iff_exists_tail]
  constructor
  · intro h
    obtain ⟨tail, htail, hfile⟩ := h
    rw [isHashTail_iff] at htail
    obtain rfl | ⟨hash, hempty, hall, rfl⟩ := htail
    · refine ⟨crate, .bare, String.toList_injective ?_⟩
      rw [hfile, List.append_nil, toList_extended]
    · refine ⟨crate ++ "-" ++ .ofList hash, .hashed ?_ ?_, String.toList_injective ?_⟩
      · exact fun h => hempty (String.ofList_injective h)
      · rwa [String.toList_ofList]
      · rw [hfile, toList_extended, toList_hashed, String.toList_ofList]
  · intro h
    obtain ⟨stem, hstem, rfl⟩ := h
    rw [toList_extended]
    cases hstem with
    | bare => exact ⟨[], rfl, by rw [List.append_nil]⟩
    | @hashed hash hempty hall =>
      refine ⟨'-' :: hash.toList, isHashTail_iff.mpr (.inr ⟨_, ?_, hall, rfl⟩), ?_⟩
      · exact fun h => hempty (String.toList_injective h)
      · rw [toList_hashed]

instance : DecidablePred (NamesCrate crate) := fun _ => decidable_of_iff _ nameMatches_iff

theorem pathMatches_iff : pathMatches crate path = true ↔ PathNamesCrate crate path := by
  rw [pathMatches, PathNamesCrate]
  split
  next h => simp [h]
  next file h => simp only [nameMatches_iff, h, Option.some.injEq, exists_eq_left']

instance : DecidablePred (PathNamesCrate crate) := fun _ => decidable_of_iff _ pathMatches_iff

/-! ## Candidates -/

theorem isCandidate_iff :
    isCandidate crate file = true ↔
      crate.toList <+: file.toList ∧ ".smir.json".toList <:+ file.toList := by
  rw [isCandidate, Bool.and_eq_true, List.isPrefixOf_iff_prefix, List.isSuffixOf_iff_suffix]
  rfl

theorem NamesCrate.isCandidate (h : NamesCrate crate file) : isCandidate crate file = true := by
  obtain ⟨tail, -, hfile⟩ := nameMatches_iff_exists_tail.mp (nameMatches_iff.mpr h)
  rw [isCandidate_iff, hfile]
  refine ⟨?_, List.suffix_append ..⟩
  rw [List.append_assoc]
  exact List.prefix_append ..

end SymbolCoverage.Discovery
