import Mathlib.Data.Finset.Card
import SymbolCoverage.Coverage.PresentIndex
import SymbolCoverage.Proofs.Results

/-!
What buckets hold.  An entry is what the index keeps of a symbol: its key and its
hash.  Buckets are known by the entries they have, and their count is the number of
these entries.
-/

namespace SymbolCoverage

open SymbolCoverage.Symbol (Key Hash)

abbrev Entry := Key × Option Hash

namespace Symbol

def Decoded.entry (decoded : Decoded) : Entry := (decoded.key, decoded.hash?)

/-- The entry under which a symbol is indexed and looked up. -/
def entryOf (symbol : String) : Except MalformedSymbol Entry := (decode symbol).map Decoded.entry

def Malformed (symbol : String) : Prop := ∃ e, decode symbol = .error e

theorem entryOf_eq_ok {symbol : String} {entry : Entry} :
    entryOf symbol = .ok entry ↔ ∃ decoded, decode symbol = .ok decoded ∧ decoded.entry = entry :=
  map_eq_ok

theorem not_malformed_iff {symbol : String} :
    ¬ Malformed symbol ↔ ∃ entry, entryOf symbol = .ok entry := by
  unfold Malformed entryOf
  cases decode symbol with
  | error e => simp [Except.map]
  | ok decoded => simp [Except.map]

theorem hash_of_path {symbol : String} {path : Path} {hash : Option Hash}
    (h : entryOf symbol = .ok (.path path, hash)) : ∃ k, hash = some k := by
  obtain ⟨decoded, -, hentry⟩ := entryOf_eq_ok.mp h
  cases decoded with
  | mangled path' k =>
    cases hentry
    exact ⟨k, rfl⟩
  | verbatim text => cases hentry

theorem hash_of_raw {symbol text : String} {hash : Option Hash}
    (h : entryOf symbol = .ok (.raw text, hash)) : hash = none := by
  obtain ⟨decoded, -, hentry⟩ := entryOf_eq_ok.mp h
  cases decoded with
  | mangled path k => cases hentry
  | verbatim text' =>
    cases hentry
    rfl

end Symbol

theorem nodup_toList {α : Type} [Ord α] [Std.TransOrd α] [Std.LawfulEqOrd α]
    (s : Std.ExtTreeSet α) : s.toList.Nodup :=
  Std.ExtTreeSet.distinct_toList.imp fun hne heq => hne (Std.compare_eq_iff_eq.mpr heq)

namespace Buckets

variable {buckets : Buckets} {key : Key} {hashes : Bucket} {entry : Entry}

def Has (buckets : Buckets) (entry : Entry) : Prop :=
  ∃ bucket, buckets[entry.1]? = some bucket ∧ entry.2 ∈ bucket

theorem not_has_empty (entry : Entry) : ¬ Has ∅ entry := by
  intro h
  obtain ⟨bucket, hbucket, -⟩ := h
  simp at hbucket

theorem getElem?_add (buckets : Buckets) (key k : Key) (hashes : Bucket) :
    (buckets.add key hashes)[k]? =
      if key = k then some ((buckets[key]?.getD ∅) ∪ hashes) else buckets[k]? := by
  rw [add, Std.ExtTreeMap.getElem?_insert]
  simp only [Std.compare_eq_iff_eq]

theorem has_iff_mem_getD : Has buckets entry ↔ entry.2 ∈ buckets[entry.1]?.getD ∅ := by
  unfold Has
  cases buckets[entry.1]? with
  | none => simp
  | some bucket => simp

/-- The added hashes come to the entries that were there. -/
theorem has_add :
    Has (buckets.add key hashes) entry ↔
      Has buckets entry ∨ (entry.1 = key ∧ entry.2 ∈ hashes) := by
  rw [has_iff_mem_getD, has_iff_mem_getD, getElem?_add]
  by_cases hkey : key = entry.1
  · rw [if_pos hkey, Option.getD_some, Std.ExtTreeSet.mem_union_iff, hkey]
    simp
  · rw [if_neg hkey]
    simp [Ne.symm hkey]

theorem has_foldl_add {pairs : List (Key × Bucket)} :
    Has (pairs.foldl (fun buckets (key, hashes) => buckets.add key hashes) buckets) entry ↔
      Has buckets entry ∨ ∃ pair ∈ pairs, entry.1 = pair.1 ∧ entry.2 ∈ pair.2 := by
  induction pairs generalizing buckets with
  | nil => simp
  | cons pair pairs ih =>
    rw [List.foldl_cons, ih, has_add, List.exists_mem_cons_iff, or_assoc]

/-! ## Filled buckets

An empty bucket has no entry, so buckets are only known by their entries where none
of them is empty. -/

/-- No bucket is empty. -/
def Filled (buckets : Buckets) : Prop :=
  ∀ (key : Key) (bucket : Bucket), buckets[key]? = some bucket → ∃ hash, hash ∈ bucket

theorem filled_empty : Filled ∅ := by
  intro key bucket h
  simp at h

theorem Filled.add (h : buckets.Filled) (hhashes : ∃ hash, hash ∈ hashes) :
    (buckets.add key hashes).Filled := by
  intro k bucket hbucket
  rw [getElem?_add] at hbucket
  split at hbucket
  · obtain ⟨hash, hmem⟩ := hhashes
    cases hbucket
    exact ⟨hash, Std.ExtTreeSet.mem_union_iff.mpr (.inr hmem)⟩
  · exact h k bucket hbucket

theorem Filled.foldl_add {pairs : List (Key × Bucket)} (h : buckets.Filled)
    (hpairs : ∀ pair ∈ pairs, ∃ hash, hash ∈ pair.2) :
    Filled (pairs.foldl (fun buckets (key, hashes) => buckets.add key hashes) buckets) := by
  induction pairs generalizing buckets with
  | nil => exact h
  | cons pair pairs ih =>
    rw [List.forall_mem_cons] at hpairs
    rw [List.foldl_cons]
    exact ih (h.add hpairs.1) hpairs.2

/-- Buckets with the same entries are equal. -/
theorem Filled.ext {a b : Buckets} (ha : a.Filled) (hb : b.Filled)
    (h : ∀ entry, a.Has entry ↔ b.Has entry) : a = b := by
  refine Std.ExtTreeMap.ext_getElem? fun key => ?_
  have hhashes : a[key]?.getD ∅ = b[key]?.getD ∅ := by
    refine Std.ExtTreeSet.ext_mem fun hash => ?_
    have hentry := h (key, hash)
    rwa [has_iff_mem_getD, has_iff_mem_getD] at hentry
  cases hakey : a[key]? with
  | none =>
    cases hbkey : b[key]? with
    | none => rfl
    | some bucket =>
      obtain ⟨hash, hmem⟩ := hb key bucket hbkey
      rw [hakey, hbkey, Option.getD_none, Option.getD_some] at hhashes
      rw [← hhashes] at hmem
      simp at hmem
  | some bucket =>
    obtain ⟨hash, hmem⟩ := ha key bucket hakey
    cases hbkey : b[key]? with
    | none =>
      rw [hakey, hbkey, Option.getD_none, Option.getD_some] at hhashes
      rw [hhashes] at hmem
      simp at hmem
    | some bucket' =>
      rw [hakey, hbkey, Option.getD_some, Option.getD_some] at hhashes
      rw [hhashes]

/-! ## Counting -/

/-- The entries of buckets, by key and then by hash. -/
def entries (buckets : Buckets) : List Entry :=
  buckets.toList.flatMap fun (key, hashes) => hashes.toList.map (key, ·)

theorem has_iff_mem_toList :
    Has buckets entry ↔ ∃ pair ∈ buckets.toList, entry.1 = pair.1 ∧ entry.2 ∈ pair.2 := by
  constructor
  · intro h
    obtain ⟨bucket, hbucket, hmem⟩ := h
    exact ⟨(entry.1, bucket), Std.ExtTreeMap.mem_toList_iff_getElem?_eq_some.mpr hbucket, rfl, hmem⟩
  · intro h
    obtain ⟨⟨key, bucket⟩, hpair, hkey, hmem⟩ := h
    refine ⟨bucket, ?_, hmem⟩
    rw [hkey]
    exact Std.ExtTreeMap.mem_toList_iff_getElem?_eq_some.mp hpair

theorem mem_entries : entry ∈ buckets.entries ↔ Has buckets entry := by
  obtain ⟨key, hash⟩ := entry
  rw [has_iff_mem_toList]
  constructor
  · intro h
    obtain ⟨pair, hpair, hmem⟩ := List.mem_flatMap.mp h
    obtain ⟨hash', hhash, heq⟩ := List.mem_map.mp hmem
    cases heq
    exact ⟨pair, hpair, rfl, Std.ExtTreeSet.mem_toList.mp hhash⟩
  · intro h
    obtain ⟨pair, hpair, hkey, hmem⟩ := h
    refine List.mem_flatMap.mpr ⟨pair, hpair, List.mem_map.mpr ⟨hash, ?_, ?_⟩⟩
    · exact Std.ExtTreeSet.mem_toList.mpr hmem
    · rw [show pair.1 = key from hkey.symm]

theorem nodup_entries (buckets : Buckets) : buckets.entries.Nodup := by
  refine List.nodup_flatMap.mpr ⟨?_, ?_⟩
  · intro pair _
    refine (nodup_toList pair.2).map ?_
    intro hash hash' heq
    exact congrArg Prod.snd heq
  · refine Std.ExtTreeMap.distinct_keys_toList.imp ?_
    intro pair pair' hne entry hentry hentry'
    obtain ⟨hash, -, heq⟩ := List.mem_map.mp hentry
    obtain ⟨hash', -, heq'⟩ := List.mem_map.mp hentry'
    have hkey : (pair.1, hash) = (pair'.1, hash') := heq.trans heq'.symm
    exact hne (Std.compare_eq_iff_eq.mpr (Prod.mk.inj hkey).1)

theorem length_entries (buckets : Buckets) : buckets.entries.length = buckets.entryCount := by
  unfold entries entryCount
  induction buckets.toList with
  | nil => rfl
  | cons pair pairs ih =>
    rw [List.flatMap_cons, List.length_append, ih, List.length_map, Std.ExtTreeSet.length_toList]
    rfl

/-- Each entry is counted once. -/
theorem entryCount_eq_card (buckets : Buckets) :
    buckets.entryCount = buckets.entries.toFinset.card := by
  rw [List.toFinset_card_of_nodup buckets.nodup_entries, buckets.length_entries]

end Buckets
end SymbolCoverage
