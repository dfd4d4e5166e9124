import SymbolCoverage.Proofs.Coverage.Accounting
import SymbolCoverage.Proofs.Symbol.RoundTrip

/-!
Encoded items.  A symbol that encoding made decodes to the path and hash it was made
from, so these determine it, and a symbol without an envelope is its own key.  Decoding
tells all such symbols apart, and documents that hold no others always have an index.
-/

namespace SymbolCoverage

open SymbolCoverage.Symbol

namespace Symbol

/-- The symbol is what encoding gives for a path and a hash.  It is not longer than a
length can say. -/
def Encoded (symbol : String) : Prop :=
  symbol.length < Group.lengthLimit ∧ ∃ path hash, encode path hash = .ok symbol

/-- The symbol is not enveloped. -/
def Bare (symbol : String) : Prop := ¬ ∃ body digits, Enveloped symbol body digits

variable {s t symbol : String} {entry : Entry}

theorem Encoded.entryOf (h : Encoded symbol) :
    ∃ path hash, encode path hash = .ok symbol ∧
      entryOf symbol = .ok (.path path, some hash) := by
  obtain ⟨hlength, path, hash, hencode⟩ := h
  have hfit : path.LengthsFit := lengthsFit_of_encode hencode hlength
  have hdecode : decode symbol = .ok (.mangled path hash) := decode_of_encode hencode hfit
  exact ⟨path, hash, hencode, entryOf_eq_ok.mpr ⟨_, hdecode, rfl⟩⟩

theorem Bare.entryOf (h : Bare symbol) : entryOf symbol = .ok (.raw symbol, none) := by
  have hdecode : decode symbol = .ok (.verbatim symbol) := (decode_verbatim_iff _ _).mpr ⟨rfl, h⟩
  exact entryOf_eq_ok.mpr ⟨_, hdecode, rfl⟩

theorem not_malformed_of_encoded_or_bare (h : Encoded symbol ∨ Bare symbol) :
    ¬ Malformed symbol := by
  rw [not_malformed_iff]
  rcases h with h | h
  · obtain ⟨path, hash, -, hentry⟩ := h.entryOf
    exact ⟨_, hentry⟩
  · exact ⟨_, h.entryOf⟩

/-- The entry of an encoded or bare symbol belongs to no other such symbol. -/
theorem eq_of_entryOf (hs : Encoded s ∨ Bare s) (ht : Encoded t ∨ Bare t)
    (hsentry : entryOf s = .ok entry) (htentry : entryOf t = .ok entry) : s = t := by
  rcases hs with hs | hs
  · obtain ⟨path, hash, hencode, hentry⟩ := hs.entryOf
    rw [hsentry, Except.ok.injEq] at hentry
    rw [hentry] at htentry
    rcases ht with ht | ht
    · -- Both are encoded from one path and one hash.
      obtain ⟨path', hash', hencode', hentry'⟩ := ht.entryOf
      rw [htentry] at hentry'
      cases hentry'
      rw [hencode] at hencode'
      exact Except.ok.inj hencode'
    · rw [ht.entryOf] at htentry
      cases htentry
  · have hentry := hs.entryOf
    rw [hsentry, Except.ok.injEq] at hentry
    rw [hentry] at htentry
    rcases ht with ht | ht
    · obtain ⟨path, hash, -, hentry'⟩ := ht.entryOf
      rw [htentry] at hentry'
      cases hentry'
    · rw [ht.entryOf] at htentry
      cases htentry
      rfl

end Symbol

theorem not_collides_of_encoded_or_bare {symbols : List String}
    (h : ∀ symbol ∈ symbols, Encoded symbol ∨ Bare symbol) : ¬ Collides symbols := by
  intro hcollides
  obtain ⟨s, hs, t, ht, hne, entry, hsentry, htentry⟩ := hcollides
  exact hne (eq_of_entryOf (h s hs) (h t ht) hsentry htentry)

/-- Documents whose items are encoded or bare have an index, with one entry for each of
these items. -/
theorem build_of_encoded_or_bare {documents : List Document} (parallel : Bool)
    (h : ∀ d ∈ documents, ∀ symbol ∈ d.metadata.items, Encoded symbol ∨ Bare symbol) :
    ∃ index, PresentIndex.build parallel documents = .ok index ∧
      index.entryCount = distinctSymbols (allItems documents) := by
  have hgood : ∀ d ∈ documents, ¬ d.HasMalformedItem := by
    intro d hd hmalformed
    obtain ⟨symbol, hs, hbad⟩ := hmalformed
    exact not_malformed_of_encoded_or_bare (h d hd symbol hs) hbad
  have hall : ∀ symbol ∈ allItems documents, Encoded symbol ∨ Bare symbol := by
    intro symbol hs
    obtain ⟨d, hd, hmem⟩ := List.mem_flatMap.mp hs
    exact h d hd symbol hmem
  obtain ⟨b, hindexes, hbuild⟩ := PresentIndex.build_eq_finish parallel hgood
  have hfinish := hindexes.finish_ok (not_collides_of_encoded_or_bare hall)
  exact ⟨_, hbuild.trans hfinish, hindexes.entryCount_of_finish hfinish⟩

/-- Two crates that share items.  One item is encoded from a segment that reads like
another, and one that is bare opens like a structured symbol. -/
def sharingCrates : List Document :=
  [⟨⟨"a.smir.json"⟩, ⟨["_ZN3foo17hffffffffffffffffE", "memcpy", "_ZNopen", "memcpy"], []⟩⟩,
    ⟨⟨"b.smir.json"⟩, ⟨["memcpy", "_ZN28__ZN3foo17hffffffffffffffffE17h0123456789abcdefE",
      "_ZN3foo17hffffffffffffffffE"], []⟩⟩]

theorem build_of_encoded_or_bare_sharingCrates :
    (∀ d ∈ sharingCrates, ∀ symbol ∈ d.metadata.items, Encoded symbol ∨ Bare symbol) ∧
      ∃ index, PresentIndex.build true sharingCrates = .ok index ∧ index.entryCount = 4 := by
  have hplain : Encoded "_ZN3foo17hffffffffffffffffE" :=
    ⟨by decide, ⟨["foo"]⟩, ⟨"ffffffffffffffff", by decide⟩, by decide +kernel⟩
  have hnested : Encoded "_ZN28__ZN3foo17hffffffffffffffffE17h0123456789abcdefE" :=
    ⟨by decide, ⟨["_ZN3foo17hffffffffffffffffE"]⟩, mixedHash, by decide +kernel⟩
  have hmemcpy : Bare "memcpy" := ((decode_verbatim_iff "memcpy" "memcpy").mp rfl).2
  have hopen : Bare "_ZNopen" := ((decode_verbatim_iff "_ZNopen" "_ZNopen").mp rfl).2
  have hitems : ∀ d ∈ sharingCrates, ∀ symbol ∈ d.metadata.items, Encoded symbol ∨ Bare symbol := by
    simp [sharingCrates, hplain, hnested, hmemcpy, hopen]
  have hcount : distinctSymbols (allItems sharingCrates) = 4 := by decide
  obtain ⟨index, hindex, hentries⟩ := build_of_encoded_or_bare true hitems
  exact ⟨hitems, index, hindex, hentries.trans hcount⟩

end SymbolCoverage
