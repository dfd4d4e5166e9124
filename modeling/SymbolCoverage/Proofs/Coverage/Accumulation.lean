import SymbolCoverage.Proofs.Coverage.Agreement

/-!
The meaning of a report.  What a report lists after any sequence of references is said by
the references alone: which names and which keys of which crates, in which order, and with
which hashes.  Sequences of the same references have reports that differ at most in the
order of the crates under a key.
-/

namespace SymbolCoverage

open SymbolCoverage.Symbol (Key Hash)

/-- The reference says that the crate misses the key, with a hash or without one. -/
def Reference.MissesFor (key : Key) (source : CrateId) (reference : Reference) : Prop :=
  ∃ hash, reference = .missing key hash source

/-- The report lists what the references say.  Crates under one key stand in the order of
the first references by which they miss it. -/
structure Report.Summarizes (r : Report) (references : List Reference) : Prop where
  foreign_ascending : r.foreignList.Pairwise (· < ·)
  mem_foreign : ∀ name, name ∈ r.foreignList ↔ .foreign name ∈ references
  exists_line : ∀ key source,
    (∃ line ∈ r.missingLines, line.key = key ∧ line.source = source) ↔
      ∃ reference ∈ references, reference.MissesFor key source
  one_line : (r.missingLines.map fun line => (line.key, line.source)).Nodup
  lines_ordered : r.missingLines.Pairwise fun l m =>
    l.key.Precedes m.key ∨
      (l.key = m.key ∧
        ComesFirst (Reference.MissesFor l.key l.source) (Reference.MissesFor l.key m.source)
          references)
  hashes_ascending : ∀ line ∈ r.missingLines,
    line.hashes.Pairwise fun h k => h.digits < k.digits
  mem_hashes : ∀ line ∈ r.missingLines, ∀ hash,
    hash ∈ line.hashes ↔ .missing line.key (some hash) line.source ∈ references

theorem Reference.missesFor_iff {key : Key} {source : CrateId} {reference : Reference} :
    reference.MissesFor key source ↔
      ∃ pair, reference.under? key = some pair ∧ pair.1 = source := by
  constructor
  · intro h
    obtain ⟨hash, hmissing⟩ := h
    exact ⟨(source, hash), under?_eq_some_iff.mpr hmissing, rfl⟩
  · intro h
    obtain ⟨⟨_, hash⟩, hunder, rfl⟩ := h
    exact ⟨hash, under?_eq_some_iff.mp hunder⟩

namespace Report

variable {r r' : Report} {references : List Reference}

theorem Records.summarizes (h : r.Records references) : r.Summarizes references := by
  have hordered := missingLines_ordered fun key => (h.crates key).ordered
  refine ⟨foreignList_ascending r, ?_, ?_, ?_, ?_, ?_, ?_⟩
  · intro name
    rw [mem_foreignList, h.mem_foreign]
  · intro key source
    rw [h.exists_line_iff]
    simp only [Reference.MissesFor, ← exists_and_left, exists_comm (α := Reference),
      exists_eq_right]
  · refine List.pairwise_map.mpr (hordered.imp fun hlm heq => ?_)
    obtain ⟨hkey, hsource⟩ := Prod.mk.inj heq
    cases hlm with
    | inl hprecedes => exact hprecedes.ne hkey
    | inr hfirst => exact hfirst.2.1 hsource
  · refine hordered.imp fun hlm => hlm.imp id fun hfirst => ⟨hfirst.1, ?_⟩
    exact hfirst.2.2.of_filterMap (fun _ => Reference.missesFor_iff)
      fun _ => Reference.missesFor_iff.mp
  · intro line hline
    obtain ⟨hashes, -, heq⟩ := mem_missingLines.mp hline
    rw [heq]
    exact Report.hashes_ascending hashes
  · exact fun line hline hash => h.mem_hashes_iff hline

/-! ## Agreement, line by line -/

/-- The lines of one key. -/
def linesOf (pair : Key × CrateHashes) : List MissingLine :=
  pair.2.map fun crate => ⟨crate.1, pair.1, crate.2.toList⟩

theorem missingLines_eq_flatMap (r : Report) : r.missingLines = r.missing.toList.flatMap linesOf :=
  rfl

theorem keys_linesOf (pair : Key × CrateHashes) :
    (linesOf pair).map (·.key) = List.replicate pair.2.length pair.1 := by
  rw [linesOf, List.map_map]
  exact List.map_const'

/-- Reports that agree have the same lines, and the keys of their lines are the same in the
same order. -/
theorem AgreesWith.missingLines (h : r.AgreesWith r') :
    r.missingLines.map (·.key) = r'.missingLines.map (·.key) ∧
      r.missingLines.Perm r'.missingLines := by
  rw [missingLines_eq_flatMap, missingLines_eq_flatMap]
  have hpairs := h.missing
  generalize r.missing.toList = pairs at hpairs ⊢
  generalize r'.missing.toList = pairs' at hpairs ⊢
  induction hpairs with
  | nil => exact ⟨rfl, .nil⟩
  | @cons pair pair' _ _ hpair _ ih =>
    obtain ⟨hkey, hcrates⟩ := hpair
    have hlines : (linesOf pair).Perm (linesOf pair') := by
      rw [linesOf, linesOf, hkey]
      exact hcrates.map _
    refine ⟨?_, hlines.append ih.2⟩
    rw [List.flatMap_cons, List.flatMap_cons, List.map_append, List.map_append, keys_linesOf,
      keys_linesOf, hkey, hcrates.length_eq, ih.1]

/-- The report of a sequence of references lists what these say, and the report of any other
sequence of the same names, keys, hashes and crates differs from it at most in the order of
the crates under a key. -/
theorem ofReferences_summarizes (references : List Reference) :
    (ofReferences references).Summarizes references ∧
    ∀ references' : List Reference,
      (∀ name, .foreign name ∈ references ↔ .foreign name ∈ references') →
      (∀ key hash source,
        .missing key hash source ∈ references ↔ .missing key hash source ∈ references') →
        (ofReferences references).AgreesWith (ofReferences references') ∧
        (ofReferences references).missingLines.map (·.key) =
          (ofReferences references').missingLines.map (·.key) ∧
        (ofReferences references).missingLines.Perm (ofReferences references').missingLines := by
  refine ⟨(records_ofReferences references).summarizes, ?_⟩
  intro references' hforeign hmissing
  have hagrees := ofReferences_agreesWith hforeign hmissing
  exact ⟨hagrees, hagrees.missingLines⟩

/-- A raw key stands before a path that two crates miss, and one of these misses it once
without a hash. -/
def mixedReferences : List Reference :=
  [.missing (.raw "_ZNopen") none ⟨"a.smir.json"⟩, .covered,
    .missing (.path ⟨["foo"]⟩) none ⟨"b.smir.json"⟩, .foreign "memset",
    .missing (.path ⟨["foo"]⟩) (some ⟨"ffffffffffffffff", by decide⟩) ⟨"a.smir.json"⟩,
    .foreign "memcpy",
    .missing (.path ⟨["foo"]⟩) (some ⟨"0000000000000000", by decide⟩) ⟨"a.smir.json"⟩]

/-- The same backwards, without what is covered and with a name repeated. -/
def reorderedReferences : List Reference :=
  .foreign "memcpy" :: mixedReferences.reverse.filter (· ≠ .covered)

/-- The crates of the path change places. -/
theorem ofReferences_summarizes_mixedReferences :
    (∀ name, .foreign name ∈ mixedReferences ↔ .foreign name ∈ reorderedReferences) ∧
    (∀ key hash source, .missing key hash source ∈ mixedReferences ↔
      .missing key hash source ∈ reorderedReferences) ∧
    (ofReferences mixedReferences).text = "memcpy\nmemset\nb::foo->[]\n" ++
      "a::foo->['0000000000000000', 'ffffffffffffffff']\na::_ZNopen->[]\n" ∧
    (ofReferences reorderedReferences).text =
      "memcpy\nmemset\na::foo->['0000000000000000', 'ffffffffffffffff']\n" ++
        "b::foo->[]\na::_ZNopen->[]\n" ∧
    (ofReferences mixedReferences).missingLines.Perm
      (ofReferences reorderedReferences).missingLines := by
  have hforeign : ∀ name, .foreign name ∈ mixedReferences ↔
      .foreign name ∈ reorderedReferences := by
    intro name
    have hmemcpy : name = "memcpy" → .foreign name ∈ mixedReferences := by
      rintro rfl
      decide
    simpa [reorderedReferences] using hmemcpy
  have hmissing : ∀ key hash source, .missing key hash source ∈ mixedReferences ↔
      .missing key hash source ∈ reorderedReferences := by
    intro key hash source
    simp [reorderedReferences]
  obtain ⟨-, hagrees⟩ := ofReferences_summarizes mixedReferences
  obtain ⟨-, -, hlines⟩ := hagrees reorderedReferences hforeign hmissing
  exact ⟨hforeign, hmissing, by decide +kernel, by decide +kernel, hlines⟩

end Report
end SymbolCoverage
