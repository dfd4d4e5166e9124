import SymbolCoverage.Proofs.Coverage.Building

/-!
The accounting check.  A finished builder has as many entries as symbols unless two
of its symbols share an entry, so the index of documents is made exactly when their
items all decode and no two of them collide.
-/

namespace SymbolCoverage

open SymbolCoverage.Symbol

/-- Two different symbols decode to the same key and hash. -/
def Collides (symbols : List String) : Prop :=
  ∃ s ∈ symbols, ∃ t ∈ symbols, s ≠ t ∧ ∃ entry, entryOf s = .ok entry ∧ entryOf t = .ok entry

def distinctSymbols (symbols : List String) : Nat := symbols.toFinset.card

def entriesOf (symbols : List String) : List Entry :=
  symbols.filterMap fun symbol => (entryOf symbol).toOption

def distinctEntries (symbols : List String) : Nat := (entriesOf symbols).toFinset.card

variable {symbols : List String} {entry : Entry}

theorem mem_entriesOf : entry ∈ entriesOf symbols ↔ ∃ s ∈ symbols, entryOf s = .ok entry := by
  rw [entriesOf, List.mem_filterMap]
  simp only [toOption_eq_some]

theorem image_some_entriesOf (h : ∀ s ∈ symbols, ¬ Malformed s) :
    (entriesOf symbols).toFinset.image some =
      symbols.toFinset.image fun s => (entryOf s).toOption := by
  ext entry?
  simp only [Finset.mem_image, List.mem_toFinset, mem_entriesOf]
  constructor
  · intro hentry
    obtain ⟨entry, ⟨s, hs, hdecoded⟩, rfl⟩ := hentry
    exact ⟨s, hs, toOption_eq_some.mpr hdecoded⟩
  · intro hentry
    obtain ⟨s, hs, rfl⟩ := hentry
    obtain ⟨entry, hdecoded⟩ := not_malformed_iff.mp (h s hs)
    exact ⟨entry, ⟨s, hs, hdecoded⟩, (toOption_eq_some.mpr hdecoded).symm⟩

/-- The numbers agree exactly when decoding tells all symbols apart. -/
theorem distinctEntries_eq_iff (h : ∀ s ∈ symbols, ¬ Malformed s) :
    distinctEntries symbols = distinctSymbols symbols ↔ ¬ Collides symbols := by
  rw [distinctEntries, distinctSymbols,
    ← Finset.card_image_of_injective _ (Option.some_injective Entry), image_some_entriesOf h,
    Finset.card_image_iff]
  constructor
  · intro hinj hcollides
    obtain ⟨s, hs, t, ht, hne, entry, hentry, hentry'⟩ := hcollides
    refine hne (hinj (by simpa using hs) (by simpa using ht) ?_)
    show (entryOf s).toOption = (entryOf t).toOption
    rw [hentry, hentry']
  · intro hcollides s hs t ht heq
    have hs' : s ∈ symbols := by simpa using hs
    have ht' : t ∈ symbols := by simpa using ht
    by_contra hne
    obtain ⟨entry, hentry⟩ := not_malformed_iff.mp (h s hs')
    have hentry' : (entryOf t).toOption = some entry := by
      rw [← toOption_eq_some.mpr hentry]
      exact heq.symm
    exact hcollides
      ⟨s, hs', t, ht', hne, entry, hentry, toOption_eq_some.mp hentry'⟩

theorem distinctEntries_le (h : ∀ s ∈ symbols, ¬ Malformed s) :
    distinctEntries symbols ≤ distinctSymbols symbols := by
  rw [distinctEntries, distinctSymbols,
    ← Finset.card_image_of_injective _ (Option.some_injective Entry), image_some_entriesOf h]
  exact Finset.card_image_le

theorem distinctEntries_lt (h : ∀ s ∈ symbols, ¬ Malformed s) (hcollides : Collides symbols) :
    distinctEntries symbols < distinctSymbols symbols := by
  have hne : distinctEntries symbols ≠ distinctSymbols symbols :=
    fun heq => (distinctEntries_eq_iff h).mp heq hcollides
  exact Nat.lt_of_le_of_ne (distinctEntries_le h) hne

theorem not_collides_iff_injOn (h : ∀ s ∈ symbols, ¬ Malformed s) :
    ¬ Collides symbols ↔ Set.InjOn entryOf {symbol | symbol ∈ symbols} := by
  constructor
  · intro hdistinct s hs t ht heq
    by_contra hne
    obtain ⟨entry, hentry⟩ := not_malformed_iff.mp (h s hs)
    exact hdistinct ⟨s, hs, t, ht, hne, entry, hentry, heq ▸ hentry⟩
  · intro hinj hcollides
    obtain ⟨s, hs, t, ht, hne, entry, hentry, hentry'⟩ := hcollides
    exact hne (hinj hs ht (hentry.trans hentry'.symm))

/-! Neither order nor repetition of the symbols matters. -/

section Congr

variable {xs ys : List String} (h : ∀ symbol, symbol ∈ xs ↔ symbol ∈ ys)

include h

theorem collides_congr : Collides xs ↔ Collides ys := by
  unfold Collides
  simp only [h]

theorem distinctSymbols_congr : distinctSymbols xs = distinctSymbols ys := by
  rw [distinctSymbols, distinctSymbols, List.toFinset.ext_iff.mpr h]

theorem distinctEntries_congr : distinctEntries xs = distinctEntries ys := by
  have hentries : ∀ entry, entry ∈ entriesOf xs ↔ entry ∈ entriesOf ys := by
    intro entry
    rw [mem_entriesOf, mem_entriesOf]
    simp only [h]
  rw [distinctEntries, distinctEntries, List.toFinset.ext_iff.mpr hentries]

end Congr

/-- Without a collision each entry is that of one symbol. -/
theorem existsUnique_of_not_collides (hdistinct : ¬ Collides symbols) :
    (∃ s ∈ symbols, entryOf s = .ok entry) ↔ ∃! s, s ∈ symbols ∧ entryOf s = .ok entry := by
  constructor
  · intro h
    obtain ⟨s, hs, hentry⟩ := h
    refine ⟨s, ⟨hs, hentry⟩, fun t ht => ?_⟩
    by_contra hne
    exact hdistinct ⟨t, ht.1, s, hs, hne, entry, ht.2, hentry⟩
  · intro h
    obtain ⟨s, hs, -⟩ := h
    exact ⟨s, hs⟩

namespace IndexBuilder

variable {b : IndexBuilder}

theorem Indexes.size_symbols (h : b.Indexes symbols) :
    b.symbols.size = distinctSymbols symbols := by
  have hmem : b.symbols.toList.toFinset = symbols.toFinset := by
    ext symbol
    rw [List.mem_toFinset, List.mem_toFinset, Std.ExtTreeSet.mem_toList, h.mem_symbols]
  rw [distinctSymbols, ← hmem, List.toFinset_card_of_nodup (nodup_toList _),
    Std.ExtTreeSet.length_toList]

theorem Indexes.entryCount (h : b.Indexes symbols) :
    b.buckets.entryCount = distinctEntries symbols := by
  have hmem : b.buckets.entries.toFinset = (entriesOf symbols).toFinset := by
    ext entry
    rw [List.mem_toFinset, List.mem_toFinset, Buckets.mem_entries, h.has_iff, mem_entriesOf]
  rw [distinctEntries, ← hmem, Buckets.entryCount_eq_card]

theorem Indexes.finish_ok (h : b.Indexes symbols) (hdistinct : ¬ Collides symbols) :
    b.finish = .ok ⟨b.buckets⟩ := by
  have hcount : b.symbols.size = b.buckets.entryCount := by
    rw [h.size_symbols, h.entryCount, (distinctEntries_eq_iff h.decodes).mpr hdistinct]
  rw [finish, if_pos hcount]

theorem Indexes.finish_error (h : b.Indexes symbols) (hcollides : Collides symbols) :
    b.finish =
      .error (.integrityViolation (distinctSymbols symbols) (distinctEntries symbols)) := by
  have hcount : ¬ b.symbols.size = b.buckets.entryCount := by
    intro heq
    rw [h.size_symbols, h.entryCount] at heq
    exact (distinctEntries_eq_iff h.decodes).mp heq.symm hcollides
  rw [finish, if_neg hcount, h.size_symbols, h.entryCount]

theorem Indexes.of_finish_ok (h : b.Indexes symbols) {index : PresentIndex}
    (hfinish : b.finish = .ok index) : ¬ Collides symbols ∧ index = ⟨b.buckets⟩ := by
  by_cases hcollides : Collides symbols
  · rw [h.finish_error hcollides] at hfinish
    cases hfinish
  · rw [h.finish_ok hcollides] at hfinish
    cases hfinish
    exact ⟨hcollides, rfl⟩

theorem Indexes.of_finish_error (h : b.Indexes symbols) {failure : Failure}
    (hfinish : b.finish = .error failure) :
    Collides symbols ∧
      failure = .integrityViolation (distinctSymbols symbols) (distinctEntries symbols) := by
  by_cases hcollides : Collides symbols
  · rw [h.finish_error hcollides] at hfinish
    cases hfinish
    exact ⟨hcollides, rfl⟩
  · rw [h.finish_ok hcollides] at hfinish
    cases hfinish

theorem Indexes.exists_finish_ok_iff (h : b.Indexes symbols) :
    (∃ index, b.finish = .ok index) ↔ ¬ Collides symbols := by
  constructor
  · intro hok
    obtain ⟨index, hfinish⟩ := hok
    exact (h.of_finish_ok hfinish).1
  · intro hdistinct
    exact ⟨_, h.finish_ok hdistinct⟩

/-- An index holds one entry for each symbol. -/
theorem Indexes.entryCount_of_finish (h : b.Indexes symbols) {index : PresentIndex}
    (hfinish : b.finish = .ok index) : index.entryCount = distinctSymbols symbols := by
  obtain ⟨hdistinct, rfl⟩ := h.of_finish_ok hfinish
  rw [PresentIndex.entryCount, h.entryCount, (distinctEntries_eq_iff h.decodes).mpr hdistinct]

end IndexBuilder

/-! ## The index of documents -/

/-- The items of all documents. -/
def allItems (documents : List Document) : List String := documents.flatMap (·.metadata.items)

/-- Some item of some document decodes to the entry. -/
def Present (documents : List Document) (entry : Entry) : Prop :=
  ∃ d ∈ documents, ∃ symbol ∈ d.metadata.items, entryOf symbol = .ok entry

theorem exists_mem_allItems {documents : List Document} :
    (∃ symbol ∈ allItems documents, entryOf symbol = .ok entry) ↔ Present documents entry := by
  constructor
  · intro h
    obtain ⟨symbol, hmem, hentry⟩ := h
    obtain ⟨d, hd, hs⟩ := List.mem_flatMap.mp hmem
    exact ⟨d, hd, symbol, hs, hentry⟩
  · intro h
    obtain ⟨d, hd, symbol, hs, hentry⟩ := h
    exact ⟨symbol, List.mem_flatMap.mpr ⟨d, hd, hs⟩, hentry⟩

namespace PresentIndex

variable {documents : List Document} {index : PresentIndex} {parallel : Bool}

theorem contains_iff {key : Key} {hash : Option Hash} :
    index.contains key hash = true ↔ index.buckets.Has (key, hash) := by
  unfold contains bucket? Buckets.Has
  cases index.buckets[key]? with
  | none => simp
  | some bucket => simp

/-- Where all items decode, the parts of the documents merge to a builder of all
items. -/
theorem build_eq_finish (parallel : Bool) (h : ∀ d ∈ documents, ¬ d.HasMalformedItem) :
    ∃ b : IndexBuilder, b.Indexes (allItems documents) ∧ build parallel documents = b.finish := by
  obtain ⟨parts, hcollect⟩ := exists_collect_ok fun d hd =>
    IndexBuilder.exists_ofDocument_ok (h d hd)
  have hindexes := (collect_map_eq_ok hcollect).imp fun _ _ => IndexBuilder.indexes_of_ofDocument
  refine ⟨parts.foldl IndexBuilder.merge .empty, ?_, ?_⟩
  · exact IndexBuilder.indexes_empty.foldl_merge hindexes
  · rw [build, batch_eq_map, hcollect]
    rfl

/-- The first malformed item of the first document with one decides. -/
theorem build_malformed {before : List Document} {d : Document} {itemsBefore : List String}
    {symbol : String} {cause : MalformedSymbol}
    (hd : IsFirst Document.HasMalformedItem documents before d)
    (hs : IsFirst Malformed d.metadata.items itemsBefore symbol)
    (hcause : decode symbol = .error cause) :
    build parallel documents = .error (.malformedSymbol d.shortName cause) := by
  have herror := IndexBuilder.ofDocument_error hs hcause
  rw [build, batch_eq_map,
    collect_map_error hd (fun _ => IndexBuilder.exists_ofDocument_ok) herror]
  rfl

theorem exists_build_malformed (h : ∃ d ∈ documents, d.HasMalformedItem) :
    ∃ before d itemsBefore symbol cause,
      IsFirst Document.HasMalformedItem documents before d ∧
        IsFirst Malformed d.metadata.items itemsBefore symbol ∧ decode symbol = .error cause ∧
          build parallel documents = .error (.malformedSymbol d.shortName cause) := by
  obtain ⟨before, d, hd⟩ := exists_isFirst h
  obtain ⟨itemsBefore, symbol, hs⟩ := exists_isFirst hd.2.2
  obtain ⟨cause, hcause⟩ := hs.2.2
  exact ⟨before, d, itemsBefore, symbol, cause, hd, hs, hcause, build_malformed hd hs hcause⟩

theorem build_collision (h : ∀ d ∈ documents, ¬ d.HasMalformedItem)
    (hcollides : Collides (allItems documents)) :
    build parallel documents =
      .error (.integrityViolation (distinctSymbols (allItems documents))
        (distinctEntries (allItems documents))) := by
  obtain ⟨b, hindexes, hbuild⟩ := build_eq_finish parallel h
  rw [hbuild, hindexes.finish_error hcollides]

/-- The index contains what is present. -/
theorem build_ok (parallel : Bool) (h : ∀ d ∈ documents, ¬ d.HasMalformedItem)
    (hdistinct : ¬ Collides (allItems documents)) :
    ∃ index, build parallel documents = .ok index ∧
      ∀ key hash, index.contains key hash = true ↔ Present documents (key, hash) := by
  obtain ⟨b, hindexes, hbuild⟩ := build_eq_finish parallel h
  refine ⟨⟨b.buckets⟩, by rw [hbuild, hindexes.finish_ok hdistinct], ?_⟩
  intro key hash
  rw [contains_iff, hindexes.has_iff]
  exact exists_mem_allItems

/-- Every index that was made contains what is present. -/
theorem contains_of_build (h : build parallel documents = .ok index) (key : Key)
    (hash : Option Hash) : index.contains key hash = true ↔ Present documents (key, hash) := by
  by_cases hitems : ∃ d ∈ documents, d.HasMalformedItem
  · obtain ⟨before, d, itemsBefore, symbol, cause, -, -, -, herror⟩ := exists_build_malformed hitems
    rw [h] at herror
    cases herror
  · have hgood : ∀ d ∈ documents, ¬ d.HasMalformedItem := fun d hd hbad => hitems ⟨d, hd, hbad⟩
    by_cases hcollides : Collides (allItems documents)
    · rw [build_collision hgood hcollides] at h
      cases h
    · obtain ⟨index', hindex, hcontains⟩ := build_ok parallel hgood hcollides
      rw [h] at hindex
      cases hindex
      exact hcontains key hash

end PresentIndex
end SymbolCoverage
