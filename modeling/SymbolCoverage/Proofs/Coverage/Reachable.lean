import SymbolCoverage.Proofs.Coverage.Accounting
import SymbolCoverage.Proofs.Symbol.Grammar

/-!
Reachable builders.  A builder is reachable if it is made from empty ones by
insertions, extensions and merges, whether these fail or not.  Every reachable builder
indexes exactly the symbols that it holds, so its symbols determine its buckets, and
its accounting check fails exactly when two of its symbols share an entry.
-/

namespace SymbolCoverage

open SymbolCoverage.Symbol

theorem Symbol.text_of_raw {symbol text : String} {hash : Option Hash}
    (h : entryOf symbol = .ok (.raw text, hash)) : text = symbol := by
  obtain ⟨decoded, hdecoded, hentry⟩ := entryOf_eq_ok.mp h
  cases decoded with
  | mangled path k => cases hentry
  | verbatim text' =>
    cases hentry
    exact ((decode_verbatim_iff symbol text).mp hdecoded).1

namespace IndexBuilder

variable {b c : IndexBuilder} {xs : List String}

/-- The builders that insertions, extensions and merges make from empty ones.  Those that
fail make one too, by what they have done until then. -/
inductive Reachable : IndexBuilder → Prop
  | empty : Reachable .empty
  | insert {b : IndexBuilder} (hb : Reachable b) (symbol : String) : Reachable (b.insert symbol).1
  | extend {b : IndexBuilder} (hb : Reachable b) (d : Document) : Reachable (b.extend d).1
  | merge {b c : IndexBuilder} (hb : Reachable b) (hc : Reachable c) : Reachable (b.merge c)

/-- Symbols and buckets go together.  The symbols decode, the buckets hold their
entries and no others, and no bucket is there for nothing. -/
structure Consistent (b : IndexBuilder) : Prop where
  decodes : ∀ symbol ∈ b.symbols, ∃ decoded, decode symbol = .ok decoded
  mem_bucket_iff : ∀ (key : Key) (hash : Option Hash),
    (∃ bucket, b.buckets[key]? = some bucket ∧ hash ∈ bucket) ↔
      ∃ symbol ∈ b.symbols, entryOf symbol = .ok (key, hash)
  bucket_ne_empty : ∀ (key : Key) (bucket : Bucket), b.buckets[key]? = some bucket → bucket ≠ ∅
  raw_bucket : ∀ (text : String) (bucket : Bucket), b.buckets[Key.raw text]? = some bucket →
    bucket = {none} ∧ text ∈ b.symbols
  path_bucket : ∀ (path : Path) (bucket : Bucket), b.buckets[Key.path path]? = some bucket →
    ∀ hash ∈ bucket, ∃ k, hash = some k

/-! ## What a step keeps -/

theorem Indexes.insert (h : b.Indexes xs) (symbol : String) :
    ∃ ys, (b.insert symbol).1.Indexes ys := by
  by_cases hs : Malformed symbol
  · obtain ⟨e, he⟩ := hs
    refine ⟨xs, ?_⟩
    rw [h.insert_error he]
    exact h
  · obtain ⟨b', hb', hindexes⟩ := h.insert_ok hs
    refine ⟨xs ++ [symbol], ?_⟩
    rw [hb']
    exact hindexes

theorem Indexes.extend (h : b.Indexes xs) (d : Document) : ∃ ys, (b.extend d).1.Indexes ys := by
  by_cases hd : d.HasMalformedItem
  · obtain ⟨before, symbol, hfirst⟩ := exists_isFirst hd
    obtain ⟨e, he⟩ := hfirst.2.2
    obtain ⟨b', hb', hindexes⟩ := h.extend_error hfirst he
    refine ⟨xs ++ before, ?_⟩
    rw [hb']
    exact hindexes
  · obtain ⟨b', hb', hindexes⟩ := h.extend_ok hd
    refine ⟨xs ++ d.metadata.items, ?_⟩
    rw [hb']
    exact hindexes

theorem Indexes.toList_symbols (h : b.Indexes xs) : b.Indexes b.symbols.toList :=
  h.congr fun symbol => by rw [Std.ExtTreeSet.mem_toList, h.mem_symbols]

/-- A reachable builder indexes the symbols that it holds. -/
theorem Reachable.indexes (h : b.Reachable) : b.Indexes b.symbols.toList := by
  have hexists : ∃ xs, b.Indexes xs := by
    induction h with
    | empty => exact ⟨[], indexes_empty⟩
    | insert _ symbol ih =>
      obtain ⟨xs, hxs⟩ := ih
      exact hxs.insert symbol
    | extend _ d ih =>
      obtain ⟨xs, hxs⟩ := ih
      exact hxs.extend d
    | merge _ _ ihb ihc =>
      obtain ⟨xs, hxs⟩ := ihb
      obtain ⟨ys, hys⟩ := ihc
      exact ⟨xs ++ ys, hxs.merge hys⟩
  obtain ⟨xs, hxs⟩ := hexists
  exact hxs.toList_symbols

theorem Indexes.consistent (h : b.Indexes b.symbols.toList) : b.Consistent := by
  have hdecodes : ∀ symbol ∈ b.symbols, ∃ decoded, decode symbol = .ok decoded := by
    intro symbol hs
    have hgood := h.decodes symbol (Std.ExtTreeSet.mem_toList.mpr hs)
    obtain ⟨entry, hentry⟩ := not_malformed_iff.mp hgood
    obtain ⟨decoded, hdecoded, -⟩ := entryOf_eq_ok.mp hentry
    exact ⟨decoded, hdecoded⟩
  have hmem : ∀ (key : Key) (hash : Option Hash),
      (∃ bucket, b.buckets[key]? = some bucket ∧ hash ∈ bucket) ↔
        ∃ symbol ∈ b.symbols, entryOf symbol = .ok (key, hash) := by
    intro key hash
    have hhas := h.has_iff (key, hash)
    simp only [Std.ExtTreeSet.mem_toList] at hhas
    exact hhas
  refine ⟨hdecodes, hmem, ?_, ?_, ?_⟩
  · intro key bucket hbucket hempty
    obtain ⟨hash, hhash⟩ := h.filled key bucket hbucket
    rw [hempty] at hhash
    simp at hhash
  · intro text bucket hbucket
    -- Only the symbol itself has this key, and it has no hash.
    have hnone : ∀ hash ∈ bucket, hash = none ∧ text ∈ b.symbols := by
      intro hash hhash
      obtain ⟨symbol, hs, hentry⟩ := (hmem (.raw text) hash).mp ⟨bucket, hbucket, hhash⟩
      exact ⟨hash_of_raw hentry, text_of_raw hentry ▸ hs⟩
    obtain ⟨hash, hhash⟩ := h.filled (.raw text) bucket hbucket
    obtain ⟨rfl, htext⟩ := hnone hash hhash
    refine ⟨Std.ExtTreeSet.ext_mem fun hash' => ?_, htext⟩
    rw [Std.ExtTreeSet.singleton_eq_insert, Std.ExtTreeSet.mem_insert, Std.compare_eq_iff_eq]
    constructor
    · intro hhash'
      exact .inl (hnone hash' hhash').1.symm
    · intro hhash'
      rcases hhash' with rfl | hhash'
      · exact hhash
      · simp at hhash'
  · intro path bucket hbucket hash hhash
    obtain ⟨symbol, -, hentry⟩ := (hmem (.path path) hash).mp ⟨bucket, hbucket, hhash⟩
    exact hash_of_path hentry

/-- Reachable builders are consistent, and their symbols determine their buckets. -/
theorem reachable_consistent (h : b.Reachable) :
    b.Consistent ∧
      ∀ c : IndexBuilder, c.Reachable → (∀ symbol, symbol ∈ b.symbols ↔ symbol ∈ c.symbols) →
        b.buckets = c.buckets := by
  refine ⟨h.indexes.consistent, fun c hc hsymbols => ?_⟩
  have heq : b = c := h.indexes.unique hc.indexes fun symbol => by
    rw [Std.ExtTreeSet.mem_toList, Std.ExtTreeSet.mem_toList]
    exact hsymbols symbol
  rw [heq]

/-- Two builders that hold the same symbols, one of them after a failed insertion, a
failed extension and a merge. -/
def mergedBuilder : IndexBuilder :=
  ((empty.insert "memcpy").1.insert "_ZN9foo17h0123456789abcdefE").1.merge
    (empty.extend ⟨⟨"a.smir.json"⟩, ⟨["_ZN3foo17hffffffffffffffffE", "memcpy",
      "_ZN17h0123456789abcdefE", "_ZN3bar17h0000000000000000E"], []⟩⟩).1

def plainBuilder : IndexBuilder :=
  ((empty.insert "_ZN3foo17hffffffffffffffffE").1.insert "memcpy").1

theorem reachable_mergedBuilder : mergedBuilder.Reachable :=
  .merge (.insert (.insert .empty _) _) (.extend .empty _)

theorem reachable_consistent_mergedBuilder :
    mergedBuilder.Reachable ∧ plainBuilder.Reachable ∧
      mergedBuilder.symbols.toList = ["_ZN3foo17hffffffffffffffffE", "memcpy"] ∧
      (∀ symbol, symbol ∈ mergedBuilder.symbols ↔ symbol ∈ plainBuilder.symbols) ∧
      mergedBuilder.Consistent ∧ mergedBuilder.buckets = plainBuilder.buckets := by
  have hplain : plainBuilder.Reachable := .insert (.insert .empty _) _
  have hlist : mergedBuilder.symbols.toList = ["_ZN3foo17hffffffffffffffffE", "memcpy"] := by
    decide +kernel
  have hlist' : plainBuilder.symbols.toList = ["_ZN3foo17hffffffffffffffffE", "memcpy"] := by
    decide +kernel
  have hsymbols : ∀ symbol, symbol ∈ mergedBuilder.symbols ↔ symbol ∈ plainBuilder.symbols := by
    intro symbol
    rw [← Std.ExtTreeSet.mem_toList, ← Std.ExtTreeSet.mem_toList, hlist, hlist']
  obtain ⟨hconsistent, hbuckets⟩ := reachable_consistent reachable_mergedBuilder
  exact ⟨reachable_mergedBuilder, hplain, hlist, hsymbols, hconsistent,
    hbuckets plainBuilder hplain hsymbols⟩

/-! ## The accounting check -/

/-- A reachable builder passes the accounting check exactly if decoding tells its
symbols apart.  A check that fails counts fewer entries than symbols, and an index that
passes it holds one entry for each symbol. -/
theorem finish_detects_collisions (h : b.Reachable) :
    ((∃ index, b.finish = .ok index) ↔ Set.InjOn entryOf {symbol | symbol ∈ b.symbols}) ∧
    (∀ failure, b.finish = .error failure →
      failure = .integrityViolation (distinctSymbols b.symbols.toList)
          (distinctEntries b.symbols.toList) ∧
        distinctEntries b.symbols.toList < distinctSymbols b.symbols.toList) ∧
    ∀ index, b.finish = .ok index →
      index.entryCount = distinctSymbols b.symbols.toList ∧
        ∀ key hash, index.contains key hash = true ↔
          ∃! symbol, symbol ∈ b.symbols ∧ entryOf symbol = .ok (key, hash) := by
  have hindexes := h.indexes
  refine ⟨?_, ?_, ?_⟩
  · rw [hindexes.exists_finish_ok_iff, not_collides_iff_injOn hindexes.decodes]
    simp only [Std.ExtTreeSet.mem_toList]
  · intro failure hfinish
    obtain ⟨hcollides, hfailure⟩ := hindexes.of_finish_error hfinish
    exact ⟨hfailure, distinctEntries_lt hindexes.decodes hcollides⟩
  · intro index hfinish
    refine ⟨hindexes.entryCount_of_finish hfinish, fun key hash => ?_⟩
    obtain ⟨hdistinct, rfl⟩ := hindexes.of_finish_ok hfinish
    rw [PresentIndex.contains_iff, hindexes.has_iff, existsUnique_of_not_collides hdistinct]
    simp only [Std.ExtTreeSet.mem_toList]

/-- Two parts without a collision of their own, in which the dropped underscore hides
one from the other. -/
def collidingBuilder : IndexBuilder :=
  (empty.insert "_ZN3foo17h0123456789abcdefE").1.merge
    ((empty.insert "_ZN4_foo17h0123456789abcdefE").1.insert "memcpy").1

theorem finish_detects_collisions_collidingBuilder :
    collidingBuilder.Reachable ∧ collidingBuilder.finish = .error (.integrityViolation 3 2) ∧
      ¬ Set.InjOn entryOf {symbol | symbol ∈ collidingBuilder.symbols} ∧
      distinctSymbols collidingBuilder.symbols.toList = 3 ∧
      distinctEntries collidingBuilder.symbols.toList = 2 ∧
      mergedBuilder.Reachable ∧
      ∃ index, mergedBuilder.finish = .ok index ∧ index.entryCount = 2 ∧
        ∃! symbol, symbol ∈ mergedBuilder.symbols ∧
          entryOf symbol = .ok (.raw "memcpy", none) := by
  have hcolliding : collidingBuilder.Reachable :=
    .merge (.insert .empty _) (.insert (.insert .empty _) _)
  have hsymbols : collidingBuilder.symbols.size = 3 := by decide +kernel
  have hentries : collidingBuilder.buckets.entryCount = 2 := by decide +kernel
  have herror : collidingBuilder.finish = .error (.integrityViolation 3 2) := by
    rw [finish, hsymbols, hentries]
    rfl
  have hcounts : mergedBuilder.symbols.size = mergedBuilder.buckets.entryCount := by decide +kernel
  have hok : mergedBuilder.finish = .ok ⟨mergedBuilder.buckets⟩ := by rw [finish, if_pos hcounts]
  have hcontains : PresentIndex.contains ⟨mergedBuilder.buckets⟩ (.raw "memcpy") none = true := by
    decide +kernel
  obtain ⟨hinj, hfails, -⟩ := finish_detects_collisions hcolliding
  obtain ⟨-, -, hpasses⟩ := finish_detects_collisions reachable_mergedBuilder
  obtain ⟨hfailure, -⟩ := hfails _ herror
  obtain ⟨-, hunique⟩ := hpasses _ hok
  injection hfailure with hdistinct hindexed
  refine ⟨hcolliding, herror, ?_, hdistinct.symm, hindexed.symm, reachable_mergedBuilder,
    _, hok, ?_, (hunique _ _).mp hcontains⟩
  · intro hall
    obtain ⟨index, hindex⟩ := hinj.mpr hall
    rw [herror] at hindex
    cases hindex
  · decide +kernel

end IndexBuilder
end SymbolCoverage
