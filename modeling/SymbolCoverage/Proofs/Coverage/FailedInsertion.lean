import SymbolCoverage.Proofs.Coverage.Reachable

/-!
Failed insertions.  A reachable builder refuses exactly the malformed symbols, and a
refused symbol leaves the builder as it was.  The items of a document go in one by one up
to the first malformed one, so what is left behind is what a document without the rest
would have left, and the same items may be supplied again.
-/

namespace SymbolCoverage

open SymbolCoverage.Symbol

/-- The document with other items in its table. -/
def Document.withItems (d : Document) (items : List String) : Document :=
  { d with metadata := { d.metadata with items } }

namespace IndexBuilder

variable {b b' : IndexBuilder} {xs ys before : List String} {symbol : String}
  {e : MalformedSymbol} {d : Document}

/-- The builder after symbols were inserted one by one, whether these insertions failed or
not. -/
def insertEach (b : IndexBuilder) (symbols : List String) : IndexBuilder :=
  symbols.foldl (fun b symbol => (b.insert symbol).1) b

theorem mem_symbols_of_insert (h : b.insert symbol = (b', none)) :
    symbol ∈ b'.symbols ∧ ∀ s ∈ b.symbols, s ∈ b'.symbols := by
  by_cases hmem : symbol ∈ b.symbols
  · rw [insert_of_mem hmem] at h
    cases h
    exact ⟨hmem, fun _ => id⟩
  · cases hdecoded : decode symbol with
    | error e =>
      rw [insert_malformed hmem hdecoded] at h
      cases h
    | ok decoded =>
      rw [insert_new hmem hdecoded] at h
      cases h
      exact ⟨Std.ExtTreeSet.mem_insert_self, fun s hs => Std.ExtTreeSet.mem_insert.mpr (.inr hs)⟩

/-! ## Runs of insertions -/

theorem insertAll_append (h : b.insertAll xs = (b', none)) :
    b.insertAll (xs ++ ys) = b'.insertAll ys := by
  induction xs generalizing b with
  | nil =>
    cases h
    rfl
  | cons x xs ih =>
    rw [insertAll] at h
    split at h
    next b₁ hx =>
      rw [List.cons_append, insertAll, hx]
      exact ih h
    next => cases h

/-- A run that ends well holds all that it was given, and keeps what was there. -/
theorem mem_symbols_of_insertAll (h : b.insertAll xs = (b', none)) :
    (∀ s ∈ xs, s ∈ b'.symbols) ∧ ∀ s ∈ b.symbols, s ∈ b'.symbols := by
  induction xs generalizing b with
  | nil =>
    cases h
    exact ⟨nofun, fun _ => id⟩
  | cons x xs ih =>
    rw [insertAll] at h
    split at h
    next b₁ hx =>
      obtain ⟨hxs, hkept⟩ := ih h
      obtain ⟨hmem, hold⟩ := mem_symbols_of_insert hx
      exact ⟨List.forall_mem_cons.mpr ⟨hkept x hmem, hxs⟩, fun s hs => hkept s (hold s hs)⟩
    next => cases h

/-- Symbols that are held go in again without a change. -/
theorem insertAll_of_mem (h : ∀ s ∈ xs, s ∈ b.symbols) : b.insertAll xs = (b, none) := by
  induction xs with
  | nil => rfl
  | cons x xs ih =>
    rw [List.forall_mem_cons] at h
    rw [insertAll, insert_of_mem h.1]
    exact ih h.2

/-- After a run that ended well, the same symbols may come first in another one. -/
theorem insertAll_again (h : b.insertAll xs = (b', none)) (hstart : xs <+: ys) :
    b'.insertAll ys = b.insertAll ys := by
  obtain ⟨rest, rfl⟩ := hstart
  rw [insertAll_append h, insertAll_append (insertAll_of_mem (mem_symbols_of_insertAll h).1)]

/-! ## Reachable builders -/

/-- A reachable builder holds no malformed symbol, so it never takes one for granted. -/
theorem Reachable.insert_failure_iff (h : b.Reachable) :
    (b.insert symbol).2 = some e ↔ decode symbol = .error e := by
  constructor
  · intro hinsert
    by_cases hs : Malformed symbol
    · obtain ⟨e', he'⟩ := hs
      rw [h.indexes.insert_error he'] at hinsert
      cases hinsert
      exact he'
    · obtain ⟨b', hb', -⟩ := h.indexes.insert_ok hs
      rw [hb'] at hinsert
      cases hinsert
  · intro he
    rw [h.indexes.insert_error he]

/-- A symbol is decoded before anything is written. -/
theorem Reachable.insert_unchanged (h : b.Reachable) (hs : Malformed symbol) :
    (b.insert symbol).1 = b := by
  obtain ⟨e, he⟩ := hs
  rw [h.indexes.insert_error he]

theorem Reachable.insertAll_eq_insertEach (h : b.Reachable) (hxs : ∀ s ∈ xs, ¬ Malformed s) :
    b.insertAll xs = (b.insertEach xs, none) := by
  induction xs generalizing b with
  | nil => rfl
  | cons x xs ih =>
    rw [List.forall_mem_cons] at hxs
    obtain ⟨b', hb', -⟩ := h.indexes.insert_ok hxs.1
    have hnext : b'.Reachable := by
      have hinsert := h.insert x
      rwa [hb'] at hinsert
    rw [insertAll, insertEach, List.foldl_cons, hb']
    exact ih hnext hxs.2

theorem Reachable.insertEach (h : b.Reachable) (xs : List String) :
    (b.insertEach xs).Reachable := by
  induction xs generalizing b with
  | nil => exact h
  | cons x xs ih => exact ih (h.insert x)

/-- The run stops at the first malformed symbol, with what came before it. -/
theorem Reachable.insertAll_of_isFirst (h : b.Reachable)
    (hfirst : IsFirst Malformed xs before symbol) (he : decode symbol = .error e) :
    b.insertAll xs = (b.insertEach before, some e) := by
  obtain ⟨⟨after, rfl⟩, hbefore, -⟩ := hfirst
  have hstop : (b.insertEach before).insert symbol = (b.insertEach before, some e) :=
    (h.insertEach before).indexes.insert_error he
  rw [insertAll_append (h.insertAll_eq_insertEach hbefore), insertAll, hstop]

theorem Reachable.extend_eq_insertEach (h : b.Reachable) (hd : ¬ d.HasMalformedItem) :
    b.extend d = (b.insertEach d.metadata.items, none) := by
  have hitems : ∀ s ∈ d.metadata.items, ¬ Malformed s := fun s hs hbad => hd ⟨s, hs, hbad⟩
  rw [extend_eq, h.insertAll_eq_insertEach hitems]
  rfl

theorem Reachable.extend_of_isFirst (h : b.Reachable)
    (hfirst : IsFirst Malformed d.metadata.items before symbol) (he : decode symbol = .error e) :
    b.extend d = (b.insertEach before, some (.malformedSymbol d.shortName e)) := by
  rw [extend_eq, h.insertAll_of_isFirst hfirst he]
  rfl

theorem Reachable.exists_extend_failure_iff (h : b.Reachable) :
    (∃ failure, (b.extend d).2 = some failure) ↔ d.HasMalformedItem := by
  by_cases hd : d.HasMalformedItem
  · obtain ⟨before, symbol, hfirst⟩ := exists_isFirst hd
    obtain ⟨e, he⟩ := hfirst.2.2
    rw [h.extend_of_isFirst hfirst he]
    exact iff_of_true ⟨_, rfl⟩ hd
  · rw [h.extend_eq_insertEach hd]
    exact iff_of_false nofun hd

/-- Another document that starts with the items that stayed is added as if nothing had been
added before. -/
theorem Reachable.extend_again (h : b.Reachable) (hbefore : ∀ s ∈ before, ¬ Malformed s)
    (hstart : before <+: d.metadata.items) :
    (b.insertEach before).extend d = b.extend d := by
  rw [extend_eq, extend_eq, insertAll_again (h.insertAll_eq_insertEach hbefore) hstart]

/-- Insertions and extensions fail exactly at malformed symbols.  A failed insertion changes
nothing.  A failed extension leaves the builder that the items before the first malformed
one make, as the document without the rest does, and it may be tried again with any
document that starts with these items. -/
theorem failures_leave_no_trace (h : b.Reachable) :
    (∀ symbol e, (b.insert symbol).2 = some e ↔ decode symbol = .error e) ∧
    (∀ symbol, Malformed symbol → (b.insert symbol).1 = b) ∧
    (∀ d, (∃ failure, (b.extend d).2 = some failure) ↔ d.HasMalformedItem) ∧
    ∀ d before symbol e, IsFirst Malformed d.metadata.items before symbol →
      decode symbol = .error e →
        b.extend d = (b.insertEach before, some (.malformedSymbol d.shortName e)) ∧
        b.insertAll before = (b.insertEach before, none) ∧
        b.extend (d.withItems before) = (b.insertEach before, none) ∧
        ∀ d', before <+: d'.metadata.items → (b.extend d).1.extend d' = b.extend d' := by
  refine ⟨fun _ _ => h.insert_failure_iff, fun _ => h.insert_unchanged,
    fun _ => h.exists_extend_failure_iff, ?_⟩
  intro d before symbol e hfirst he
  have hextend := h.extend_of_isFirst hfirst he
  have hbefore : ∀ s ∈ before, ¬ Malformed s := hfirst.2.1
  have htrimmed : ¬ (d.withItems before).HasMalformedItem := by
    intro hbad
    obtain ⟨s, hs, hmalformed⟩ := hbad
    exact hbefore s hs hmalformed
  refine ⟨hextend, h.insertAll_eq_insertEach hbefore, h.extend_eq_insertEach htrimmed, ?_⟩
  intro d' hstart
  rw [hextend]
  exact h.extend_again hbefore hstart

/-- A symbol that is held already and a new one stand before one without a group length. -/
def interruptedCrate : Document :=
  ⟨⟨"b.smir.json"⟩, ⟨["memcpy", "_ZN3bar17h0000000000000000E", "_ZN3bar__17h0000000000000000E",
    "memset"], []⟩⟩

/-- The crate with its bad item mended. -/
def mendedCrate : Document :=
  interruptedCrate.withItems ["memcpy", "_ZN3bar17h0000000000000000E",
    "_ZN5bar__17h0000000000000000E"]

theorem failures_leave_no_trace_interruptedCrate :
    mergedBuilder.Reachable ∧
      decode "_ZN3bar__17h0000000000000000E" =
        .error ⟨"_ZN3bar__17h0000000000000000E", .missingLength 4⟩ ∧
      mergedBuilder.insert "_ZN3bar__17h0000000000000000E" =
        (mergedBuilder, some ⟨"_ZN3bar__17h0000000000000000E", .missingLength 4⟩) ∧
      (mergedBuilder.extend interruptedCrate).2 = some (.malformedSymbol "b"
        ⟨"_ZN3bar__17h0000000000000000E", .missingLength 4⟩) ∧
      (mergedBuilder.extend interruptedCrate).1.symbols.toList =
        ["_ZN3bar17h0000000000000000E", "_ZN3foo17hffffffffffffffffE", "memcpy"] ∧
      (mergedBuilder.extend interruptedCrate).1.extend mendedCrate =
        mergedBuilder.extend mendedCrate := by
  have he : decode "_ZN3bar__17h0000000000000000E" =
      .error ⟨"_ZN3bar__17h0000000000000000E", .missingLength 4⟩ :=
    failure?_eq_some.mp (by decide +kernel)
  have hgood : ∀ s ∈ ["memcpy", "_ZN3bar17h0000000000000000E"], (failure? (decode s)).isNone := by
    decide +kernel
  have hfirst : IsFirst Malformed interruptedCrate.metadata.items
      ["memcpy", "_ZN3bar17h0000000000000000E"] "_ZN3bar__17h0000000000000000E" := by
    refine ⟨⟨["memset"], rfl⟩, ?_, ⟨_, he⟩⟩
    intro s hs hmalformed
    obtain ⟨e, he⟩ := hmalformed
    have hnone := hgood s hs
    rw [failure?_eq_some.mpr he] at hnone
    cases hnone
  obtain ⟨hfails, hunchanged, -, hextend⟩ := failures_leave_no_trace reachable_mergedBuilder
  obtain ⟨hresult, hinsertAll, -, hagain⟩ := hextend interruptedCrate _ _ _ hfirst he
  have hsymbols : (mergedBuilder.insertAll
      ["memcpy", "_ZN3bar17h0000000000000000E"]).1.symbols.toList =
        ["_ZN3bar17h0000000000000000E", "_ZN3foo17hffffffffffffffffE", "memcpy"] := by
    decide +kernel
  refine ⟨reachable_mergedBuilder, he, ?_, ?_, ?_, ?_⟩
  · exact Prod.ext (hunchanged _ ⟨_, he⟩) ((hfails _ _).mpr he)
  · rw [hresult]
    exact congrArg (fun crate => some (Failure.malformedSymbol crate _)) (by decide)
  · rw [hresult]
    rwa [hinsertAll] at hsymbols
  · exact hagain mendedCrate ⟨["_ZN5bar__17h0000000000000000E"], rfl⟩

end IndexBuilder
end SymbolCoverage
