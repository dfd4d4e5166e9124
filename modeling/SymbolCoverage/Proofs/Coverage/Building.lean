import SymbolCoverage.Proofs.Coverage.Buckets

/-!
Building the index.  A builder indexes a list of symbols if it holds these symbols
and their entries, and nothing else, so the list determines it.  Inserting a symbol puts
it behind the list and merging two builders puts their lists together, so the parts made
from the documents merge to a builder that indexes all items.
-/

namespace SymbolCoverage

open SymbolCoverage.Symbol

def Document.HasMalformedItem (d : Document) : Prop := ∃ symbol ∈ d.metadata.items, Malformed symbol

namespace IndexBuilder

structure Indexes (b : IndexBuilder) (symbols : List String) : Prop where
  mem_symbols : ∀ symbol, symbol ∈ b.symbols ↔ symbol ∈ symbols
  decodes : ∀ symbol ∈ symbols, ¬ Malformed symbol
  has_iff : ∀ entry, b.buckets.Has entry ↔ ∃ symbol ∈ symbols, entryOf symbol = .ok entry
  filled : b.buckets.Filled

variable {b c : IndexBuilder} {xs ys : List String} {symbol : String} {d : Document}

theorem indexes_empty : empty.Indexes [] where
  mem_symbols symbol := by simp [empty]
  decodes symbol hs := by cases hs
  has_iff entry := by simp [empty, Buckets.not_has_empty]
  filled := Buckets.filled_empty

/-- Neither order nor repetition of the symbols matters. -/
theorem Indexes.congr (h : b.Indexes xs) (hmem : ∀ symbol, symbol ∈ xs ↔ symbol ∈ ys) :
    b.Indexes ys where
  mem_symbols symbol := (h.mem_symbols symbol).trans (hmem symbol)
  decodes symbol hs := h.decodes symbol ((hmem symbol).mpr hs)
  has_iff entry := by
    rw [h.has_iff]
    simp only [hmem]
  filled := h.filled

/-- Builders that index the same symbols are equal. -/
theorem Indexes.unique (hb : b.Indexes xs) (hc : c.Indexes ys)
    (hmem : ∀ symbol, symbol ∈ xs ↔ symbol ∈ ys) : b = c := by
  have hc' : c.Indexes xs := hc.congr fun symbol => (hmem symbol).symm
  have hbuckets : b.buckets = c.buckets :=
    hb.filled.ext hc'.filled fun entry => (hb.has_iff entry).trans (hc'.has_iff entry).symm
  have hsymbols : b.symbols = c.symbols :=
    Std.ExtTreeSet.ext_mem fun symbol =>
      (hb.mem_symbols symbol).trans (hc'.mem_symbols symbol).symm
  cases b
  cases c
  cases hbuckets
  cases hsymbols
  rfl

/-! ## Insertion -/

/-- The builder and the error after an insertion.  All that can fail is done before the
builder is touched. -/
theorem insert_eq (b : IndexBuilder) (symbol : String) :
    b.insert symbol =
      if b.symbols.contains symbol then (b, none)
      else
        match decode symbol with
        | .error e => (b, some e)
        | .ok decoded =>
          (⟨b.buckets.add decoded.key (Std.ExtTreeSet.empty.insert decoded.hash?),
            b.symbols.insert symbol⟩, none) := by
  rw [insert, after, insertion]
  simp only [EStateM.run_bind, EStateM.run_get]
  cases b.symbols.contains symbol with
  | true => rfl
  | false =>
    cases decode symbol with
    | error e => rfl
    | ok decoded => rfl

theorem insert_of_mem (h : symbol ∈ b.symbols) : b.insert symbol = (b, none) := by
  have hcontains : b.symbols.contains symbol = true := Std.ExtTreeSet.contains_iff_mem.mpr h
  rw [insert_eq, if_pos hcontains]

theorem insert_new (h : symbol ∉ b.symbols) {decoded : Decoded}
    (hdecoded : decode symbol = .ok decoded) :
    b.insert symbol =
      (⟨b.buckets.add decoded.key (Std.ExtTreeSet.empty.insert decoded.hash?),
        b.symbols.insert symbol⟩, none) := by
  have hcontains : ¬ b.symbols.contains symbol = true :=
    fun hmem => h (Std.ExtTreeSet.contains_iff_mem.mp hmem)
  rw [insert_eq, if_neg hcontains, hdecoded]

theorem insert_malformed (h : symbol ∉ b.symbols) {e : MalformedSymbol}
    (he : decode symbol = .error e) : b.insert symbol = (b, some e) := by
  have hcontains : ¬ b.symbols.contains symbol = true :=
    fun hmem => h (Std.ExtTreeSet.contains_iff_mem.mp hmem)
  rw [insert_eq, if_neg hcontains, he]

/-- Inserts symbols up to the first malformed one. -/
def insertAll (b : IndexBuilder) : List String → IndexBuilder × Option MalformedSymbol
  | [] => (b, none)
  | symbol :: rest =>
    match b.insert symbol with
    | (b', none) => b'.insertAll rest
    | (b', some e) => (b', some e)

/-- A document is added by inserting its items.  The error is given the name of its crate. -/
theorem extend_eq (b : IndexBuilder) (d : Document) :
    b.extend d =
      ((b.insertAll d.metadata.items).1,
        (b.insertAll d.metadata.items).2.map (.malformedSymbol d.shortName)) := by
  rw [extend, extension]
  generalize d.metadata.items = items
  induction items generalizing b with
  | nil => rfl
  | cons symbol rest ih =>
    rw [insertAll, insert]
    simp only [after, List.forM, EStateM.run, bind, EStateM.bind, EStateM.adaptExcept] at ih ⊢
    cases insertion symbol b with
    | ok _ b' => exact ih b'
    | error e b' => rfl

/-- A symbol that decodes is inserted. -/
theorem Indexes.insert_ok (h : b.Indexes xs) (hs : ¬ Malformed symbol) :
    ∃ b', b.insert symbol = (b', none) ∧ b'.Indexes (xs ++ [symbol]) := by
  by_cases hmem : symbol ∈ b.symbols
  · -- A symbol that is held changes nothing, and repeats one of the list.
    refine ⟨b, insert_of_mem hmem, h.congr ?_⟩
    have hxs : symbol ∈ xs := (h.mem_symbols symbol).mp hmem
    intro t
    simp only [List.mem_append, List.mem_singleton]
    exact ⟨Or.inl, fun ht => ht.elim id fun heq => heq ▸ hxs⟩
  · obtain ⟨entry, hentry⟩ := not_malformed_iff.mp hs
    obtain ⟨decoded, hdecoded, rfl⟩ := entryOf_eq_ok.mp hentry
    refine ⟨_, insert_new hmem hdecoded, ⟨?_, ?_, ?_, ?_⟩⟩
    · intro t
      rw [Std.ExtTreeSet.mem_insert, h.mem_symbols, Std.compare_eq_iff_eq, List.mem_append,
        List.mem_singleton, or_comm, eq_comm]
    · intro t ht
      rcases List.mem_append.mp ht with ht | ht
      · exact h.decodes t ht
      · rw [List.mem_singleton.mp ht]
        exact hs
    · intro entry
      have hadded : (entry.1 = decoded.key ∧
          entry.2 ∈ (Std.ExtTreeSet.empty.insert decoded.hash? : Bucket)) ↔
            entryOf symbol = .ok entry := by
        rw [hentry, Std.ExtTreeSet.mem_insert, Std.compare_eq_iff_eq, Except.ok.injEq, Prod.ext_iff]
        simp [Decoded.entry, eq_comm]
      rw [Buckets.has_add, h.has_iff, hadded]
      simp [or_and_right, exists_or]
    · exact h.filled.add ⟨decoded.hash?, Std.ExtTreeSet.mem_insert_self⟩

theorem Indexes.insert_error (h : b.Indexes xs) {e : MalformedSymbol}
    (he : decode symbol = .error e) : b.insert symbol = (b, some e) := by
  have hnot : symbol ∉ b.symbols :=
    fun hmem => h.decodes symbol ((h.mem_symbols symbol).mp hmem) ⟨e, he⟩
  exact insert_malformed hnot he

theorem Indexes.insertAll_ok (h : b.Indexes xs) (hys : ∀ symbol ∈ ys, ¬ Malformed symbol) :
    ∃ b', b.insertAll ys = (b', none) ∧ b'.Indexes (xs ++ ys) := by
  induction ys generalizing b xs with
  | nil => exact ⟨b, rfl, by rwa [List.append_nil]⟩
  | cons y ys ih =>
    rw [List.forall_mem_cons] at hys
    obtain ⟨b₁, hb₁, hindexes₁⟩ := h.insert_ok hys.1
    obtain ⟨b₂, hb₂, hindexes₂⟩ := ih hindexes₁ hys.2
    rw [List.append_assoc, List.singleton_append] at hindexes₂
    refine ⟨b₂, ?_, hindexes₂⟩
    rw [insertAll, hb₁]
    exact hb₂

/-- Insertion stops at the first malformed symbol. -/
theorem Indexes.insertAll_error (h : b.Indexes xs) {before : List String}
    (hfirst : IsFirst Malformed ys before symbol) {e : MalformedSymbol}
    (he : decode symbol = .error e) :
    ∃ b', b.insertAll ys = (b', some e) ∧ b'.Indexes (xs ++ before) := by
  obtain ⟨⟨after, rfl⟩, hbefore, -⟩ := hfirst
  induction before generalizing b xs with
  | nil =>
    refine ⟨b, ?_, by rwa [List.append_nil]⟩
    rw [List.nil_append, insertAll, h.insert_error he]
  | cons y before ih =>
    rw [List.forall_mem_cons] at hbefore
    obtain ⟨b₁, hb₁, hindexes₁⟩ := h.insert_ok hbefore.1
    obtain ⟨b₂, hb₂, hindexes₂⟩ := ih hindexes₁ hbefore.2
    rw [List.append_assoc, List.singleton_append] at hindexes₂
    refine ⟨b₂, ?_, hindexes₂⟩
    rw [List.cons_append, insertAll, hb₁]
    exact hb₂

theorem Indexes.extend_ok (h : b.Indexes xs) (hd : ¬ d.HasMalformedItem) :
    ∃ b', b.extend d = (b', none) ∧ b'.Indexes (xs ++ d.metadata.items) := by
  have hitems : ∀ symbol ∈ d.metadata.items, ¬ Malformed symbol :=
    fun symbol hs hmalformed => hd ⟨symbol, hs, hmalformed⟩
  obtain ⟨b', hb', hindexes⟩ := h.insertAll_ok hitems
  refine ⟨b', ?_, hindexes⟩
  rw [extend_eq, hb']
  rfl

/-- The items before the first malformed one stay. -/
theorem Indexes.extend_error (h : b.Indexes xs) {before : List String}
    (hfirst : IsFirst Malformed d.metadata.items before symbol) {e : MalformedSymbol}
    (he : decode symbol = .error e) :
    ∃ b', b.extend d = (b', some (.malformedSymbol d.shortName e)) ∧
      b'.Indexes (xs ++ before) := by
  obtain ⟨b', hb', hindexes⟩ := h.insertAll_error hfirst he
  refine ⟨b', ?_, hindexes⟩
  rw [extend_eq, hb']
  rfl

theorem ofDocument_ok (h : ¬ d.HasMalformedItem) :
    ∃ b, ofDocument d = .ok b ∧ b.Indexes d.metadata.items := by
  obtain ⟨b, hb, hindexes⟩ := indexes_empty.extend_ok h
  refine ⟨b, ?_, hindexes⟩
  rw [ofDocument, hb]

theorem exists_ofDocument_ok (h : ¬ d.HasMalformedItem) : ∃ b, ofDocument d = .ok b := by
  obtain ⟨b, hb, -⟩ := ofDocument_ok h
  exact ⟨b, hb⟩

theorem ofDocument_error {before : List String} {e : MalformedSymbol}
    (hfirst : IsFirst Malformed d.metadata.items before symbol) (he : decode symbol = .error e) :
    ofDocument d = .error (.malformedSymbol d.shortName e) := by
  obtain ⟨b, hb, -⟩ := indexes_empty.extend_error hfirst he
  rw [ofDocument, hb]

theorem indexes_of_ofDocument (h : ofDocument d = .ok b) : b.Indexes d.metadata.items := by
  by_cases hitems : d.HasMalformedItem
  · obtain ⟨before, symbol, hfirst⟩ := exists_isFirst hitems
    obtain ⟨e, he⟩ := hfirst.2.2
    rw [ofDocument_error hfirst he] at h
    cases h
  · obtain ⟨b', hb', hindexes⟩ := ofDocument_ok hitems
    rw [h] at hb'
    cases hb'
    exact hindexes

/-! ## Merging -/

theorem Indexes.merge (hb : b.Indexes xs) (hc : c.Indexes ys) : (b.merge c).Indexes (xs ++ ys) where
  mem_symbols symbol := by
    rw [IndexBuilder.merge, Std.ExtTreeSet.mem_union_iff, hb.mem_symbols, hc.mem_symbols,
      List.mem_append]
  decodes symbol hs := (List.mem_append.mp hs).elim (hb.decodes symbol) (hc.decodes symbol)
  has_iff entry := by
    rw [IndexBuilder.merge, Buckets.has_foldl_add, ← Buckets.has_iff_mem_toList, hb.has_iff,
      hc.has_iff]
    simp only [List.mem_append, or_and_right, exists_or]
  filled := hb.filled.foldl_add fun pair hpair =>
    hc.filled pair.1 pair.2 (Std.ExtTreeMap.mem_toList_iff_getElem?_eq_some.mp hpair)

theorem Indexes.foldl_merge {documents : List Document} {parts : List IndexBuilder}
    (hb : b.Indexes xs)
    (h : List.Forall₂ (fun (d : Document) part => part.Indexes d.metadata.items) documents parts) :
    (parts.foldl IndexBuilder.merge b).Indexes (xs ++ documents.flatMap (·.metadata.items)) := by
  induction h generalizing b xs with
  | nil =>
    rw [List.flatMap_nil, List.append_nil]
    exact hb
  | cons hpart _ ih =>
    rw [List.foldl_cons, List.flatMap_cons, ← List.append_assoc]
    exact ih (hb.merge hpart)

end IndexBuilder
end SymbolCoverage
