import SymbolCoverage.Metadata.Writing
import SymbolCoverage.Proofs.Coverage.Outcome
import SymbolCoverage.Proofs.Coverage.Reachable

/-!
Items that do not open as structured symbols.  They are kept verbatim, so they are never
malformed and share their entry with no other symbol, and no name that is looked up has
such an entry.  A check of documents without these items therefore ends in the same
report or failure, save that the accounting check counts them among its symbols and among
its entries.
-/

namespace SymbolCoverage

open SymbolCoverage.Symbol

/-- The document with those of its items that open as structured symbols. -/
def Document.opened (d : Document) : Document :=
  { d with metadata := { d.metadata with items := d.metadata.items.filter isOpened } }

namespace Symbol

variable {s t symbol : String} {entry : Entry}

theorem entryOf_of_not_opened (h : ¬ isOpened symbol = true) :
    entryOf symbol = .ok (.raw symbol, none) := by
  have hverbatim : Envelope.ofChars? symbol.toList = none := if_neg h
  have hdecode : decode symbol = .ok (.verbatim symbol) := by rw [decode, hverbatim]
  exact entryOf_eq_ok.mpr ⟨_, hdecode, rfl⟩

/-- A symbol that does not open as a structured one shares its entry with no other. -/
theorem eq_of_entryOf_of_not_opened (h : ¬ isOpened s = true) (hs : entryOf s = .ok entry)
    (ht : entryOf t = .ok entry) : s = t := by
  rw [entryOf_of_not_opened h, Except.ok.injEq] at hs
  rw [← hs] at ht
  exact text_of_raw ht

end Symbol

section Symbols

variable {symbols : List String}

theorem collides_filter_isOpened_iff :
    Collides (symbols.filter isOpened) ↔ Collides symbols := by
  constructor
  · intro h
    obtain ⟨s, hs, t, ht, hne, hentry⟩ := h
    exact ⟨s, List.mem_of_mem_filter hs, t, List.mem_of_mem_filter ht, hne, hentry⟩
  · intro h
    obtain ⟨s, hs, t, ht, hne, entry, hsentry, htentry⟩ := h
    have hsopened : isOpened s = true := by
      by_contra hnot
      exact hne (eq_of_entryOf_of_not_opened hnot hsentry htentry)
    have htopened : isOpened t = true := by
      by_contra hnot
      exact hne (eq_of_entryOf_of_not_opened hnot htentry hsentry).symm
    exact ⟨s, List.mem_filter.mpr ⟨hs, hsopened⟩, t, List.mem_filter.mpr ⟨ht, htopened⟩, hne,
      entry, hsentry, htentry⟩

/-- The symbols that do not open as structured ones. -/
def unopened (symbols : List String) : List String := symbols.filter fun s => !isOpened s

theorem distinctSymbols_eq_add (symbols : List String) :
    distinctSymbols symbols =
      distinctSymbols (symbols.filter isOpened) + distinctSymbols (unopened symbols) := by
  have hnot : (unopened symbols).toFinset =
      symbols.toFinset.filter fun s => ¬ isOpened s = true := by
    ext s
    simp [unopened]
  rw [distinctSymbols, distinctSymbols, distinctSymbols, hnot, List.toFinset_filter,
    Finset.card_filter_add_card_filter_not]

/-- Each symbol that does not open as a structured one has an entry of its own. -/
theorem distinctEntries_eq_add (symbols : List String) :
    distinctEntries symbols =
      distinctEntries (symbols.filter isOpened) + distinctSymbols (unopened symbols) := by
  let rawEntry (s : String) : Entry := (.raw s, none)
  have hmem : ∀ s, s ∈ unopened symbols ↔ s ∈ symbols ∧ ¬ isOpened s = true := by
    intro s
    simp [unopened]
  have hsplit : (entriesOf symbols).toFinset =
      (entriesOf (symbols.filter isOpened)).toFinset ∪
        (unopened symbols).toFinset.image rawEntry := by
    ext entry
    simp only [List.mem_toFinset, Finset.mem_union, Finset.mem_image, mem_entriesOf, hmem,
      List.mem_filter]
    constructor
    · intro h
      obtain ⟨s, hs, hentry⟩ := h
      by_cases hopened : isOpened s = true
      · exact .inl ⟨s, ⟨hs, hopened⟩, hentry⟩
      · rw [entryOf_of_not_opened hopened, Except.ok.injEq] at hentry
        exact .inr ⟨s, ⟨hs, hopened⟩, hentry⟩
    · intro h
      rcases h with ⟨s, ⟨hs, -⟩, hentry⟩ | ⟨s, ⟨hs, hopened⟩, rfl⟩
      · exact ⟨s, hs, hentry⟩
      · exact ⟨s, hs, entryOf_of_not_opened hopened⟩
  have hdisjoint : Disjoint (entriesOf (symbols.filter isOpened)).toFinset
      ((unopened symbols).toFinset.image rawEntry) := by
    rw [Finset.disjoint_left]
    intro entry hentry himage
    simp only [List.mem_toFinset, mem_entriesOf, List.mem_filter] at hentry
    simp only [Finset.mem_image, List.mem_toFinset, hmem] at himage
    obtain ⟨s, ⟨-, hopened⟩, hsentry⟩ := hentry
    obtain ⟨t, ⟨-, hnot⟩, rfl⟩ := himage
    have heq := eq_of_entryOf_of_not_opened hnot (entryOf_of_not_opened hnot) hsentry
    exact hnot (heq ▸ hopened)
  have hinjective : Function.Injective rawEntry := by
    intro s t heq
    exact Key.raw.inj (congrArg Prod.fst heq)
  rw [distinctEntries, hsplit, Finset.card_union_of_disjoint hdisjoint,
    Finset.card_image_of_injective _ hinjective]
  rfl

end Symbols

/-! ## Documents -/

variable {documents documents' : List Document} {parallel : Bool} {d : Document}

theorem allItems_map_opened (documents : List Document) :
    allItems (documents.map Document.opened) = (allItems documents).filter isOpened := by
  rw [allItems, allItems, List.flatMap_map, List.filter_flatMap]
  rfl

theorem Document.opened_hasMalformedItem_iff : d.opened.HasMalformedItem ↔ d.HasMalformedItem := by
  constructor
  · intro h
    obtain ⟨symbol, hs, hmalformed⟩ := h
    exact ⟨symbol, List.mem_of_mem_filter hs, hmalformed⟩
  · intro h
    obtain ⟨symbol, hs, hmalformed⟩ := h
    exact ⟨symbol, List.mem_filter.mpr ⟨hs, isOpened_of_malformed hmalformed⟩, hmalformed⟩

theorem not_malformed_of_mem_map_opened (h : ∀ d ∈ documents, ¬ d.HasMalformedItem) :
    ∀ d ∈ documents.map Document.opened, ¬ d.HasMalformedItem := by
  rw [List.forall_mem_map]
  exact fun d hd hmalformed => h d hd (Document.opened_hasMalformedItem_iff.mp hmalformed)

theorem check_opened_of_malformed (h : ∃ d ∈ documents, d.HasMalformedItem) :
    check parallel documents = check parallel (documents.map Document.opened) := by
  obtain ⟨before, d, itemsBefore, symbol, cause, hd, hs, hcause, hbuild⟩ :=
    @PresentIndex.exists_build_malformed documents parallel h
  have hd' := hd.map fun _ => Document.opened_hasMalformedItem_iff
  have hs' := hs.filter fun _ => isOpened_of_malformed
  rw [check_of_build_error hbuild,
    check_of_build_error (PresentIndex.build_malformed hd' hs' hcause)]
  rfl

/-- A name that is looked up is present among the items that open as it does, or not at
all. -/
theorem present_opened_iff {name : String} {entry : Entry} (hname : isOpened name = true)
    (hentry : entryOf name = .ok entry) :
    Present (documents.map Document.opened) entry ↔ Present documents entry := by
  rw [← exists_mem_allItems, ← exists_mem_allItems, allItems_map_opened]
  constructor
  · intro h
    obtain ⟨symbol, hs, hsentry⟩ := h
    exact ⟨symbol, List.mem_of_mem_filter hs, hsentry⟩
  · intro h
    obtain ⟨symbol, hs, hsentry⟩ := h
    refine ⟨symbol, List.mem_filter.mpr ⟨hs, ?_⟩, hsentry⟩
    by_contra hnot
    exact hnot (eq_of_entryOf_of_not_opened hnot hsentry hentry ▸ hname)

namespace Reference

variable {index index' : PresentIndex} {source : CrateId}

theorem classify_congr {name : String}
    (h : isOpened name = true → ∀ entry, entryOf name = .ok entry →
      index.contains entry.1 entry.2 = index'.contains entry.1 entry.2) :
    classify index source name = classify index' source name := by
  by_cases hname : isOpened name = true
  · rw [classify_of_opened hname, classify_of_opened hname]
    cases hentry : entryOf name with
    | error e => rfl
    | ok entry =>
      show Except.ok (if _ then _ else _) = Except.ok (if _ then _ else _)
      rw [h hname entry hentry]
  · rw [classify_of_not_opened hname, classify_of_not_opened hname]

theorem classifyAll_congr (h : ∀ name, classify index source name = classify index' source name)
    (names : List (Except EntryFault String)) :
    classifyAll index source names = classifyAll index' source names := by
  induction names with
  | nil => rfl
  | cons x xs ih =>
    cases x with
    | error fault => rfl
    | ok name =>
      rw [classifyAll, classifyAll, h name]
      cases classify index' source name with
      | error e => rfl
      | ok reference =>
        cases reference with
        | covered => exact ih
        | _ => exact congrArg (Except.map _) ih

end Reference

theorem check_opened_of_not_collides (hitems : ∀ d ∈ documents, ¬ d.HasMalformedItem)
    (hdistinct : ¬ Collides (allItems documents)) :
    check parallel documents = check parallel (documents.map Document.opened) := by
  have hitems' := not_malformed_of_mem_map_opened hitems
  have hdistinct' : ¬ Collides (allItems (documents.map Document.opened)) := by
    rwa [allItems_map_opened, collides_filter_isOpened_iff]
  obtain ⟨index, hindex, hcontains⟩ := PresentIndex.build_ok parallel hitems hdistinct
  obtain ⟨index', hindex', hcontains'⟩ := PresentIndex.build_ok parallel hitems' hdistinct'
  have hclassify : ∀ source name,
      Reference.classify index source name = Reference.classify index' source name := by
    intro source name
    refine Reference.classify_congr fun hname entry hentry => ?_
    rw [Bool.eq_iff_iff, hcontains, hcontains']
    exact (present_opened_iff hname hentry).symm
  have hreferences : ∀ d, Reference.ofDocument index d = Reference.ofDocument index' d.opened :=
    fun d => Reference.classifyAll_congr (hclassify d.id) d.metadata.linkedNames
  rw [check_of_build_ok hindex, check_of_build_ok hindex', List.map_map]
  rw [List.map_congr_left fun d _ => hreferences d]
  rfl

/-- Without the items that do not open, a check ends as it does with them, or both fail
the accounting check, and each of the items counts as one symbol and one entry. -/
theorem check_opened (parallel : Bool) (documents : List Document) :
    check parallel documents = check parallel (documents.map Document.opened) ∨
      ∃ distinct indexed shift,
        check parallel (documents.map Document.opened) =
          .error (.integrityViolation distinct indexed) ∧
        check parallel documents =
          .error (.integrityViolation (distinct + shift) (indexed + shift)) := by
  by_cases hitems : ∃ d ∈ documents, d.HasMalformedItem
  · exact .inl (check_opened_of_malformed hitems)
  · have hgood : ∀ d ∈ documents, ¬ d.HasMalformedItem := fun d hd hbad => hitems ⟨d, hd, hbad⟩
    by_cases hcollides : Collides (allItems documents)
    · have hcollides' : Collides (allItems (documents.map Document.opened)) := by
        rwa [allItems_map_opened, collides_filter_isOpened_iff]
      have hgood' := not_malformed_of_mem_map_opened hgood
      refine .inr ⟨_, _, distinctSymbols (unopened (allItems documents)),
        check_eq_integrityViolation_iff.mpr ⟨hgood', hcollides', rfl, rfl⟩,
        check_eq_integrityViolation_iff.mpr ⟨hgood, hcollides, ?_, ?_⟩⟩
      · rw [allItems_map_opened, ← distinctSymbols_eq_add]
      · rw [allItems_map_opened, ← distinctEntries_eq_add]
    · exact .inl (check_opened_of_not_collides hgood hcollides)

/-! ## Two runs -/

/-- The failures are the same, or the accounting check fails in both and the difference
between its two counts is the same. -/
def Failure.SameUpToShift (failure failure' : Failure) : Prop :=
  failure = failure' ∨
    ∃ (distinct indexed distinct' indexed' : Nat) (shift : Int),
      failure = .integrityViolation distinct indexed ∧
        failure' = .integrityViolation distinct' indexed' ∧
          (distinct' : Int) = distinct + shift ∧ (indexed' : Int) = indexed + shift

namespace Failure.SameUpToShift

variable {failure failure' failure'' : Failure}

theorem symm (h : failure.SameUpToShift failure') : failure'.SameUpToShift failure := by
  rcases h with rfl | ⟨distinct, indexed, distinct', indexed', shift, h, h', hd, hi⟩
  · exact .inl rfl
  · exact .inr ⟨distinct', indexed', distinct, indexed, -shift, h', h, by omega, by omega⟩

theorem trans (h : failure.SameUpToShift failure') (h' : failure'.SameUpToShift failure'') :
    failure.SameUpToShift failure'' := by
  rcases h with rfl | ⟨distinct, indexed, distinct', indexed', shift, h₁, rfl, hd, hi⟩
  · exact h'
  · rcases h' with rfl | ⟨_, _, distinct'', indexed'', shift', heq, h₂, hd', hi'⟩
    · exact .inr ⟨distinct, indexed, distinct', indexed', shift, h₁, rfl, hd, hi⟩
    · cases heq
      exact .inr ⟨distinct, indexed, distinct'', indexed'', shift + shift', h₁, h₂, by omega,
        by omega⟩

end Failure.SameUpToShift

theorem check_opened_eq_ok_iff (parallel : Bool) (documents : List Document) (report : Report) :
    check parallel documents = .ok report ↔
      check parallel (documents.map Document.opened) = .ok report := by
  rcases check_opened parallel documents with h | ⟨distinct, indexed, shift, hopened, hall⟩
  · rw [h]
  · rw [hopened, hall]
    constructor
    · nofun
    · nofun

theorem exists_check_opened_error {failure : Failure}
    (h : check parallel documents = .error failure) :
    ∃ failure', check parallel (documents.map Document.opened) = .error failure' ∧
      failure.SameUpToShift failure' := by
  rcases check_opened parallel documents with hsame | ⟨distinct, indexed, shift, hopened, hall⟩
  · exact ⟨failure, hsame ▸ h, .inl rfl⟩
  · rw [hall, Except.error.injEq] at h
    exact ⟨_, hopened, .inr ⟨_, _, _, _, -shift, h.symm, rfl, by omega, by omega⟩⟩

/-- The documents are of one crate, link the same functions, and differ at most in items
that do not open as structured symbols. -/
structure Document.SameOpened (d d' : Document) : Prop where
  id : d.id = d'.id
  functions : d.metadata.functions = d'.metadata.functions
  items : d.metadata.items.filter isOpened = d'.metadata.items.filter isOpened

theorem Document.SameOpened.opened_eq {d d' : Document} (h : d.SameOpened d') :
    d.opened = d'.opened := by
  show Document.mk d.id ⟨d.metadata.items.filter isOpened, d.metadata.functions⟩ =
    ⟨d'.id, ⟨d'.metadata.items.filter isOpened, d'.metadata.functions⟩⟩
  rw [h.id, h.functions, h.items]

theorem map_opened_eq (h : List.Forall₂ Document.SameOpened documents documents') :
    documents.map Document.opened = documents'.map Document.opened := by
  induction h with
  | nil => rfl
  | cons hd _ ih => rw [List.map_cons, List.map_cons, hd.opened_eq, ih]

/-- Items that do not open as structured symbols are irrelevant: whichever of them the
documents have, the report is the same, and so is the failure up to the counts of the
accounting check. -/
theorem check_ignores_unopened (h : List.Forall₂ Document.SameOpened documents documents')
    (parallel parallel' : Bool) :
    (∀ report, check parallel documents = .ok report ↔ check parallel' documents' = .ok report) ∧
      ∀ failure failure', check parallel documents = .error failure →
        check parallel' documents' = .error failure' → failure.SameUpToShift failure' := by
  have hopened : check parallel (documents.map Document.opened) =
      check parallel' (documents'.map Document.opened) := by
    rw [map_opened_eq h, check_parallel]
  constructor
  · intro report
    rw [check_opened_eq_ok_iff, hopened, ← check_opened_eq_ok_iff]
  · intro failure failure' hfailure hfailure'
    obtain ⟨core, hcore, hsame⟩ := exists_check_opened_error hfailure
    obtain ⟨core', hcore', hsame'⟩ := exists_check_opened_error hfailure'
    have heq : core = core' := by
      rw [hopened, hcore'] at hcore
      exact (Except.error.inj hcore).symm
    exact hsame.trans (heq ▸ hsame'.symm)

/-- Two crates, with further items of each. -/
def linkedCrates (items items' : List String) : List Document :=
  [⟨⟨"a.smir.json"⟩, .ofNames ("_ZN3foo17h0000000000000000E" :: items)
      ["memcpy", "_ZN3bar17h0123456789abcdefE"]⟩,
    ⟨⟨"b.smir.json"⟩, .ofNames items' ["start", "_ZN3foo17h0000000000000000E"]⟩]

/-- Plain names moved, repeated and added: the report stays, and a collision is found with
shifted counts. -/
theorem check_ignores_unopened_linkedCrates :
    List.Forall₂ Document.SameOpened (linkedCrates ["memcpy"] [])
        (linkedCrates ["start", "start"] ["memcpy", "_Z3foo"]) ∧
      (∃ report, check true (linkedCrates ["memcpy"] []) = .ok report ∧
        check false (linkedCrates ["start", "start"] ["memcpy", "_Z3foo"]) = .ok report ∧
        report.text = "memcpy\nstart\na::bar->['0123456789abcdef']\n") ∧
      List.Forall₂ Document.SameOpened
        (linkedCrates ["_ZN4_foo17h0000000000000000E"] ["start"])
        (linkedCrates ["bar", "_ZN4_foo17h0000000000000000E", "memcpy"] ["bar"]) ∧
      check true (linkedCrates ["_ZN4_foo17h0000000000000000E"] ["start"]) =
        .error (.integrityViolation 3 2) ∧
      check false (linkedCrates ["bar", "_ZN4_foo17h0000000000000000E", "memcpy"] ["bar"]) =
        .error (.integrityViolation 4 3) ∧
      (Failure.integrityViolation 3 2).SameUpToShift (.integrityViolation 4 3) := by
  have hmoved : List.Forall₂ Document.SameOpened (linkedCrates ["memcpy"] [])
      (linkedCrates ["start", "start"] ["memcpy", "_Z3foo"]) :=
    .cons ⟨rfl, rfl, by decide⟩ (.cons ⟨rfl, rfl, by decide⟩ .nil)
  have hcolliding : List.Forall₂ Document.SameOpened
      (linkedCrates ["_ZN4_foo17h0000000000000000E"] ["start"])
      (linkedCrates ["bar", "_ZN4_foo17h0000000000000000E", "memcpy"] ["bar"]) :=
    .cons ⟨rfl, rfl, by decide⟩ (.cons ⟨rfl, rfl, by decide⟩ .nil)
  obtain ⟨report, hreport, htext⟩ := @exists_report_of_text true (linkedCrates ["memcpy"] [])
    "memcpy\nstart\na::bar->['0123456789abcdef']\n" (by decide +kernel)
  have hfailure : check true (linkedCrates ["_ZN4_foo17h0000000000000000E"] ["start"]) =
      .error (.integrityViolation 3 2) := failure?_eq_some.mp (by decide +kernel)
  have hfailure' : check false
      (linkedCrates ["bar", "_ZN4_foo17h0000000000000000E", "memcpy"] ["bar"]) =
      .error (.integrityViolation 4 3) := failure?_eq_some.mp (by decide +kernel)
  obtain ⟨hsame, -⟩ := check_ignores_unopened hmoved true false
  obtain ⟨-, hshifted⟩ := check_ignores_unopened hcolliding true false
  exact ⟨hmoved, ⟨report, hreport, (hsame report).mp hreport, htext⟩, hcolliding, hfailure,
    hfailure', hshifted _ _ hfailure hfailure'⟩

end SymbolCoverage
