import SymbolCoverage.Coverage.Check
import SymbolCoverage.Proofs.Coverage.Accounting
import SymbolCoverage.Proofs.Coverage.References

/-!
The outcome of a check.  A malformed item decides first, then a collision of items,
then a bad entry of a function table, and without any of these there is a report.
Among several of one kind the first one decides, in supply order.
-/

namespace SymbolCoverage

open SymbolCoverage.Symbol

variable {parallel : Bool} {documents : List Document} {index : PresentIndex}

theorem check_of_build_error {failure : Failure}
    (h : PresentIndex.build parallel documents = .error failure) :
    check parallel documents = .error failure := by
  rw [check, h]
  rfl

/-- With an index at hand, the references of all documents decide. -/
theorem check_of_build_ok (h : PresentIndex.build parallel documents = .ok index) :
    check parallel documents =
      (collect (documents.map (Reference.ofDocument index))).map
        fun references => Report.ofReferences references.flatten := by
  rw [check, h]
  show (collect (batch parallel (Reference.ofDocument index) documents)).bind _ = _
  rw [batch_eq_map]
  cases collect (documents.map (Reference.ofDocument index)) with
  | error failure => rfl
  | ok references => rfl

/-- Working on crates side by side changes nothing. -/
theorem check_parallel (parallel parallel' : Bool) (documents : List Document) :
    check parallel documents = check parallel' documents := by
  simp only [check, PresentIndex.build, batch_eq_map]

theorem check_malformed_item (h : ∃ d ∈ documents, d.HasMalformedItem) :
    ∃ before d itemsBefore symbol cause,
      IsFirst Document.HasMalformedItem documents before d ∧
        IsFirst Malformed d.metadata.items itemsBefore symbol ∧ decode symbol = .error cause ∧
          check parallel documents = .error (.malformedSymbol d.shortName cause) := by
  obtain ⟨before, d, itemsBefore, symbol, cause, hd, hs, hcause, hbuild⟩ :=
    PresentIndex.exists_build_malformed h
  exact ⟨before, d, itemsBefore, symbol, cause, hd, hs, hcause, check_of_build_error hbuild⟩

theorem check_bad_entry (h : PresentIndex.build parallel documents = .ok index)
    (hbad : ∃ d ∈ documents, d.HasBadEntry) :
    ∃ before d entriesBefore f failure,
      IsFirst Document.HasBadEntry documents before d ∧
        IsFirst FunctionEntry.Bad d.metadata.functions entriesBefore f ∧
          f.Fails d.shortName entriesBefore.length failure ∧
            check parallel documents = .error failure := by
  obtain ⟨before, d, hd⟩ := exists_isFirst hbad
  obtain ⟨entriesBefore, f, hf⟩ := exists_isFirst hd.2.2
  obtain ⟨failure, hfails⟩ :=
    (FunctionEntry.bad_iff_fails d.shortName entriesBefore.length).mp hf.2.2
  refine ⟨before, d, entriesBefore, f, failure, hd, hf, hfails, ?_⟩
  have herror : Reference.ofDocument index d = .error failure :=
    Reference.ofDocument_error hf hfails
  rw [check_of_build_ok h,
    collect_map_error hd (fun _ => Reference.exists_ofDocument_ok index) herror]
  rfl

theorem check_ok (h : PresentIndex.build parallel documents = .ok index)
    (hgood : ∀ d ∈ documents, ¬ d.HasBadEntry) :
    ∃ report, check parallel documents = .ok report := by
  obtain ⟨references, hcollect⟩ := exists_collect_ok fun d hd =>
    Reference.exists_ofDocument_ok index (hgood d hd)
  rw [check_of_build_ok h, hcollect]
  exact ⟨_, rfl⟩

/-- A check fails by an item, by an entry of a function table, or by its accounting. -/
theorem check_error_cases {failure : Failure} (h : check parallel documents = .error failure) :
    (∃ d ∈ documents, ∃ symbol ∈ d.metadata.items, ∃ cause, decode symbol = .error cause ∧
        failure = .malformedSymbol d.shortName cause) ∨
      (∃ d ∈ documents, ∃ f ∈ d.metadata.functions, ∃ position,
        f.Fails d.shortName position failure) ∨
      ∃ distinct indexed, failure = .integrityViolation distinct indexed := by
  by_cases hitems : ∃ d ∈ documents, d.HasMalformedItem
  · obtain ⟨_, d, _, symbol, cause, hd, hsymbol, hcause, herror⟩ :=
      @check_malformed_item parallel documents hitems
    rw [h] at herror
    cases herror
    exact .inl ⟨d, hd.mem, symbol, hsymbol.mem, cause, hcause, rfl⟩
  · have hgood : ∀ d ∈ documents, ¬ d.HasMalformedItem := fun d hd hbad => hitems ⟨d, hd, hbad⟩
    by_cases hcollides : Collides (allItems documents)
    · have herror := check_of_build_error
        (@PresentIndex.build_collision documents parallel hgood hcollides)
      rw [h] at herror
      cases herror
      exact .inr (.inr ⟨_, _, rfl⟩)
    · obtain ⟨index, hindex, -⟩ := PresentIndex.build_ok parallel hgood hcollides
      by_cases hbad : ∃ d ∈ documents, d.HasBadEntry
      · obtain ⟨_, d, _, f, _, hd, hf, hfails, herror⟩ := check_bad_entry hindex hbad
        rw [h] at herror
        cases herror
        exact .inr (.inl ⟨d, hd.mem, f, hf.mem, _, hfails⟩)
      · have hgood : ∀ d ∈ documents, ¬ d.HasBadEntry := fun d hd hd' => hbad ⟨d, hd, hd'⟩
        obtain ⟨report, hreport⟩ := check_ok hindex hgood
        rw [h] at hreport
        cases hreport

/-! ## When there is a report, and when items collide -/

/-- A check makes a report exactly if all items and entries are good and no two items
collide. -/
theorem exists_check_ok_iff :
    (∃ report, check parallel documents = .ok report) ↔
      (∀ d ∈ documents, ¬ d.HasMalformedItem) ∧ ¬ Collides (allItems documents) ∧
        ∀ d ∈ documents, ¬ d.HasBadEntry := by
  constructor
  · intro h
    obtain ⟨report, hreport⟩ := h
    have hnoerror : ∀ failure, ¬ check parallel documents = .error failure := by
      intro failure herror
      rw [hreport] at herror
      cases herror
    have hitems : ∀ d ∈ documents, ¬ d.HasMalformedItem := by
      intro d hd hmalformed
      obtain ⟨_, _, _, _, _, -, -, -, herror⟩ :=
        @check_malformed_item parallel documents ⟨d, hd, hmalformed⟩
      exact hnoerror _ herror
    have hdistinct : ¬ Collides (allItems documents) := fun hcollides =>
      hnoerror _ (check_of_build_error (PresentIndex.build_collision hitems hcollides))
    obtain ⟨index, hindex, -⟩ := PresentIndex.build_ok parallel hitems hdistinct
    refine ⟨hitems, hdistinct, fun d hd hbad => ?_⟩
    obtain ⟨_, _, _, _, _, -, -, -, herror⟩ := check_bad_entry hindex ⟨d, hd, hbad⟩
    exact hnoerror _ herror
  · intro h
    obtain ⟨hitems, hdistinct, hgood⟩ := h
    obtain ⟨index, hindex, -⟩ := PresentIndex.build_ok parallel hitems hdistinct
    exact check_ok hindex hgood

theorem FunctionEntry.Fails.ne_integrityViolation {crate : String} {position : Nat}
    {f : FunctionEntry} {failure : Failure} (h : f.Fails crate position failure)
    (distinct indexed : Nat) : failure ≠ .integrityViolation distinct indexed := by
  cases h with
  | faulty => nofun
  | malformed => nofun

/-- The accounting check fails exactly if all items decode and two of them collide. -/
theorem check_eq_integrityViolation_iff {distinct indexed : Nat} :
    check parallel documents = .error (.integrityViolation distinct indexed) ↔
      (∀ d ∈ documents, ¬ d.HasMalformedItem) ∧ Collides (allItems documents) ∧
        distinct = distinctSymbols (allItems documents) ∧
          indexed = distinctEntries (allItems documents) := by
  constructor
  · intro h
    have hitems : ∀ d ∈ documents, ¬ d.HasMalformedItem := by
      intro d hd hmalformed
      obtain ⟨_, _, _, _, _, -, -, -, herror⟩ :=
        @check_malformed_item parallel documents ⟨d, hd, hmalformed⟩
      rw [h] at herror
      cases herror
    by_cases hcollides : Collides (allItems documents)
    · have herror := check_of_build_error
        (@PresentIndex.build_collision documents parallel hitems hcollides)
      rw [h] at herror
      cases herror
      exact ⟨hitems, hcollides, rfl, rfl⟩
    · obtain ⟨index, hindex, -⟩ := PresentIndex.build_ok parallel hitems hcollides
      by_cases hbad : ∃ d ∈ documents, d.HasBadEntry
      · obtain ⟨_, _, _, _, failure, -, -, hfails, herror⟩ := check_bad_entry hindex hbad
        rw [h] at herror
        cases herror
        exact absurd rfl (hfails.ne_integrityViolation _ _)
      · have hgood : ∀ d ∈ documents, ¬ d.HasBadEntry := fun d hd hd' => hbad ⟨d, hd, hd'⟩
        obtain ⟨report, hreport⟩ := check_ok hindex hgood
        rw [h] at hreport
        cases hreport
  · intro h
    obtain ⟨hitems, hcollides, rfl, rfl⟩ := h
    exact check_of_build_error (PresentIndex.build_collision hitems hcollides)

/-- The report of a check, by the text that is evaluated for it. -/
theorem exists_report_of_text {text : String}
    (h : (check parallel documents).toOption.map Report.text = some text) :
    ∃ report, check parallel documents = .ok report ∧ report.text = text := by
  obtain ⟨report, hcheck, htext⟩ := Option.map_eq_some_iff.mp h
  exact ⟨report, toOption_eq_some.mp hcheck, htext⟩

/-- Which of several failures a check returns, side by side or not.  The position that
a failure carries counts all entries before it, those that link nothing included. -/
theorem check_outcome (parallel : Bool) (documents : List Document) :
    ((∃ d ∈ documents, d.HasMalformedItem) →
      ∃ before d itemsBefore symbol cause,
        IsFirst Document.HasMalformedItem documents before d ∧
          IsFirst Malformed d.metadata.items itemsBefore symbol ∧ decode symbol = .error cause ∧
            check parallel documents = .error (.malformedSymbol d.shortName cause)) ∧
    ((∀ d ∈ documents, ¬ d.HasMalformedItem) → Collides (allItems documents) →
      check parallel documents =
        .error (.integrityViolation (distinctSymbols (allItems documents))
          (distinctEntries (allItems documents)))) ∧
    ((∀ d ∈ documents, ¬ d.HasMalformedItem) → ¬ Collides (allItems documents) →
      (∃ d ∈ documents, d.HasBadEntry) →
        ∃ before d entriesBefore f failure,
          IsFirst Document.HasBadEntry documents before d ∧
            IsFirst FunctionEntry.Bad d.metadata.functions entriesBefore f ∧
              f.Fails d.shortName entriesBefore.length failure ∧
                check parallel documents = .error failure) ∧
    ((∀ d ∈ documents, ¬ d.HasMalformedItem) → ¬ Collides (allItems documents) →
      (∀ d ∈ documents, ¬ d.HasBadEntry) → ∃ report, check parallel documents = .ok report) := by
  refine ⟨check_malformed_item, ?_, ?_, ?_⟩
  · intro hitems hcollides
    exact check_of_build_error (PresentIndex.build_collision hitems hcollides)
  · intro hitems hdistinct hbad
    obtain ⟨index, hindex, -⟩ := PresentIndex.build_ok parallel hitems hdistinct
    exact check_bad_entry hindex hbad
  · intro hitems hdistinct hgood
    obtain ⟨index, hindex, -⟩ := PresentIndex.build_ok parallel hitems hdistinct
    exact check_ok hindex hgood

end SymbolCoverage
