import SymbolCoverage.Proofs.Coverage.Agreement
import SymbolCoverage.Proofs.Coverage.Content
import SymbolCoverage.Proofs.Coverage.Merging

/-!
The order in which documents are supplied.  It decides which of several failures is
returned and in which order the crates of a key are listed, but neither whether there is
a report nor what else it lists.
-/

namespace SymbolCoverage

open SymbolCoverage.Symbol

variable {documents documents' : List Document} {parallel parallel' : Bool}
  {report report' : Report}

section SameMembers

variable (h : ∀ d, d ∈ documents ↔ d ∈ documents')

include h

theorem present_congr (entry : Entry) : Present documents entry ↔ Present documents' entry := by
  unfold Present
  simp only [h]

theorem misses_congr (d : Document) (entry : Entry) :
    d.Misses documents entry ↔ d.Misses documents' entry := by
  unfold Document.Misses
  rw [present_congr h entry]

theorem exists_check_ok_congr :
    (∃ report, check parallel documents = .ok report) ↔
      ∃ report, check parallel' documents' = .ok report := by
  rw [exists_check_ok_iff, exists_check_ok_iff, collides_congr (mem_allItems_congr h)]
  simp only [h]

theorem check_eq_integrityViolation_congr (distinct indexed : Nat) :
    check parallel documents = .error (.integrityViolation distinct indexed) ↔
      check parallel' documents' = .error (.integrityViolation distinct indexed) := by
  have hitems := mem_allItems_congr h
  rw [check_eq_integrityViolation_iff, check_eq_integrityViolation_iff, collides_congr hitems,
    distinctSymbols_congr hitems, distinctEntries_congr hitems]
  simp only [h]

/-- Both reports are made from references to the same names, keys and hashes. -/
theorem agreesWith_of_check (hreport : check parallel documents = .ok report)
    (hreport' : check parallel' documents' = .ok report') : report.AgreesWith report' := by
  obtain ⟨index, lists, hindex, hlists, rfl⟩ := check_eq_ok hreport
  obtain ⟨index', lists', hindex', hlists', rfl⟩ := check_eq_ok hreport'
  apply Report.ofReferences_agreesWith
  · intro name
    rw [foreign_mem_flatten_iff hlists, foreign_mem_flatten_iff hlists']
    simp only [h]
  · intro key hash source
    rw [missing_mem_flatten_iff hindex hlists, missing_mem_flatten_iff hindex' hlists']
    simp only [h, misses_congr h]

end SameMembers

/-- Documents in another order have a report if the documents have one, and the two
agree.  Their accounting check fails with the same counts or not at all. -/
theorem check_perm (h : documents.Perm documents') (parallel parallel' : Bool) :
    ((∃ report, check parallel documents = .ok report) ↔
      ∃ report, check parallel' documents' = .ok report) ∧
    (∀ report report', check parallel documents = .ok report →
      check parallel' documents' = .ok report' → report.AgreesWith report') ∧
    ∀ distinct indexed,
      check parallel documents = .error (.integrityViolation distinct indexed) ↔
        check parallel' documents' = .error (.integrityViolation distinct indexed) := by
  have hmem : ∀ d, d ∈ documents ↔ d ∈ documents' := fun d => h.mem_iff
  exact ⟨exists_check_ok_congr hmem, fun _ _ => agreesWith_of_check hmem,
    check_eq_integrityViolation_congr hmem⟩

/-- Two documents of one crate, with one of another between them. -/
def suppliedDocuments : List Document :=
  [⟨⟨"a.smir.json"⟩, .ofNames ["_ZN3bar17h0000000000000000E"]
      ["memcpy", "_ZN3foo17hffffffffffffffffE"]⟩,
    ⟨⟨"b.smir.json"⟩, .ofNames [] ["_ZN3foo17heeeeeeeeeeeeeeeeE", "_ZN3bar17h0000000000000000E"]⟩,
    ⟨⟨"a.smir.json"⟩, .ofNames [] ["_ZNopen", "_ZN3foo17h0123456789abcdefE"]⟩]

/-- The crates of a key change places.  A collision is found with the same counts. -/
theorem check_perm_suppliedDocuments :
    suppliedDocuments.Perm (suppliedDocuments.rotateLeft 1) ∧
      (∃ report report', check true suppliedDocuments = .ok report ∧
        check false (suppliedDocuments.rotateLeft 1) = .ok report' ∧
        report.text = "memcpy\na::foo->['0123456789abcdef', 'ffffffffffffffff']\n" ++
          "b::foo->['eeeeeeeeeeeeeeee']\na::_ZNopen->[]\n" ∧
        report'.text = "memcpy\nb::foo->['eeeeeeeeeeeeeeee']\n" ++
          "a::foo->['0123456789abcdef', 'ffffffffffffffff']\na::_ZNopen->[]\n" ∧
        report.AgreesWith report') ∧
      [guardedFooCrate, fooCrate].Perm [fooCrate, guardedFooCrate] ∧
      check true [guardedFooCrate, fooCrate] = .error (.integrityViolation 3 2) ∧
      check false [fooCrate, guardedFooCrate] = .error (.integrityViolation 3 2) := by
  have hrotated : suppliedDocuments.Perm (suppliedDocuments.rotateLeft 1) :=
    @List.perm_append_comm _ (suppliedDocuments.take 1) (suppliedDocuments.drop 1)
  have hswapped : [guardedFooCrate, fooCrate].Perm [fooCrate, guardedFooCrate] := .swap ..
  obtain ⟨report, hreport, htext⟩ := @exists_report_of_text true suppliedDocuments
    ("memcpy\na::foo->['0123456789abcdef', 'ffffffffffffffff']\n" ++
      "b::foo->['eeeeeeeeeeeeeeee']\na::_ZNopen->[]\n") (by decide +kernel)
  obtain ⟨report', hreport', htext'⟩ := @exists_report_of_text false
    (suppliedDocuments.rotateLeft 1)
    ("memcpy\nb::foo->['eeeeeeeeeeeeeeee']\n" ++
      "a::foo->['0123456789abcdef', 'ffffffffffffffff']\na::_ZNopen->[]\n") (by decide +kernel)
  have hcollision : check true [guardedFooCrate, fooCrate] = .error (.integrityViolation 3 2) :=
    failure?_eq_some.mp (by decide +kernel)
  obtain ⟨-, hagrees, -⟩ := check_perm hrotated true false
  obtain ⟨-, -, hcounts⟩ := check_perm hswapped true false
  have hreports := hagrees report report' hreport hreport'
  exact ⟨hrotated, ⟨report, report', hreport, hreport', htext, htext', hreports⟩,
    hswapped, hcollision, (hcounts 3 2).mp hcollision⟩

end SymbolCoverage
