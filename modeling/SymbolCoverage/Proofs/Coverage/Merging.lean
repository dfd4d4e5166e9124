import SymbolCoverage.Proofs.Coverage.Accounting

/-!
Building in parts.  A plan says which documents go into which builder, and how the
builders are merged.  All plans for the same documents end in the same result as one
builder that gets all items one by one, because merging puts lists of symbols together
and neither their order nor their repetition matters.
-/

namespace SymbolCoverage

open SymbolCoverage.Symbol

/-- Documents for one builder, which gets them one after the other, or two plans whose
builders are merged. -/
inductive BuildPlan
  | part (documents : List Document)
  | merge (left right : BuildPlan)

namespace IndexBuilder

/-- Adds documents up to the first one with a malformed item. -/
def extendAll (b : IndexBuilder) : List Document → Except Failure IndexBuilder
  | [] => .ok b
  | d :: rest =>
    match b.extend d with
    | (b', none) => b'.extendAll rest
    | (_, some failure) => .error failure

theorem Indexes.extendAll_ok {b : IndexBuilder} {xs : List String} {documents : List Document}
    (h : b.Indexes xs) (hgood : ∀ d ∈ documents, ¬ d.HasMalformedItem) :
    ∃ b', b.extendAll documents = .ok b' ∧ b'.Indexes (xs ++ allItems documents) := by
  induction documents generalizing b xs with
  | nil => exact ⟨b, rfl, by rwa [allItems, List.flatMap_nil, List.append_nil]⟩
  | cons d rest ih =>
    rw [List.forall_mem_cons] at hgood
    obtain ⟨b₁, hb₁, hindexes₁⟩ := h.extend_ok hgood.1
    obtain ⟨b₂, hb₂, hindexes₂⟩ := ih hindexes₁ hgood.2
    rw [List.append_assoc] at hindexes₂
    refine ⟨b₂, ?_, hindexes₂⟩
    rw [extendAll, hb₁]
    exact hb₂

end IndexBuilder

namespace BuildPlan

/-- The documents of a plan, as often as they are added. -/
def documents : BuildPlan → List Document
  | part documents => documents
  | merge left right => left.documents ++ right.documents

/-- The builder that a plan ends in, or the failure that it meets first. -/
def run : BuildPlan → Except Failure IndexBuilder
  | part documents => IndexBuilder.empty.extendAll documents
  | merge left right =>
    match left.run with
    | .error failure => .error failure
    | .ok b => right.run.map b.merge

theorem run_ok {plan : BuildPlan} (h : ∀ d ∈ plan.documents, ¬ d.HasMalformedItem) :
    ∃ b, plan.run = .ok b ∧ b.Indexes (allItems plan.documents) := by
  induction plan with
  | part documents => exact IndexBuilder.indexes_empty.extendAll_ok h
  | merge left right ihl ihr =>
    rw [documents, List.forall_mem_append] at h
    obtain ⟨b, hb, hindexesb⟩ := ihl h.1
    obtain ⟨c, hc, hindexesc⟩ := ihr h.2
    refine ⟨b.merge c, ?_, ?_⟩
    · rw [run, hb, hc]
      rfl
    · rw [documents, allItems, List.flatMap_append]
      exact hindexesb.merge hindexesc

end BuildPlan

variable {documents documents' : List Document}

theorem mem_allItems_congr (h : ∀ d, d ∈ documents ↔ d ∈ documents') (symbol : String) :
    symbol ∈ allItems documents ↔ symbol ∈ allItems documents' := by
  simp only [allItems, List.mem_flatMap, h]

/-- Where all items decode, every plan that adds each document at least once, and
building the index from the documents in any order, side by side or not, ends as a
single builder does that gets the items one by one. -/
theorem plans_finish_alike (h : ∀ d ∈ documents, ¬ d.HasMalformedItem) :
    ∃ single, IndexBuilder.empty.insertAll (allItems documents) = (single, none) ∧
      (∀ plan : BuildPlan, (∀ d, d ∈ plan.documents ↔ d ∈ documents) →
        ∃ b, plan.run = .ok b ∧ b.finish = single.finish) ∧
      ∀ (parallel : Bool) (permuted : List Document), permuted.Perm documents →
        PresentIndex.build parallel permuted = single.finish := by
  have hitems : ∀ symbol ∈ allItems documents, ¬ Malformed symbol := by
    intro symbol hs hmalformed
    obtain ⟨d, hd, hmem⟩ := List.mem_flatMap.mp hs
    exact h d hd ⟨symbol, hmem, hmalformed⟩
  obtain ⟨single, hsingle, hindexes⟩ := IndexBuilder.indexes_empty.insertAll_ok hitems
  rw [List.nil_append] at hindexes
  refine ⟨single, hsingle, ?_, ?_⟩
  · intro plan hplan
    obtain ⟨b, hb, hindexesb⟩ := plan.run_ok fun d hd => h d ((hplan d).mp hd)
    exact ⟨b, hb, by rw [hindexesb.unique hindexes (mem_allItems_congr hplan)]⟩
  · intro parallel permuted hperm
    obtain ⟨b, hindexesb, hbuild⟩ :=
      PresentIndex.build_eq_finish parallel fun d hd => h d (hperm.mem_iff.mp hd)
    rw [hbuild, hindexesb.unique hindexes (mem_allItems_congr fun d => hperm.mem_iff)]

def fooCrate : Document :=
  ⟨⟨"a.smir.json"⟩, ⟨["_ZN3foo17h0123456789abcdefE", "memcpy"], []⟩⟩

def guardedFooCrate : Document :=
  ⟨⟨"b.smir.json"⟩, ⟨["memcpy", "_ZN4_foo17h0123456789abcdefE"], []⟩⟩

/-- Adds one of two crates twice, and merges a builder that is empty. -/
def overlappingPlan : BuildPlan :=
  .merge (.merge (.part [guardedFooCrate]) (.part [])) (.part [guardedFooCrate, fooCrate])

/-- The collision of the two crates only shows once their parts are merged. -/
theorem plans_finish_alike_overlappingPlan :
    (∀ d ∈ [fooCrate, guardedFooCrate], ¬ d.HasMalformedItem) ∧
      (∀ d, d ∈ overlappingPlan.documents ↔ d ∈ [fooCrate, guardedFooCrate]) ∧
      [guardedFooCrate, fooCrate].Perm [fooCrate, guardedFooCrate] ∧
      ∃ b, overlappingPlan.run = .ok b ∧ b.finish = .error (.integrityViolation 3 2) ∧
        PresentIndex.build true [guardedFooCrate, fooCrate] =
          .error (.integrityViolation 3 2) := by
  have hdecode : ∀ symbol ∈ allItems [fooCrate, guardedFooCrate],
      (decode symbol).toOption.isSome = true := by
    decide +kernel
  have hgood : ∀ d ∈ [fooCrate, guardedFooCrate], ¬ d.HasMalformedItem := by
    intro d hd hmalformed
    obtain ⟨symbol, hs, e, he⟩ := hmalformed
    have hsome := hdecode symbol (List.mem_flatMap.mpr ⟨d, hd, hs⟩)
    rw [he] at hsome
    cases hsome
  have hplan : ∀ d, d ∈ overlappingPlan.documents ↔ d ∈ [fooCrate, guardedFooCrate] := by
    intro d
    simp only [overlappingPlan, BuildPlan.documents, List.mem_append, List.mem_cons,
      List.not_mem_nil, or_false]
    tauto
  have hperm : [guardedFooCrate, fooCrate].Perm [fooCrate, guardedFooCrate] := .swap ..
  obtain ⟨single, hsingle, hplans, hbuild⟩ := plans_finish_alike hgood
  obtain ⟨b, hb, hfinish⟩ := hplans overlappingPlan hplan
  have hsymbols : (IndexBuilder.empty.insertAll
      (allItems [fooCrate, guardedFooCrate])).1.symbols.size = 3 := by
    decide +kernel
  have hentries : (IndexBuilder.empty.insertAll
      (allItems [fooCrate, guardedFooCrate])).1.buckets.entryCount = 2 := by
    decide +kernel
  rw [hsingle] at hsymbols hentries
  have herror : single.finish = .error (.integrityViolation 3 2) := by
    rw [IndexBuilder.finish, hsymbols, hentries]
    rfl
  exact ⟨hgood, hplan, hperm, b, hb, hfinish.trans herror, (hbuild true _ hperm).trans herror⟩

end SymbolCoverage
