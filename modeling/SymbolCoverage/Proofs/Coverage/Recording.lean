import SymbolCoverage.Coverage.Report
import SymbolCoverage.Proofs.First
import SymbolCoverage.Proofs.Symbol.Order

/-!
Recording references.  What a report holds after a list of references: the foreign
names among them, and under each key the crates that miss it, in the order of their
first references, with the hashes of all their references.
-/

namespace SymbolCoverage

open SymbolCoverage.Symbol (Key Hash)

namespace CrateHashes

variable {crates : CrateHashes} {source c : CrateId} {hash : Option Hash} {hashes : Hashes}

theorem mem_addHash {h : Hash} : h ∈ addHash hashes hash ↔ h ∈ hashes ∨ hash = some h := by
  cases hash with
  | none => simp [addHash]
  | some h' =>
    rw [addHash, Std.ExtTreeSet.mem_insert, Std.compare_eq_iff_eq, Option.some.injEq, or_comm]

def sources (crates : CrateHashes) : List CrateId := crates.map (·.1)

theorem mem_sources_of_mem (h : (c, hashes) ∈ crates) : c ∈ crates.sources :=
  List.mem_map.mpr ⟨(c, hashes), h, rfl⟩

theorem sources_cons (crate : CrateId × Hashes) (rest : CrateHashes) :
    sources (crate :: rest) = crate.1 :: rest.sources := rfl

theorem record_cons_self (source : CrateId) (hashes : Hashes) (rest : CrateHashes)
    (hash : Option Hash) :
    record ((source, hashes) :: rest) source hash = (source, addHash hashes hash) :: rest := by
  rw [record, if_pos rfl]

theorem record_cons_ne (h : c ≠ source) (hashes : Hashes) (rest : CrateHashes)
    (hash : Option Hash) :
    record ((c, hashes) :: rest) source hash = (c, hashes) :: record rest source hash := by
  rw [record, if_neg h]

theorem sources_record :
    (crates.record source hash).sources =
      if source ∈ crates.sources then crates.sources else crates.sources ++ [source] := by
  induction crates with
  | nil => rfl
  | cons crate rest ih =>
    obtain ⟨c, hashes⟩ := crate
    by_cases hc : c = source
    · rw [hc, record_cons_self, if_pos (mem_sources_of_mem List.mem_cons_self)]
      rfl
    · have hmem : source ∈ sources ((c, hashes) :: rest) ↔ source ∈ sources rest := by
        rw [sources_cons, List.mem_cons]
        exact or_iff_right (Ne.symm hc)
      rw [record_cons_ne hc, sources_cons, ih]
      by_cases hrest : source ∈ sources rest
      · rw [if_pos hrest, if_pos (hmem.mpr hrest)]
        rfl
      · rw [if_neg hrest, if_neg fun h => hrest (hmem.mp h)]
        rfl

/-- A crate keeps its hashes, save that the recorded one comes to those of its crate. -/
theorem mem_record (hnodup : crates.sources.Nodup)
    (h : (c, hashes) ∈ crates.record source hash) :
    (c ≠ source ∧ (c, hashes) ∈ crates) ∨
      (c = source ∧ ∃ old, hashes = addHash old hash ∧
        ((source, old) ∈ crates ∨ (source ∉ crates.sources ∧ old = ∅))) := by
  induction crates with
  | nil =>
    cases List.mem_singleton.mp h
    exact Or.inr ⟨rfl, ∅, rfl, Or.inr ⟨by simp [sources], rfl⟩⟩
  | cons crate rest ih =>
    obtain ⟨c', hashes'⟩ := crate
    rw [sources_cons, List.nodup_cons] at hnodup
    by_cases hc : c' = source
    · rw [hc, record_cons_self] at h
      rw [hc]
      rcases List.mem_cons.mp h with heq | hmem
      · cases heq
        exact Or.inr ⟨rfl, hashes', rfl, Or.inl List.mem_cons_self⟩
      · refine Or.inl ⟨fun heq => ?_, List.mem_cons_of_mem _ hmem⟩
        rw [hc, ← heq] at hnodup
        exact hnodup.1 (mem_sources_of_mem hmem)
    · rw [record_cons_ne hc] at h
      rcases List.mem_cons.mp h with heq | hmem
      · cases heq
        exact Or.inl ⟨hc, List.mem_cons_self⟩
      · rcases ih hnodup.2 hmem with ⟨hne, hold⟩ | ⟨heq, old, hadd, hold⟩
        · exact Or.inl ⟨hne, List.mem_cons_of_mem _ hold⟩
        · refine Or.inr ⟨heq, old, hadd, ?_⟩
          rcases hold with hold | ⟨hnew, hempty⟩
          · exact Or.inl (List.mem_cons_of_mem _ hold)
          · refine Or.inr ⟨?_, hempty⟩
            rw [sources_cons, List.mem_cons]
            exact fun hmem => hmem.elim (Ne.symm hc) hnew

/-- What is recorded under one key, given the crates and hashes of the references. -/
structure Records (crates : CrateHashes) (pairs : List (CrateId × Option Hash)) : Prop where
  mem_sources : ∀ source, source ∈ crates.sources ↔ ∃ hash, (source, hash) ∈ pairs
  mem_hashes : ∀ source hashes, (source, hashes) ∈ crates →
    ∀ hash, hash ∈ hashes ↔ (source, some hash) ∈ pairs
  ordered : crates.sources.Pairwise fun a b => a ≠ b ∧ ComesFirst (·.1 = a) (·.1 = b) pairs

theorem records_nil : Records [] [] where
  mem_sources source := by simp [sources]
  mem_hashes source hashes h := by cases h
  ordered := .nil

theorem Records.nodup {pairs : List (CrateId × Option Hash)} (h : Records crates pairs) :
    crates.sources.Nodup := h.ordered.imp fun hab => hab.1

theorem Records.record {pairs : List (CrateId × Option Hash)} (h : Records crates pairs)
    (source : CrateId) (hash : Option Hash) :
    Records (crates.record source hash) (pairs ++ [(source, hash)]) where
  mem_sources c := by
    have hrecorded : c ∈ (crates.record source hash).sources ↔ c ∈ crates.sources ∨ c = source := by
      rw [sources_record]
      by_cases hsource : source ∈ crates.sources
      · rw [if_pos hsource]
        exact (or_iff_left_of_imp fun heq => heq ▸ hsource).symm
      · rw [if_neg hsource, List.mem_append, List.mem_singleton]
    rw [hrecorded, h.mem_sources]
    simp only [List.mem_append, List.mem_singleton, Prod.mk.injEq, exists_or]
    simp
  mem_hashes c hashes hmem k := by
    have hpair : (c, some k) ∈ pairs ++ [(source, hash)] ↔
        (c, some k) ∈ pairs ∨ (c = source ∧ hash = some k) := by
      rw [List.mem_append, List.mem_singleton, Prod.mk.injEq, @eq_comm _ hash]
    rw [hpair]
    rcases mem_record h.nodup hmem with ⟨hne, hold⟩ | ⟨rfl, old, rfl, hold⟩
    · rw [h.mem_hashes c hashes hold k]
      exact (or_iff_left fun heq => hne heq.1).symm
    · have hk : k ∈ old ↔ (c, some k) ∈ pairs := by
        rcases hold with hold | ⟨hnew, rfl⟩
        · exact h.mem_hashes c old hold k
        · refine iff_of_false (by simp) fun hpairs => ?_
          exact hnew ((h.mem_sources c).mpr ⟨some k, hpairs⟩)
      rw [mem_addHash, hk]
      simp
  ordered := by
    have hold := h.ordered.imp fun hab => And.intro hab.1 (hab.2.append [(source, hash)])
    rw [sources_record]
    by_cases hsource : source ∈ crates.sources
    · rw [if_pos hsource]
      exact hold
    · rw [if_neg hsource]
      refine List.pairwise_append.mpr ⟨hold, List.pairwise_singleton _ _, ?_⟩
      intro a ha b hb
      cases List.mem_singleton.mp hb
      obtain ⟨hash', hpair⟩ := (h.mem_sources a).mp ha
      refine ⟨fun heq => hsource (heq ▸ ha), ?_⟩
      -- A new crate stands behind all that were referred to before.
      have hfirst : ComesFirst (·.1 = a) (·.1 = source) pairs := by
        refine comesFirst_of_forall_not ⟨(a, hash'), hpair, rfl⟩ ?_
        intro pair hmem hb
        exact hsource ((h.mem_sources source).mpr ⟨pair.2, hb ▸ hmem⟩)
      exact hfirst.append _

end CrateHashes

/-- What a reference says about a key. -/
def Reference.under? (key : Key) : Reference → Option (CrateId × Option Hash)
  | .missing k hash source => if k = key then some (source, hash) else none
  | _ => none

theorem Reference.under?_eq_some_iff {key : Key} {source : CrateId} {hash : Option Hash}
    {reference : Reference} :
    reference.under? key = some (source, hash) ↔ reference = .missing key hash source := by
  cases reference with
  | missing k hash' source' =>
    by_cases hk : k = key
    · simp only [under?, hk, if_true, Option.some.injEq, Prod.mk.injEq, Reference.missing.injEq,
        true_and]
      exact and_comm
    · simp [under?, hk]
  | foreign name => exact iff_of_false nofun nofun
  | covered => exact iff_of_false nofun nofun

namespace Report

/-- The crates that miss a key. -/
def crates (r : Report) (key : Key) : CrateHashes := r.missing[key]?.getD []

structure Records (r : Report) (references : List Reference) : Prop where
  mem_foreign : ∀ name, name ∈ r.foreignNames ↔ .foreign name ∈ references
  crates : ∀ key, (r.crates key).Records (references.filterMap (·.under? key))

theorem records_empty : empty.Records [] where
  mem_foreign name := by simp [empty]
  crates key := by simpa [empty, Report.crates] using CrateHashes.records_nil

theorem crates_record_missing (r : Report) (key k : Key) (hash : Option Hash) (source : CrateId) :
    (r.record (.missing key hash source)).crates k =
      if key = k then (r.crates k).record source hash else r.crates k := by
  show (r.missing.insert key ((r.crates key).record source hash))[k]?.getD [] = _
  rw [Std.ExtTreeMap.getElem?_insert]
  by_cases hk : key = k
  · rw [if_pos hk, if_pos (Std.compare_eq_iff_eq.mpr hk), hk]
    rfl
  · rw [if_neg hk, if_neg fun heq => hk (Std.compare_eq_iff_eq.mp heq)]
    rfl

theorem Records.record {r : Report} {references : List Reference} (h : r.Records references)
    (reference : Reference) : (r.record reference).Records (references ++ [reference]) where
  mem_foreign text := by
    rw [List.mem_append, List.mem_singleton, ← h.mem_foreign]
    cases reference with
    | foreign name =>
      show text ∈ r.foreignNames.insert name ↔ _
      rw [Std.ExtTreeSet.mem_insert, Std.compare_eq_iff_eq, Reference.foreign.injEq, or_comm,
        @eq_comm _ name]
    | covered => exact (or_iff_left nofun).symm
    | missing key hash source => exact (or_iff_left nofun).symm
  crates k := by
    rw [List.filterMap_append]
    cases reference with
    | foreign name =>
      rw [show [Reference.foreign name].filterMap (·.under? k) = [] from rfl, List.append_nil]
      exact h.crates k
    | covered =>
      rw [show [Reference.covered].filterMap (·.under? k) = [] from rfl, List.append_nil]
      exact h.crates k
    | missing key hash source =>
      rw [crates_record_missing]
      by_cases hk : key = k
      · have hunder : [Reference.missing key hash source].filterMap (·.under? k) =
            [(source, hash)] := by
          simp [Reference.under?, hk]
        rw [if_pos hk, hunder]
        exact (h.crates k).record source hash
      · have hunder : [Reference.missing key hash source].filterMap (·.under? k) = [] := by
          simp [Reference.under?, hk]
        rw [if_neg hk, hunder, List.append_nil]
        exact h.crates k

/-- A report of references holds what these references say. -/
theorem records_ofReferences (references : List Reference) :
    (ofReferences references).Records references := by
  have hrun : ∀ (r : Report) (seen : List Reference), r.Records seen →
      (references.foldl record r).Records (seen ++ references) := by
    induction references with
    | nil =>
      intro r seen h
      rwa [List.append_nil]
    | cons reference references ih =>
      intro r seen h
      have hnext := ih (r.record reference) (seen ++ [reference]) (h.record reference)
      rwa [List.append_assoc] at hnext
  exact hrun empty [] records_empty

/-! ## What is listed -/

theorem mem_foreignList {r : Report} {name : String} :
    name ∈ r.foreignList ↔ name ∈ r.foreignNames := Std.ExtTreeSet.mem_toList

theorem foreignList_ascending (r : Report) : r.foreignList.Pairwise (· < ·) :=
  Std.ExtTreeSet.ordered_toList.imp Symbol.compare_string_eq_lt.mp

theorem hashes_ascending (hashes : Hashes) :
    hashes.toList.Pairwise fun h k => h.digits < k.digits :=
  Std.ExtTreeSet.ordered_toList.imp Symbol.Hash.compare_eq_lt.mp

theorem crates_of_mem_toList {r : Report} {key : Key} {crates : CrateHashes}
    (h : (key, crates) ∈ r.missing.toList) : r.crates key = crates := by
  rw [Report.crates, Std.ExtTreeMap.mem_toList_iff_getElem?_eq_some.mp h]
  rfl

theorem mem_missingLines {r : Report} {line : MissingLine} :
    line ∈ r.missingLines ↔
      ∃ hashes, (line.source, hashes) ∈ r.crates line.key ∧ line.hashes = hashes.toList := by
  rw [missingLines, List.mem_flatMap]
  constructor
  · intro h
    obtain ⟨⟨key, crates⟩, hkey, hline⟩ := h
    obtain ⟨⟨source, hashes⟩, hcrate, rfl⟩ := List.mem_map.mp hline
    exact ⟨hashes, crates_of_mem_toList hkey ▸ hcrate, rfl⟩
  · intro h
    obtain ⟨source, key, _⟩ := line
    obtain ⟨hashes, hcrate, rfl⟩ := h
    cases hget : r.missing[key]? with
    | none =>
      rw [Report.crates, hget] at hcrate
      cases hcrate
    | some crates =>
      rw [Report.crates, hget] at hcrate
      refine ⟨(key, crates), Std.ExtTreeMap.mem_toList_iff_getElem?_eq_some.mpr hget, ?_⟩
      exact List.mem_map.mpr ⟨(source, hashes), hcrate, rfl⟩

/-- Lines ascend by key, and lines of one key stand in the order of its crates. -/
theorem missingLines_ordered {r : Report} {R : Key → CrateId → CrateId → Prop}
    (h : ∀ key, (r.crates key).sources.Pairwise (R key)) :
    r.missingLines.Pairwise fun l m =>
      l.key.Precedes m.key ∨ (l.key = m.key ∧ R l.key l.source m.source) := by
  refine List.pairwise_flatMap.mpr ⟨?_, ?_⟩
  · intro pair hpair
    obtain ⟨key, crates⟩ := pair
    have hkey : crates.sources.Pairwise (R key) := crates_of_mem_toList hpair ▸ h key
    exact List.pairwise_map.mpr ((List.pairwise_map.mp hkey).imp fun hab => Or.inr ⟨rfl, hab⟩)
  · refine Std.ExtTreeMap.ordered_keys_toList.imp ?_
    intro pair pair' hlt line hline line' hline'
    obtain ⟨crate, -, rfl⟩ := List.mem_map.mp hline
    obtain ⟨crate', -, rfl⟩ := List.mem_map.mp hline'
    exact Or.inl (Key.compare_eq_lt.mp hlt)

/-! ## What a recorded report lists -/

variable {r : Report} {references : List Reference} {key : Key} {source : CrateId}

theorem mem_filterMap_under? {hash : Option Hash} :
    (source, hash) ∈ references.filterMap (·.under? key) ↔
      .missing key hash source ∈ references := by
  rw [List.mem_filterMap]
  simp only [Reference.under?_eq_some_iff, exists_eq_right]

theorem Records.exists_line_iff (h : r.Records references) :
    (∃ line ∈ r.missingLines, line.key = key ∧ line.source = source) ↔
      ∃ hash, .missing key hash source ∈ references := by
  have hsources : source ∈ (r.crates key).sources ↔
      ∃ hash, .missing key hash source ∈ references := by
    rw [(h.crates key).mem_sources]
    simp only [mem_filterMap_under?]
  rw [← hsources]
  constructor
  · intro hline
    obtain ⟨line, hmem, rfl, rfl⟩ := hline
    obtain ⟨hashes, hcrate, -⟩ := mem_missingLines.mp hmem
    exact CrateHashes.mem_sources_of_mem hcrate
  · intro hmem
    obtain ⟨⟨_, hashes⟩, hcrate, rfl⟩ := List.mem_map.mp hmem
    exact ⟨⟨_, key, hashes.toList⟩, mem_missingLines.mpr ⟨hashes, hcrate, rfl⟩, rfl, rfl⟩

theorem Records.mem_hashes_iff (h : r.Records references) {line : MissingLine}
    (hline : line ∈ r.missingLines) {hash : Hash} :
    hash ∈ line.hashes ↔ .missing line.key (some hash) line.source ∈ references := by
  obtain ⟨hashes, hcrate, heq⟩ := mem_missingLines.mp hline
  rw [heq, Std.ExtTreeSet.mem_toList, (h.crates line.key).mem_hashes _ _ hcrate,
    mem_filterMap_under?]

end Report

end SymbolCoverage
