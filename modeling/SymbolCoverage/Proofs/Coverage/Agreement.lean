import Mathlib.Data.List.Nodup
import SymbolCoverage.Proofs.Coverage.Recording

/-!
Agreement of reports.  Two reports agree if they list the same foreign names and the same
keys in the same order, and under each key the same crates with the same hashes.  Only
the order of the crates under a key may differ.  Reports of references agree whenever the
references are the same, in whatever order and however often they were recorded.
-/

namespace SymbolCoverage

open SymbolCoverage.Symbol (Key Hash)

/-- The reports differ at most in the order of the crates under a key. -/
structure Report.AgreesWith (r r' : Report) : Prop where
  foreignList : r.foreignList = r'.foreignList
  missing : List.Forall₂ (fun a b => a.1 = b.1 ∧ a.2.Perm b.2) r.missing.toList r'.missing.toList

namespace CrateHashes

variable {crates crates' : CrateHashes} {pairs pairs' : List (CrateId × Option Hash)}

theorem Records.nodup_crates (h : Records crates pairs) : crates.Nodup :=
  List.Nodup.of_map Prod.fst h.nodup

/-- What is recorded for the same pairs is the same for each crate. -/
theorem Records.mem_of_mem (h : Records crates pairs) (h' : Records crates' pairs')
    (hpairs : ∀ pair, pair ∈ pairs ↔ pair ∈ pairs') {crate : CrateId × Hashes}
    (hmem : crate ∈ crates) : crate ∈ crates' := by
  obtain ⟨source, hashes⟩ := crate
  obtain ⟨hash, hpair⟩ := (h.mem_sources source).mp (mem_sources_of_mem hmem)
  have hsource : source ∈ crates'.sources :=
    (h'.mem_sources source).mpr ⟨hash, (hpairs _).mp hpair⟩
  obtain ⟨⟨_, hashes'⟩, hmem', rfl⟩ := List.mem_map.mp hsource
  have heq : hashes = hashes' := Std.ExtTreeSet.ext_mem fun k => by
    rw [h.mem_hashes _ _ hmem, h'.mem_hashes _ _ hmem', hpairs]
  rw [heq]
  exact hmem'

theorem Records.perm (h : Records crates pairs) (h' : Records crates' pairs')
    (hpairs : ∀ pair, pair ∈ pairs ↔ pair ∈ pairs') : crates.Perm crates' := by
  rw [List.perm_ext_iff_of_nodup h.nodup_crates h'.nodup_crates]
  intro crate
  constructor
  · exact h.mem_of_mem h' hpairs
  · exact h'.mem_of_mem h fun pair => (hpairs pair).symm

theorem record_ne_nil (crates : CrateHashes) (source : CrateId) (hash : Option Hash) :
    crates.record source hash ≠ [] := by
  cases crates with
  | nil => exact List.cons_ne_nil _ _
  | cons crate rest =>
    rw [record]
    split
    · exact List.cons_ne_nil _ _
    · exact List.cons_ne_nil _ _

end CrateHashes

namespace Report

variable {r r' : Report} {xs ys : List Reference}

/-- No key is there without a crate that misses it. -/
def Filled (r : Report) : Prop :=
  ∀ (key : Key) (crates : CrateHashes), r.missing[key]? = some crates → crates ≠ []

theorem Filled.record (h : r.Filled) (reference : Reference) : (r.record reference).Filled := by
  cases reference with
  | foreign name => exact h
  | covered => exact h
  | missing key hash source =>
    intro k crates hcrates
    have hget : (r.missing.insert key ((r.crates key).record source hash))[k]? = some crates :=
      hcrates
    rw [Std.ExtTreeMap.getElem?_insert] at hget
    split at hget
    · cases hget
      exact CrateHashes.record_ne_nil _ _ _
    · exact h k crates hget

theorem filled_ofReferences (references : List Reference) : (ofReferences references).Filled := by
  have hrun : ∀ r : Report, r.Filled → (references.foldl Report.record r).Filled := by
    induction references with
    | nil => exact fun r h => h
    | cons reference references ih => exact fun r h => ih _ (h.record reference)
  apply hrun
  intro key crates h
  simp [empty] at h

theorem Filled.mem_keys_iff (h : r.Filled) {key : Key} :
    key ∈ r.missing.keys ↔ r.crates key ≠ [] := by
  rw [Std.ExtTreeMap.mem_keys, Std.ExtTreeMap.mem_iff_isSome_getElem?, Report.crates]
  cases hget : r.missing[key]? with
  | none => simp
  | some crates => simp [h key crates hget]

/-- The keys ascend, so they are known by their members. -/
theorem keys_eq_of_mem_iff (h : ∀ key, key ∈ r.missing.keys ↔ key ∈ r'.missing.keys) :
    r.missing.keys = r'.missing.keys := by
  have hnodup : ∀ r : Report, r.missing.keys.Nodup := fun r =>
    Std.ExtTreeMap.ordered_keys.imp fun hlt => (Key.compare_eq_lt.mp hlt).ne
  have hperm : r.missing.keys.Perm r'.missing.keys :=
    (List.perm_ext_iff_of_nodup (hnodup r) (hnodup r')).mpr h
  refine hperm.eq_of_pairwise ?_ Std.ExtTreeMap.ordered_keys Std.ExtTreeMap.ordered_keys
  intro k l _ _ hlt hgt
  exact absurd hgt (Std.OrientedCmp.not_lt_of_lt hlt)

theorem toList_missing (r : Report) :
    r.missing.toList = r.missing.keys.map fun key => (key, r.crates key) := by
  rw [← Std.ExtTreeMap.map_fst_toList_eq_keys, List.map_map]
  conv_lhs => rw [← List.map_id r.missing.toList]
  refine List.map_congr_left fun pair hpair => ?_
  exact Prod.ext rfl (crates_of_mem_toList hpair).symm

theorem agreesWith_of_crates (hforeign : r.foreignList = r'.foreignList)
    (hkeys : r.missing.keys = r'.missing.keys)
    (hcrates : ∀ key, (r.crates key).Perm (r'.crates key)) : r.AgreesWith r' where
  foreignList := hforeign
  missing := by
    rw [toList_missing, toList_missing, hkeys, List.forall₂_map_left_iff,
      List.forall₂_map_right_iff, List.forall₂_same]
    exact fun key _ => ⟨rfl, hcrates key⟩

/-- Reports of the same references agree. -/
theorem ofReferences_agreesWith
    (hforeign : ∀ name, .foreign name ∈ xs ↔ .foreign name ∈ ys)
    (hmissing : ∀ key hash source, .missing key hash source ∈ xs ↔ .missing key hash source ∈ ys) :
    (ofReferences xs).AgreesWith (ofReferences ys) := by
  have hx := records_ofReferences xs
  have hy := records_ofReferences ys
  have hnames : (ofReferences xs).foreignNames = (ofReferences ys).foreignNames :=
    Std.ExtTreeSet.ext_mem fun name => by
      rw [hx.mem_foreign, hy.mem_foreign, hforeign]
  have hcrates : ∀ key, ((ofReferences xs).crates key).Perm ((ofReferences ys).crates key) := by
    intro key
    refine (hx.crates key).perm (hy.crates key) ?_
    rintro ⟨source, hash⟩
    rw [mem_filterMap_under?, mem_filterMap_under?, hmissing]
  have hlist := congrArg Std.ExtTreeSet.toList hnames
  refine agreesWith_of_crates hlist (keys_eq_of_mem_iff fun key => ?_) hcrates
  rw [(filled_ofReferences xs).mem_keys_iff, (filled_ofReferences ys).mem_keys_iff, ne_eq, ne_eq,
    ← List.length_eq_zero_iff, ← List.length_eq_zero_iff, (hcrates key).length_eq]

end Report
end SymbolCoverage
