import SymbolCoverage.Metadata.Writing
import SymbolCoverage.Proofs.Coverage.Outcome
import SymbolCoverage.Proofs.Coverage.Recording

/-!
The content of a report.  A check reports the foreign names that documents link, and
under each key the crates that link a name whose entry is not present anywhere.
-/

namespace SymbolCoverage

open SymbolCoverage.Symbol

variable {parallel : Bool} {documents : List Document} {index : PresentIndex} {report : Report}

/-- The document links a structured name whose entry no item of the documents has. -/
def Document.Misses (documents : List Document) (d : Document) (entry : Entry) : Prop :=
  ∃ name, d.Links name ∧ opening <+: name.toList ∧ entryOf name = .ok entry ∧
    ¬ Present documents entry

/-- The document is one of the crate, and misses some entry with the key. -/
def Document.MissesFor (documents : List Document) (key : Key) (source : CrateId) (d : Document) :
    Prop :=
  d.id = source ∧ ∃ hash, d.Misses documents (key, hash)

/-- The report lists what the documents link and miss, each foreign name and each key of
each crate once, and in order. -/
structure Report.Describes (report : Report) (documents : List Document) : Prop where
  foreign_ascending : report.foreignList.Pairwise (· < ·)
  mem_foreign : ∀ name, name ∈ report.foreignList ↔
    (∃ d ∈ documents, d.Links name) ∧ ¬ opening <+: name.toList
  exists_line : ∀ key source,
    (∃ line ∈ report.missingLines, line.key = key ∧ line.source = source) ↔
      ∃ d ∈ documents, d.MissesFor documents key source
  hashes_ascending : ∀ line ∈ report.missingLines,
    line.hashes.Pairwise fun h k => h.digits < k.digits
  mem_hashes : ∀ line ∈ report.missingLines, ∀ hash, hash ∈ line.hashes ↔
    ∃ d ∈ documents, d.id = line.source ∧ d.Misses documents (line.key, some hash)
  path_hashes : ∀ line ∈ report.missingLines, ∀ path, line.key = .path path → line.hashes ≠ []
  raw_hashes : ∀ line ∈ report.missingLines, ∀ text, line.key = .raw text → line.hashes = []
  one_line : report.missingLines.Pairwise fun l m => ¬ (l.key = m.key ∧ l.source = m.source)
  lines_ordered : report.missingLines.Pairwise fun l m =>
    l.key.Precedes m.key ∨
      (l.key = m.key ∧ l.source ≠ m.source ∧
        ComesFirst (Document.MissesFor documents l.key l.source)
          (Document.MissesFor documents l.key m.source) documents)

theorem Symbol.isOpened_iff {name : String} : isOpened name = true ↔ opening <+: name.toList :=
  List.isPrefixOf_iff_prefix

/-- The lists hold the references of the documents, one list each. -/
abbrev References (index : PresentIndex) : List Document → List (List Reference) → Prop :=
  List.Forall₂ fun d references => Reference.ofDocument index d = .ok references

/-- The parts from which a report was made. -/
theorem check_eq_ok (h : check parallel documents = .ok report) :
    ∃ index lists, PresentIndex.build parallel documents = .ok index ∧
      References index documents lists ∧ report = Report.ofReferences lists.flatten := by
  cases hbuild : PresentIndex.build parallel documents with
  | error failure =>
    rw [check_of_build_error hbuild] at h
    cases h
  | ok index =>
    rw [check_of_build_ok hbuild] at h
    obtain ⟨lists, hlists, rfl⟩ := map_eq_ok.mp h
    exact ⟨index, lists, rfl, collect_map_eq_ok hlists, rfl⟩

section Lists

variable {lists : List (List Reference)} {key : Key} {hash : Option Hash} {source : CrateId}

theorem foreign_mem_flatten_iff (hlists : References index documents lists) {name : String} :
    .foreign name ∈ lists.flatten ↔
      (∃ d ∈ documents, d.Links name) ∧ ¬ opening <+: name.toList := by
  rw [mem_flatten_iff hlists fun d references h => Reference.foreign_mem_iff h]
  simp only [isOpened_iff]
  constructor
  · intro h
    obtain ⟨d, hd, hlinks, hopened⟩ := h
    exact ⟨⟨d, hd, hlinks⟩, hopened⟩
  · intro h
    obtain ⟨⟨d, hd, hlinks⟩, hopened⟩ := h
    exact ⟨d, hd, hlinks, hopened⟩

variable (hindex : PresentIndex.build parallel documents = .ok index)

include hindex

theorem missing_mem_iff {d : Document} {references : List Reference}
    (h : Reference.ofDocument index d = .ok references) :
    .missing key hash source ∈ references ↔ d.id = source ∧ d.Misses documents (key, hash) := by
  rw [Reference.missing_mem_iff h]
  simp only [PresentIndex.contains_of_build hindex, isOpened_iff]
  rfl

theorem missing_mem_flatten_iff (hlists : References index documents lists) :
    .missing key hash source ∈ lists.flatten ↔
      ∃ d ∈ documents, d.id = source ∧ d.Misses documents (key, hash) :=
  mem_flatten_iff hlists fun _ _ h => missing_mem_iff hindex h

theorem missesFor_iff {d : Document} {references : List Reference}
    (h : Reference.ofDocument index d = .ok references) :
    d.MissesFor documents key source ↔
      ∃ pair ∈ references.filterMap (·.under? key), pair.1 = source := by
  constructor
  · intro hmisses
    obtain ⟨hid, hash, hmisses⟩ := hmisses
    have hmem := (missing_mem_iff hindex h).mpr ⟨hid, hmisses⟩
    exact ⟨(source, hash), Report.mem_filterMap_under?.mpr hmem, rfl⟩
  · intro hpair
    obtain ⟨⟨_, hash⟩, hpair, rfl⟩ := hpair
    have hmem := Report.mem_filterMap_under?.mp hpair
    obtain ⟨hid, hmisses⟩ := (missing_mem_iff hindex h).mp hmem
    exact ⟨hid, hash, hmisses⟩

/-- What comes first among the references comes first among the documents. -/
theorem comesFirst_documents (hlists : References index documents lists) {a b : CrateId}
    (h : ComesFirst (·.1 = a) (·.1 = b) (lists.flatten.filterMap (·.under? key))) :
    ComesFirst (Document.MissesFor documents key a) (Document.MissesFor documents key b)
      documents := by
  rw [List.filterMap_flatten] at h
  have hmapped : List.Forall₂
      (fun d pairs => ∃ references, Reference.ofDocument index d = .ok references ∧
        pairs = references.filterMap (·.under? key))
      documents (lists.map (List.filterMap (·.under? key))) :=
    List.forall₂_map_right_iff.mpr (hlists.imp fun _ references h => ⟨references, h, rfl⟩)
  refine ComesFirst.of_flatten hmapped ?_ ?_ h
  · intro d pairs hd
    obtain ⟨references, hreferences, rfl⟩ := hd
    exact missesFor_iff hindex hreferences
  · intro d pairs hd hmisses
    obtain ⟨references, hreferences, rfl⟩ := hd
    exact (missesFor_iff hindex hreferences).mp hmisses

end Lists

/-- A report describes what the documents link and miss. -/
theorem check_describes (h : check parallel documents = .ok report) :
    report.Describes documents := by
  obtain ⟨index, lists, hindex, hlists, rfl⟩ := check_eq_ok h
  have hrecords := Report.records_ofReferences lists.flatten
  have hline : ∀ key source, (∃ line ∈ (Report.ofReferences lists.flatten).missingLines,
      line.key = key ∧ line.source = source) ↔
        ∃ d ∈ documents, d.MissesFor documents key source := by
    intro key source
    rw [hrecords.exists_line_iff]
    simp only [missing_mem_flatten_iff hindex hlists]
    constructor
    · intro hmissing
      obtain ⟨hash, d, hd, hid, hmisses⟩ := hmissing
      exact ⟨d, hd, hid, hash, hmisses⟩
    · intro hmisses
      obtain ⟨d, hd, hid, hash, hmisses⟩ := hmisses
      exact ⟨hash, d, hd, hid, hmisses⟩
  have hhashes : ∀ line ∈ (Report.ofReferences lists.flatten).missingLines, ∀ hash,
      hash ∈ line.hashes ↔
        ∃ d ∈ documents, d.id = line.source ∧ d.Misses documents (line.key, some hash) := by
    intro line hmem hash
    rw [hrecords.mem_hashes_iff hmem, missing_mem_flatten_iff hindex hlists]
  have hordered := Report.missingLines_ordered fun key =>
    (hrecords.crates key).ordered.imp fun hab =>
      And.intro hab.1 (comesFirst_documents hindex hlists hab.2)
  refine ⟨Report.foreignList_ascending _, ?_, hline, ?_, hhashes, ?_, ?_, ?_, hordered⟩
  · intro name
    rw [Report.mem_foreignList, hrecords.mem_foreign, foreign_mem_flatten_iff hlists]
  · intro line hmem
    obtain ⟨hashes, -, heq⟩ := Report.mem_missingLines.mp hmem
    rw [heq]
    exact Report.hashes_ascending hashes
  · intro line hmem path hkey hnil
    obtain ⟨d, hd, hid, hash, hmisses⟩ := (hline line.key line.source).mp ⟨line, hmem, rfl, rfl⟩
    obtain ⟨k, rfl⟩ : ∃ k, hash = some k := by
      obtain ⟨name, -, -, hentry, -⟩ := hmisses
      exact hash_of_path (hkey ▸ hentry)
    have hk := (hhashes line hmem k).mpr ⟨d, hd, hid, hmisses⟩
    rw [hnil] at hk
    cases hk
  · intro line hmem text hkey
    refine List.eq_nil_iff_forall_not_mem.mpr fun k hk => ?_
    obtain ⟨d, -, -, name, -, -, hentry, -⟩ := (hhashes line hmem k).mp hk
    cases hash_of_raw (hkey ▸ hentry)
  · refine hordered.imp fun hlm heq => ?_
    rcases hlm with hlt | hfirst
    · exact hlt.ne heq.1
    · exact hfirst.2.1 heq.2

def twoCrates : List Document :=
  [⟨⟨"a.smir.json"⟩, .ofNames ["_ZN3foo17h0123456789abcdefE"]
      ["memcpy", "_ZN3foo17h0123456789abcdefE", "_ZN3foo17hffffffffffffffffE", "_ZNopen"]⟩,
    ⟨⟨"b.smir.json"⟩, .ofNames []
      ["_ZN3foo17hffffffffffffffffE", "_ZN3bar17h0000000000000000E",
        "_ZN3foo17heeeeeeeeeeeeeeeeE"]⟩]

theorem check_describes_twoCrates :
    ∃ report, check true twoCrates = .ok report ∧
      report.text = "memcpy\nb::bar->['0000000000000000']\na::foo->['ffffffffffffffff']\n" ++
        "b::foo->['eeeeeeeeeeeeeeee', 'ffffffffffffffff']\na::_ZNopen->[]\n" ∧
      report.Describes twoCrates := by
  have htext : (check true twoCrates).toOption.map (·.text) =
      some ("memcpy\nb::bar->['0000000000000000']\na::foo->['ffffffffffffffff']\n" ++
        "b::foo->['eeeeeeeeeeeeeeee', 'ffffffffffffffff']\na::_ZNopen->[]\n") := by
    decide +kernel
  cases hcheck : check true twoCrates with
  | error failure =>
    rw [hcheck] at htext
    cases htext
  | ok report =>
    rw [hcheck] at htext
    exact ⟨report, rfl, Option.some.inj htext, check_describes hcheck⟩

end SymbolCoverage
