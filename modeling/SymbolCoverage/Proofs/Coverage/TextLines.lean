import SymbolCoverage.Proofs.Coverage.Content
import SymbolCoverage.Proofs.Symbol.LineEnds
import SymbolCoverage.Proofs.Text.Lines

/-!
The lines of a text report.  Foreign names, crate names and keys are shown as they are, so
the text has a line for each foreign name and each missing line exactly if none of these
has a line end.  A key may have one where its symbol has none.
-/

namespace SymbolCoverage

open SymbolCoverage.Symbol

/-! ## The lines of a report -/

theorem Symbol.Hash.oneLine_digits (hash : Hash) : OneLine hash.digits := by
  intro hmem
  have hdigit := ((isHashDigits_iff _).mp hash.wellFormed).2 '\n' hmem
  exact absurd hdigit (by decide)

/-- A missing line has the line ends of its crate name and its key. -/
theorem MissingLine.lineEnds_text (line : MissingLine) :
    lineEnds line.text = lineEnds line.source.shortName + lineEnds line.key.display := by
  have hhashes : lineEnds (", ".intercalate (line.hashes.map fun h => "'" ++ h.digits ++ "'")) =
      0 := by
    rw [lineEnds_eq_zero_iff, oneLine_intercalate (by decide), List.forall_mem_map]
    intro hash _
    exact oneLine_append.mpr ⟨oneLine_append.mpr ⟨by decide, hash.oneLine_digits⟩, by decide⟩
  have hcolons : lineEnds "::" = 0 := by decide
  have hopening : lineEnds "->[" = 0 := by decide
  have hclosing : lineEnds "]" = 0 := by decide
  simp only [text, lineEnds_append, hhashes, hcolons, hopening, hclosing]
  omega

theorem MissingLine.oneLine_text_iff {line : MissingLine} :
    OneLine line.text ↔ OneLine line.source.shortName ∧ OneLine line.key.display := by
  simp only [← lineEnds_eq_zero_iff, lineEnds_text, Nat.add_eq_zero_iff]

namespace Report

variable {r : Report}

/-- What the text has on a line each: the foreign names, then the missing lines. -/
def lines (r : Report) : List String := r.foreignList ++ r.missingLines.map (·.text)

theorem length_lines (r : Report) :
    r.lines.length = r.foreignList.length + r.missingLines.length := by
  rw [lines, List.length_append, List.length_map]

theorem text_eq_onLines (r : Report) : r.text = onLines r.lines := by
  rw [text, onLines, lines, List.map_append, String.join_append, List.map_map]
  rfl

theorem lineEnds_text (r : Report) :
    lineEnds r.text = r.foreignList.length + r.missingLines.length +
      ((r.foreignList.map lineEnds).sum +
        (r.missingLines.map fun line =>
          lineEnds line.source.shortName + lineEnds line.key.display).sum) := by
  rw [text_eq_onLines, lineEnds_onLines, length_lines, lines, List.map_append, List.sum_append,
    List.map_map]
  simp only [Function.comp_def, MissingLine.lineEnds_text]

theorem oneLine_lines_iff :
    (∀ text ∈ r.lines, OneLine text) ↔
      (∀ name ∈ r.foreignList, OneLine name) ∧
        ∀ line ∈ r.missingLines, OneLine line.source.shortName ∧ OneLine line.key.display := by
  rw [lines, List.forall_mem_append, List.forall_mem_map]
  simp only [MissingLine.oneLine_text_iff]

end Report

/-! ## The lines of a check -/

variable {parallel : Bool} {documents : List Document} {report : Report}

/-- What the report shows of the document has no line end: its foreign names, and its crate
name and the keys under which it misses something. -/
structure Document.ShownInLines (documents : List Document) (d : Document) : Prop where
  foreign : ∀ name, d.Links name → ¬ opening <+: name.toList → OneLine name
  missing : ∀ entry, d.Misses documents entry → OneLine d.shortName ∧ OneLine entry.1.display

theorem oneLine_lines_of_check (h : check parallel documents = .ok report) :
    (∀ text ∈ report.lines, OneLine text) ↔ ∀ d ∈ documents, d.ShownInLines documents := by
  obtain ⟨index, lists, hindex, hlists, rfl⟩ := check_eq_ok h
  have hrecords := Report.records_ofReferences lists.flatten
  rw [Report.oneLine_lines_iff]
  constructor
  · intro hlines d hd
    refine ⟨fun name hlinks hopened => hlines.1 name ?_, fun entry hmisses => ?_⟩
    · rw [Report.mem_foreignList, hrecords.mem_foreign, foreign_mem_flatten_iff hlists]
      exact ⟨⟨d, hd, hlinks⟩, hopened⟩
    · obtain ⟨key, hash⟩ := entry
      have hmissing := (missing_mem_flatten_iff hindex hlists).mpr ⟨d, hd, rfl, hmisses⟩
      obtain ⟨line, hline, rfl, hsource⟩ := hrecords.exists_line_iff.mpr ⟨hash, hmissing⟩
      have hshown := hlines.2 line hline
      rw [hsource] at hshown
      exact hshown
  · intro hdocuments
    constructor
    · intro name hname
      rw [Report.mem_foreignList, hrecords.mem_foreign, foreign_mem_flatten_iff hlists] at hname
      obtain ⟨⟨d, hd, hlinks⟩, hopened⟩ := hname
      exact (hdocuments d hd).foreign name hlinks hopened
    · intro line hline
      obtain ⟨hash, hmissing⟩ := hrecords.exists_line_iff.mp ⟨line, hline, rfl, rfl⟩
      obtain ⟨d, hd, hid, hmisses⟩ := (missing_mem_flatten_iff hindex hlists).mp hmissing
      rw [← hid]
      exact (hdocuments d hd).missing _ hmisses

/-- The text of a report has a line end for each foreign name and each missing line, and
besides those of the foreign names, the crate names and the keys.  It has no others, and
splits into its lines, exactly if the report shows every document in lines. -/
theorem check_text_lines (h : check parallel documents = .ok report) :
    lineEnds report.text = report.foreignList.length + report.missingLines.length +
      ((report.foreignList.map lineEnds).sum +
        (report.missingLines.map fun line =>
          lineEnds line.source.shortName + lineEnds line.key.display).sum) ∧
      (lineEnds report.text = report.foreignList.length + report.missingLines.length ↔
        ∀ d ∈ documents, d.ShownInLines documents) ∧
      (report.text.toList.splitOn '\n' = report.lines.map String.toList ++ [[]] ↔
        ∀ d ∈ documents, d.ShownInLines documents) := by
  refine ⟨report.lineEnds_text, ?_, ?_⟩
  · rw [← oneLine_lines_of_check h, report.text_eq_onLines, ← report.length_lines,
      lineEnds_onLines_eq_length_iff]
  · rw [← oneLine_lines_of_check h, report.text_eq_onLines, splitOn_onLines_iff]

/-- A crate that links a foreign name, a name that is no symbol though it opens as one, and a
symbol that is not present, whose one segment is a line end. -/
def codingCrate : Document :=
  ⟨⟨"a"⟩, .ofNames [] ["memcpy", "_ZNopen", "_ZN4$ua$17hffffffffffffffffE"]⟩

theorem check_text_lines_codingCrate :
    ∃ report, check true [codingCrate] = .ok report ∧
      report.text = "memcpy\na::\n->['ffffffffffffffff']\na::_ZNopen->[]\n" ∧
      lineEnds report.text = report.foreignList.length + report.missingLines.length +
        ((report.foreignList.map lineEnds).sum +
          (report.missingLines.map fun line =>
            lineEnds line.source.shortName + lineEnds line.key.display).sum) ∧
      (lineEnds report.text = report.foreignList.length + report.missingLines.length ↔
        ∀ d ∈ [codingCrate], d.ShownInLines [codingCrate]) ∧
      (report.text.toList.splitOn '\n' = report.lines.map String.toList ++ [[]] ↔
        ∀ d ∈ [codingCrate], d.ShownInLines [codingCrate]) := by
  obtain ⟨report, hcheck, htext⟩ :=
    @exists_report_of_text true [codingCrate]
      "memcpy\na::\n->['ffffffffffffffff']\na::_ZNopen->[]\n" (by decide +kernel)
  exact ⟨report, hcheck, htext, check_text_lines hcheck⟩

/-- Keys are shown as they are, so a text may have more lines than the report. -/
theorem check_text_lines_splitKey :
    ∃ report,
      check true [⟨⟨"a"⟩, .ofNames [] ["_ZN4$ua$17hffffffffffffffffE"]⟩] = .ok report ∧
      report.text = "a::\n->['ffffffffffffffff']\n" ∧ report.foreignList = [] ∧
      report.missingLines.length = 1 ∧
      lineEnds report.text ≠ report.foreignList.length + report.missingLines.length ∧
      report.text.toList.splitOn '\n' ≠ report.lines.map String.toList ++ [[]] := by
  have hreport : (check true [⟨⟨"a"⟩, .ofNames [] ["_ZN4$ua$17hffffffffffffffffE"]⟩]).toOption.map
      (fun report => (report.text, report.foreignList, report.missingLines.length)) =
        some ("a::\n->['ffffffffffffffff']\n", [], 1) := by
    decide +kernel
  obtain ⟨report, hcheck, hparts⟩ := Option.map_eq_some_iff.mp hreport
  obtain ⟨htext, hforeign, hmissing⟩ : report.text = "a::\n->['ffffffffffffffff']\n" ∧
      report.foreignList = [] ∧ report.missingLines.length = 1 := by
    simpa only [Prod.mk.injEq] using hparts
  have hends : lineEnds report.text ≠ report.foreignList.length + report.missingLines.length := by
    rw [htext, hforeign, hmissing]
    decide
  refine ⟨report, toOption_eq_some.mp hcheck, htext, hforeign, hmissing, hends, ?_⟩
  rw [report.text_eq_onLines] at hends ⊢
  rwa [ne_eq, splitOn_onLines_iff, ← lineEnds_onLines_eq_length_iff, report.length_lines]

/-- A text report splits into its lines if crate names and linked names have no line end,
and linked names no code of one. -/
theorem check_splits_into_lines (h : check parallel documents = .ok report)
    (hcrates : ∀ d ∈ documents, OneLine d.shortName)
    (hlinks : ∀ d ∈ documents, ∀ name, d.Links name → Escape.FreeOfLineEnds name.toList) :
    report.text.toList.splitOn '\n' = report.lines.map String.toList ++ [[]] := by
  rw [report.text_eq_onLines, splitOn_onLines_iff, oneLine_lines_of_check h]
  intro d hd
  refine ⟨fun name hname _ => (hlinks d hd name hname).plain, ?_⟩
  intro entry hmisses
  obtain ⟨name, hname, -, hentry, -⟩ := hmisses
  exact ⟨hcrates d hd, oneLine_display hentry (hlinks d hd name hname)⟩

end SymbolCoverage
