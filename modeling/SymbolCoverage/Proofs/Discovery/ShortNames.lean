import SymbolCoverage.Proofs.Coverage.Outcome
import SymbolCoverage.Proofs.Coverage.Rendering
import SymbolCoverage.Proofs.Discovery.Supplied

/-!
Short names.  A crate is shown by what its file is called less the extension, in the lines
of a report and in failures.  The rest of the path plays no part in it, and neither do the
dots that the crate's name may hold.
-/

namespace SymbolCoverage

variable {path stem : String} {parallel : Bool} {documents : List Document} {d : Document}
variable {failure : Failure}

/-! ## Stems -/

/-- The extension has two dots, and only what follows the last one is cut off.  Its first dot
stands in front of that, so no stem is empty. -/
theorem Disk.stem_extended (stem : String) :
    Disk.stem (stem ++ ".smir.json") = stem ++ ".smir" := by
  have hreverse : (stem ++ ".smir.json").toList.reverse =
      ['n', 'o', 's', 'j'] ++ '.' :: (stem ++ ".smir").toList.reverse := by
    rw [String.toList_append, String.toList_append, List.reverse_append, List.reverse_append]
    rfl
  have hlast : (stem ++ ".smir.json").toList.reverse.dropWhile (· != '.') =
      '.' :: (stem ++ ".smir").toList.reverse := by
    rw [hreverse, List.dropWhile_append_of_pos (by simp), List.dropWhile_cons_of_neg (by decide)]
  have hempty : (stem ++ ".smir").toList.reverse ≠ [] := by
    rw [String.toList_append, List.reverse_append]
    exact List.append_ne_nil_of_left_ne_nil (by decide) _
  simp only [Disk.stem, hlast, if_neg hempty, List.reverse_reverse, String.ofList_toList]

theorem CrateId.shortName_of_fileName (h : Disk.fileName? path = some (stem ++ ".smir.json")) :
    (CrateId.mk path).shortName = stem := by
  have hback : stemSuffix.isSuffixOf? (stem ++ ".smir").toList = some stem.toList :=
    List.isSuffixOf?_eq_some_iff_append_eq.mpr String.toList_append.symm
  simp only [CrateId.shortName, h, Disk.stem_extended, hback, String.ofList_toList]

/-! ## Failures of documents -/

/-- How a document fails a check, by an item or by an entry of its function table. -/
inductive Document.Fails (d : Document) : Failure → Prop
  | item {symbol : String} {cause : Symbol.MalformedSymbol} : symbol ∈ d.metadata.items →
    Symbol.decode symbol = .error cause → Fails d (.malformedSymbol d.shortName cause)
  | entry {f : FunctionEntry} {position : Nat} {failure : Failure} : f ∈ d.metadata.functions →
    f.Fails d.shortName position failure → Fails d failure

theorem check_fails (h : check parallel documents = .error failure) :
    (∃ d ∈ documents, d.Fails failure) ∨
      ∃ distinct indexed, failure = .integrityViolation distinct indexed := by
  obtain ⟨d, hd, symbol, hsymbol, cause, hcause, rfl⟩ | ⟨d, hd, f, hf, position, hfails⟩ |
    haccounts := check_error_cases h
  · exact .inl ⟨d, hd, .item hsymbol hcause⟩
  · exact .inl ⟨d, hd, .entry hf hfails⟩
  · exact .inr haccounts

theorem Document.Fails.message (h : d.Fails failure) :
    failure.message = "malformed symbol in crate '" ++ d.shortName ++ "'" ∨
      failure.message = "ill-formed functions table in crate '" ++ d.shortName ++ "'" := by
  cases h with
  | item => exact .inl rfl
  | entry _ hfails =>
    cases hfails with
    | faulty => exact .inr rfl
    | malformed => exact .inl rfl

/-! ## Names in paths and names in print -/

namespace Discovery

variable {library : Text.PatternLibrary} {pattern : NamePattern} {crate : String}

/-- How a crate is shown whose document is at a path.  The pattern is that of the crate's
name. -/
structure ShownAs (crate : String) (pattern : NamePattern) (path stem : String) : Prop where
  is_stem : IsStemOf crate stem
  file_name : Disk.fileName? path = some (stem ++ ".smir.json")
  anywhere : ∀ path', Disk.EndsIn path'.toList (stem ++ ".smir.json").toList →
    pattern.matchesPath path' = true ∧ (CrateId.mk path').shortName = stem
  loaded : ∀ disk d, load disk path = .ok d → d.id = ⟨path⟩ ∧ d.shortName = stem
  line_text : ∀ line : MissingLine, line.source = ⟨path⟩ →
    ∃ rest, line.text = stem ++ "::" ++ rest
  line_value : ∀ line : MissingLine, line.source = ⟨path⟩ →
    ∃ rest, Report.toValue.line line = .object (("crate", .string stem) :: rest)
  failures : ∀ parallel documents failure, check parallel documents = .error failure →
    (∃ d ∈ documents, d.Fails failure ∧ (d.id = ⟨path⟩ →
      failure.message = "malformed symbol in crate '" ++ stem ++ "'" ∨
        failure.message = "ill-formed functions table in crate '" ++ stem ++ "'")) ∨
      ∃ distinct indexed, failure = .integrityViolation distinct indexed

theorem load_id {disk : Disk} (h : load disk path = .ok d) : d.id = ⟨path⟩ := by
  cases load_eq_ok_iff.mp h
  rfl

/-- What is found by a crate's name is shown by that name, with the hash of its file. -/
theorem shownAs_shortName (hlibrary : library.Documented)
    (hpattern : NamePattern.compile library crate = .ok pattern)
    (h : pattern.matchesPath path = true) :
    ShownAs crate pattern path (CrateId.mk path).shortName := by
  have hmatches : ∀ path, pattern.matchesPath path = true ↔ PathNamesCrate crate path :=
    fun _ => NamePattern.matchesPath_iff hlibrary hpattern
  obtain ⟨_, hfile, stem, hstem, rfl⟩ := (hmatches path).mp h
  have hname := (Disk.fileName?_eq_some_iff.mp hfile).1
  have hshort : (CrateId.mk path).shortName = stem := CrateId.shortName_of_fileName hfile
  rw [hshort]
  refine ⟨hstem, hfile, ?_, ?_, ?_, ?_, ?_⟩
  · intro path' hpath'
    have hfile' := Disk.fileName?_eq_some_iff.mpr ⟨hname, hpath'⟩
    exact ⟨(hmatches path').mpr ⟨_, hfile', stem, hstem, rfl⟩,
      CrateId.shortName_of_fileName hfile'⟩
  · intro disk d hd
    have hid := load_id hd
    exact ⟨hid, by rw [Document.shortName, hid, hshort]⟩
  · intro line hline
    rw [MissingLine.text, hline, hshort, String.append_assoc, String.append_assoc,
      String.append_assoc]
    exact ⟨_, rfl⟩
  · intro line hline
    rw [Report.toValue.line, hline, hshort]
    exact ⟨_, rfl⟩
  · intro parallel documents failure hfailure
    obtain ⟨d, hd, hfails⟩ | haccounts := check_fails hfailure
    · refine .inl ⟨d, hd, hfails, fun hid => ?_⟩
      rw [← hshort, ← hid]
      exact hfails.message
    · exact .inr haccounts

/-- A crate's name with a part like the extension, and a directory behind the file. -/
theorem shownAs_shortName_dotted :
    Text.defaultLibrary.Documented ∧
      ∃ pattern, NamePattern.compile Text.defaultLibrary "a.smir" = .ok pattern ∧
        pattern.matchesPath "out/a.smir-1f.smir.json/." = true ∧
        ShownAs "a.smir" pattern "out/a.smir-1f.smir.json/." "a.smir-1f" := by
  have hlibrary : Text.defaultLibrary.Documented := Text.backtracking_documented _
  obtain ⟨pattern, hpattern⟩ : ∃ pattern, NamePattern.compile Text.defaultLibrary "a.smir" =
      .ok pattern := NamePattern.exists_compile_backtracking (by decide +kernel)
  have hmatches : pattern.matchesPath "out/a.smir-1f.smir.json/." = true :=
    (NamePattern.matchesPath_iff hlibrary hpattern).mpr (by decide)
  have hshort : (CrateId.mk "out/a.smir-1f.smir.json/.").shortName = "a.smir-1f" := by decide
  exact ⟨hlibrary, pattern, hpattern, hmatches,
    hshort ▸ shownAs_shortName hlibrary hpattern hmatches⟩

end Discovery

end SymbolCoverage
