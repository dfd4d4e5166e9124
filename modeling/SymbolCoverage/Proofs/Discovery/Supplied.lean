import SymbolCoverage.Disk.Tree
import SymbolCoverage.Proofs.Discovery.Failing
import SymbolCoverage.Proofs.Discovery.Naming

/-!
Supplied files.  Once the name of the crate is compiled, how many of the files name the crate
is settled before anything is read.  If it is one, all files are loaded in supply order, and
the first one that cannot be loaded ends the discovery.
-/

namespace SymbolCoverage.Discovery

variable {library : Text.PatternLibrary} {disk : Disk} {pattern : NamePattern} {request : Request}
variable {path : String}

/-! ## Supplied files -/

/-- The supplied files that name the crate, in supply order. -/
def Request.named (request : Request) : List String :=
  request.files.filter fun path => PathNamesCrate request.crateName path

theorem Request.filter_matchesPath (hlibrary : library.Documented)
    (h : NamePattern.compile library request.crateName = .ok pattern) :
    request.files.filter pattern.matchesPath = request.named := by
  refine List.filter_congr fun path _ => ?_
  rw [Bool.eq_iff_iff, NamePattern.matchesPath_iff hlibrary h, decide_eq_true_eq]

theorem checkFiles_of_none (h : request.files.filter pattern.matchesPath = []) :
    checkFiles pattern request.files = .error (.noCandidates pattern.crate request.fileCount) := by
  rw [checkFiles, h]
  rfl

theorem checkFiles_of_one (h : request.files.filter pattern.matchesPath = [path]) :
    checkFiles pattern request.files = .ok () := by
  rw [checkFiles, h]

theorem checkFiles_of_several (h : 2 ≤ (request.files.filter pattern.matchesPath).length) :
    checkFiles pattern request.files =
      .error (.ambiguous pattern.crate (request.files.filter pattern.matchesPath)) := by
  rw [checkFiles]
  split
  next hnone => simp [hnone] at h
  next hone => simp [hone] at h
  next => rfl

theorem discover_supplied (h : NamePattern.compile library request.crateName = .ok pattern)
    (hfiles : request.files ≠ []) (disk : Disk) :
    discover library disk request =
      (checkFiles pattern request.files).bind
        fun _ => collect (request.files.map (load disk)) := by
  rw [← mapM_eq_collect, discover, h]
  exact if_neg hfiles

/-- How a discovery among supplied files ends. -/
structure SupplyOutcome (library : Text.PatternLibrary) (disk : Disk) (request : Request) :
    Prop where
  none_named : request.named.length = 0 → ∀ disk', discover library disk' request =
    .error (.noCandidates request.crateName s!"{request.files.length} supplied file(s)")
  several_named : 2 ≤ request.named.length → ∀ disk', discover library disk' request =
    .error (.ambiguous request.crateName request.named)
  one_named : request.named.length = 1 →
    (∃ documents, discover library disk request = .ok documents ∧
      List.Forall₂ (fun path d => Loads disk path d ∧ d.id.source = path)
        request.files documents) ∨
      ∃ before path cause,
        IsFirst (fun path => ∃ cause, FailsToLoad disk path cause) request.files before path ∧
          FailsToLoad disk path cause ∧
            ((∃ e, cause = .unreadable path e) ∨ ∃ e, cause = .invalidDocument path e) ∧
              discover library disk request = .error cause

theorem supplyOutcome_of_compile (hlibrary : library.Documented)
    (hpattern : NamePattern.compile library request.crateName = .ok pattern)
    (hfiles : request.files ≠ []) (disk : Disk) : SupplyOutcome library disk request := by
  have hcrate := NamePattern.crate_of_compile hpattern
  have hnamed := Request.filter_matchesPath hlibrary hpattern
  refine ⟨?_, ?_, ?_⟩
  · intro hnone disk'
    rw [← hnamed] at hnone
    rw [discover_supplied hpattern hfiles,
      checkFiles_of_none (List.eq_nil_of_length_eq_zero hnone), hcrate]
    rfl
  · intro hseveral disk'
    rw [← hnamed] at hseveral
    rw [discover_supplied hpattern hfiles, checkFiles_of_several hseveral, hcrate, hnamed]
    rfl
  · intro hone
    rw [← hnamed] at hone
    obtain ⟨path, hpath⟩ := List.length_eq_one_iff.mp hone
    have hdiscover : discover library disk request = collect (request.files.map (load disk)) := by
      rw [discover_supplied hpattern hfiles, checkFiles_of_one hpath]
      rfl
    rw [hdiscover]
    obtain ⟨documents, hloads, hcollect⟩ | ⟨before, path, cause, hfirst, hcause, hcollect⟩ :=
      collect_loads_or_fails disk request.files
    · refine .inl ⟨documents, hcollect, hloads.imp fun path d hd => ⟨hd, ?_⟩⟩
      cases hd
      rfl
    · exact .inr ⟨before, path, cause, hfirst, hcause, hcause.unreadable_or_invalid, hcollect⟩

/-- The name of the crate is compiled or refused.  Once it is compiled, files are counted by
their names first.  Then all are loaded, or the first failure is returned. -/
theorem supply_outcome (hlibrary : library.Documented) (hfiles : request.files ≠ [])
    (disk : Disk) :
    (∀ cause, NamePattern.compile library request.crateName = .error cause →
      (∃ fault, cause = .invalidName request.crateName fault) ∧
        ∀ disk', discover library disk' request = .error cause) ∧
    ((∃ pattern, NamePattern.compile library request.crateName = .ok pattern) →
      SupplyOutcome library disk request) := by
  refine ⟨fun _ => discover_refused, fun hcompiles => ?_⟩
  obtain ⟨pattern, hpattern⟩ := hcompiles
  exact supplyOutcome_of_compile hlibrary hpattern hfiles disk

/-- Two documents, one of them in a directory. -/
def twoDocuments : Disk :=
  (Disk.Tree.ofPaths
    [("main.smir.json", .file "\x7b\"items\":[],\"functions\":[]\x7d".toUTF8),
      ("deps/dep-1f.smir.json", .file
        "\x7b\"items\":[\x7b\"symbol_name\":\"a\"\x7d],\"functions\":[]\x7d".toUTF8)]).disk

/-- A file of another crate is supplied twice, and loaded twice. -/
def repeatedRequest : Request :=
  ⟨"main", ["deps/dep-1f.smir.json", "main.smir.json", "deps/dep-1f.smir.json"], "."⟩

/-- A file that names the crate counts twice if it is supplied twice.  A name without end is
refused, whatever is supplied. -/
theorem supply_outcome_repeatedRequest :
    SupplyOutcome Text.defaultLibrary twoDocuments repeatedRequest ∧
      repeatedRequest.named = ["main.smir.json"] ∧
      discover Text.defaultLibrary twoDocuments repeatedRequest = .ok
        [⟨⟨"deps/dep-1f.smir.json"⟩, ⟨["a"], []⟩⟩, ⟨⟨"main.smir.json"⟩, ⟨[], []⟩⟩,
          ⟨⟨"deps/dep-1f.smir.json"⟩, ⟨["a"], []⟩⟩] ∧
      (∀ disk, discover Text.defaultLibrary disk
          ⟨"main", ["main.smir.json", "gone", "main.smir.json"], "."⟩ =
        .error (.ambiguous "main" ["main.smir.json", "main.smir.json"])) ∧
      ∀ disk, discover Text.defaultLibrary disk
          ⟨NamePattern.endlessName, ["x.smir.json"], "."⟩ =
        .error (.invalidName NamePattern.endlessName (.tooLarge Text.defaultSizeLimit)) := by
  have hlibrary : Text.defaultLibrary.Documented := Text.backtracking_documented _
  have hcompiles : ∃ pattern, NamePattern.compile Text.defaultLibrary "main" = .ok pattern :=
    NamePattern.exists_compile_backtracking (by decide +kernel)
  refine ⟨(supply_outcome hlibrary (by decide) twoDocuments).2 hcompiles, by decide,
    by decide +kernel, ?_, ?_⟩
  · intro disk
    have houtcome := @supply_outcome _ ⟨"main", ["main.smir.json", "gone", "main.smir.json"], "."⟩
      hlibrary (by decide) disk
    exact (houtcome.2 hcompiles).several_named (by decide) disk
  · intro disk
    have houtcome := @supply_outcome _ ⟨NamePattern.endlessName, ["x.smir.json"], "."⟩ hlibrary
      (List.cons_ne_nil _ _) disk
    exact (houtcome.1 _ NamePattern.compile_endlessName).2 disk

end SymbolCoverage.Discovery
