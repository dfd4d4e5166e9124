import SymbolCoverage.Discovery.Search
import SymbolCoverage.Disk.Tree
import SymbolCoverage.Proofs.Discovery.Failing
import SymbolCoverage.Proofs.Symbol.Order

/-!
Searching a directory.  Once the name of the crate is compiled, the candidates decide alone:
the only one is found if it names the crate, and everything else is a failure.  Neither the
order of the listing nor the content of any file matters.
-/

namespace SymbolCoverage.Discovery

variable {library : Text.PatternLibrary} {disk disk' : Disk} {pattern : NamePattern}
variable {crate directory path name : String} {names names' : List String}

/-! ## Candidates of a listing -/

/-- The entries that could belong to the crate, in the order of the listing. -/
def candidateEntries (crate : String) (names : List String) : List String :=
  names.filter fun name => crate.toList <+: name.toList ∧ ".smir.json".toList <:+ name.toList

theorem mem_candidateEntries_iff :
    name ∈ candidateEntries crate names ↔ name ∈ names ∧ isCandidate crate name = true := by
  rw [candidateEntries, List.mem_filter, decide_eq_true_eq, isCandidate_iff]

theorem perm_candidates (crate : String) (names : List String) :
    (candidates crate names).Perm (candidateEntries crate names) := by
  have hfilter : names.filter (isCandidate crate) = candidateEntries crate names := by
    refine List.filter_congr fun name _ => ?_
    rw [Bool.eq_iff_iff, isCandidate_iff, decide_eq_true_eq]
  rw [candidates, hfilter]
  exact List.mergeSort_perm _ _

theorem isLE_compare_iff {s t : String} : (compare s t).isLE = true ↔ s ≤ t := by
  rw [Ordering.isLE_iff_ne_gt, Std.OrientedCmp.gt_iff_lt, Symbol.compare_string_eq_lt]
  exact String.not_lt

theorem candidates_ascending (crate : String) (names : List String) :
    (candidates crate names).Pairwise (· ≤ ·) := by
  refine List.Pairwise.imp isLE_compare_iff.mp (List.pairwise_mergeSort ?_ ?_ _)
  · exact fun _ _ _ => Std.TransCmp.isLE_trans
  · intro s t
    rw [Bool.or_eq_true, isLE_compare_iff, isLE_compare_iff]
    exact String.le_total s t

/-- The order of a listing gets lost. -/
theorem candidates_congr (h : names'.Perm names) :
    candidates crate names' = candidates crate names := by
  -- Two sorted lists of the same names are equal.
  refine List.Perm.eq_of_pairwise (fun _ _ _ _ => String.le_antisymm)
    (candidates_ascending crate names') (candidates_ascending crate names) ?_
  exact (perm_candidates crate names').trans ((h.filter _).trans (perm_candidates crate names).symm)

/-! ## The search -/

/-- An only candidate is found if it names the crate, behind the path of the directory. -/
theorem pathNamesCrate_join (hslash : '/' ∉ name.toList)
    (hcandidate : isCandidate crate name = true) :
    PathNamesCrate crate (Disk.join directory name) ↔ NamesCrate crate name := by
  -- The extension alone is longer than the names that are no file names.
  have hlong : 10 ≤ name.toList.length := (isCandidate_iff.mp hcandidate).2.length_le
  have hname : Disk.IsFileName name := by
    refine ⟨?_, ?_, ?_, hslash⟩
    all_goals
      rintro rfl
      exact absurd hlong (by decide)
  rw [PathNamesCrate, Disk.fileName?_join hname]
  simp only [Option.some.injEq, exists_eq_left']

theorem search_of_no_candidate (hnames : disk.entries directory = .ok names)
    (h : candidates pattern.crate names = []) :
    search disk pattern directory = .error (.noCandidates pattern.crate directory) := by
  rw [search, hnames]
  simp only [h, List.map_nil]

theorem search_of_candidate (hnames : disk.entries directory = .ok names)
    (h : candidates pattern.crate names = [name]) :
    search disk pattern directory =
      if pattern.matchesPath (Disk.join directory name) then .ok (Disk.join directory name)
      else .error (.noCandidates pattern.crate directory) := by
  rw [search, hnames]
  simp only [h, List.map_cons, List.map_nil]

theorem search_of_candidates (hnames : disk.entries directory = .ok names)
    (h : 2 ≤ (candidates pattern.crate names).length) :
    search disk pattern directory =
      .error (.ambiguous pattern.crate
        ((candidates pattern.crate names).map (Disk.join directory))) := by
  rw [← List.length_map (Disk.join directory)] at h
  rw [search, hnames]
  dsimp only
  split
  next hnone => simp [hnone] at h
  next hone => simp [hone] at h
  next => rfl

theorem search_congr (hnames : disk.entries directory = .ok names)
    (hnames' : disk'.entries directory = .ok names') (hperm : names'.Perm names) :
    search disk' pattern directory = search disk pattern directory := by
  rw [search, search, hnames, hnames']
  simp only [candidates_congr hperm]

/-! ## The document that is found -/

theorem discover_searched (h : NamePattern.compile library crate = .ok pattern) (disk : Disk)
    (directory : String) :
    discover library disk ⟨crate, [], directory⟩ =
      (search disk pattern directory).bind fun path => (load disk path).map ([·]) := by
  have hdiscover : discover library disk ⟨crate, [], directory⟩ =
      (search disk pattern directory).bind fun path => (load disk path).bind fun d => .ok [d] := by
    rw [discover, h]
    rfl
  rw [hdiscover]
  cases search disk pattern directory with
  | error cause => rfl
  | ok path =>
    show (load disk path).bind _ = (load disk path).map _
    cases load disk path with
    | error cause => rfl
    | ok d => rfl

theorem load_congr (h : disk'.read path = disk.read path) : load disk' path = load disk path := by
  rw [load, load, h]

/-- How a search ends, by the entries of the directory, and how a discovery follows it. -/
structure SearchOutcome (library : Text.PatternLibrary) (disk : Disk) (crate : String)
    (pattern : NamePattern) (directory : String) (names : List String) : Prop where
  no_candidate : candidateEntries crate names = [] →
    search disk pattern directory = .error (.noCandidates crate directory)
  other_candidate : ∀ name, candidateEntries crate names = [name] → ¬ NamesCrate crate name →
    search disk pattern directory = .error (.noCandidates crate directory)
  one_candidate : ∀ name, candidateEntries crate names = [name] → NamesCrate crate name →
    search disk pattern directory = .ok (Disk.join directory name)
  several_candidates : 2 ≤ (candidateEntries crate names).length →
    ∃ sorted : List String, sorted.Perm (candidateEntries crate names) ∧ sorted.Pairwise (· ≤ ·) ∧
      search disk pattern directory =
        .error (.ambiguous crate (sorted.map (Disk.join directory)))
  any_order : ∀ disk' names', disk'.entries directory = .ok names' → names'.Perm names →
    search disk' pattern directory = search disk pattern directory
  failure : ∀ cause, search disk pattern directory = .error cause →
    discover library disk ⟨crate, [], directory⟩ = .error cause
  loads : ∀ path, search disk pattern directory = .ok path →
    discover library disk ⟨crate, [], directory⟩ = (load disk path).map ([·])
  reads_nothing_else : ∀ path disk' names', search disk pattern directory = .ok path →
    disk'.entries directory = .ok names' → names'.Perm names → disk'.read path = disk.read path →
      discover library disk' ⟨crate, [], directory⟩ = discover library disk ⟨crate, [], directory⟩
  named_among : ∀ name ∈ names, NamesCrate crate name → name ∈ candidateEntries crate names

theorem searchOutcome_of_compile (hlibrary : library.Documented)
    (hpattern : NamePattern.compile library crate = .ok pattern)
    (hnames : disk.entries directory = .ok names) (hslash : ∀ name ∈ names, '/' ∉ name.toList) :
    SearchOutcome library disk crate pattern directory names := by
  have hcrate := NamePattern.crate_of_compile hpattern
  have hperm := perm_candidates crate names
  have hone : ∀ name, candidateEntries crate names = [name] →
      candidates crate names = [name] ∧
        (pattern.matchesPath (Disk.join directory name) = true ↔ NamesCrate crate name) := by
    intro name hname
    have hmem : name ∈ candidateEntries crate names := hname ▸ List.mem_singleton_self name
    rw [mem_candidateEntries_iff] at hmem
    rw [hname, List.perm_singleton] at hperm
    rw [NamePattern.matchesPath_iff hlibrary hpattern]
    exact ⟨hperm, pathNamesCrate_join (hslash name hmem.1) hmem.2⟩
  refine ⟨?_, ?_, ?_, ?_, ?_, ?_, ?_, ?_, ?_⟩
  · intro hnone
    rw [hnone, List.perm_nil, ← hcrate] at hperm
    rw [search_of_no_candidate hnames hperm, hcrate]
  · intro name hname hother
    obtain ⟨hcandidate, hmatches⟩ := hone name hname
    rw [← hcrate] at hcandidate
    rw [search_of_candidate hnames hcandidate, if_neg fun h => hother (hmatches.mp h), hcrate]
  · intro name hname hnamed
    obtain ⟨hcandidate, hmatches⟩ := hone name hname
    rw [← hcrate] at hcandidate
    rw [search_of_candidate hnames hcandidate, if_pos (hmatches.mpr hnamed)]
  · intro hseveral
    refine ⟨_, hperm, candidates_ascending crate names, ?_⟩
    rw [← hperm.length_eq, ← hcrate] at hseveral
    rw [search_of_candidates hnames hseveral, hcrate]
  · exact fun _ _ hnames' => search_congr hnames hnames'
  · intro cause hcause
    rw [discover_searched hpattern, hcause]
    rfl
  · intro path hpath
    rw [discover_searched hpattern, hpath]
    rfl
  · intro path disk' names' hpath hnames' hperm' hread
    rw [discover_searched hpattern, discover_searched hpattern, search_congr hnames hnames' hperm',
      hpath]
    show (load disk' path).map _ = (load disk path).map _
    rw [load_congr hread]
  · intro name hmem hnamed
    exact mem_candidateEntries_iff.mpr ⟨hmem, hnamed.isCandidate⟩

/-- The name of the crate is compiled or refused.  Once it is compiled, a search goes by the
names of the entries alone, in which no slash can stand. -/
theorem search_outcome (hlibrary : library.Documented)
    (hnames : disk.entries directory = .ok names) (hslash : ∀ name ∈ names, '/' ∉ name.toList) :
    (∀ cause, NamePattern.compile library crate = .error cause →
      (∃ fault, cause = .invalidName crate fault) ∧
        ∀ disk', discover library disk' ⟨crate, [], directory⟩ = .error cause) ∧
    ∀ pattern, NamePattern.compile library crate = .ok pattern →
      SearchOutcome library disk crate pattern directory names :=
  ⟨fun _ h => @discover_refused _ ⟨crate, [], directory⟩ _ h,
    fun _ h => searchOutcome_of_compile hlibrary h hnames hslash⟩

/-- Two files and a directory, with two names that begin alike. -/
def sharedDirectory : Disk :=
  (Disk.Tree.ofPaths
    [("out/foobar.smir.json/x", .file .empty), ("out/foo.smir.json", .file .empty),
      ("out/foo-1A.json", .file .empty)]).disk

/-- A second candidate makes a crate ambiguous even where its own file is there, and an only
candidate may still name another crate.  A name without end is refused. -/
theorem search_outcome_sharedDirectory :
    (∃ pattern, NamePattern.compile Text.defaultLibrary "foo" = .ok pattern ∧
      search sharedDirectory pattern "out" =
        .error (.ambiguous "foo" ["out/foo.smir.json", "out/foobar.smir.json"])) ∧
    (∃ pattern, NamePattern.compile Text.defaultLibrary "foobar" = .ok pattern ∧
      search sharedDirectory pattern "out" = .ok "out/foobar.smir.json") ∧
    (∃ pattern, NamePattern.compile Text.defaultLibrary "foob" = .ok pattern ∧
      search sharedDirectory pattern "out" = .error (.noCandidates "foob" "out")) ∧
    discover Text.defaultLibrary sharedDirectory ⟨NamePattern.endlessName, [], "out"⟩ =
      .error (.invalidName NamePattern.endlessName (.tooLarge Text.defaultSizeLimit)) := by
  have hnames : sharedDirectory.entries "out" =
      .ok ["foobar.smir.json", "foo.smir.json", "foo-1A.json"] := rfl
  have houtcome : ∀ crate, (NamePattern.expression crate).need ≤ Text.defaultSizeLimit →
      ∃ pattern, NamePattern.compile Text.defaultLibrary crate = .ok pattern ∧
        SearchOutcome Text.defaultLibrary sharedDirectory crate pattern "out"
          ["foobar.smir.json", "foo.smir.json", "foo-1A.json"] := by
    intro crate hneed
    obtain ⟨pattern, hpattern⟩ := NamePattern.exists_compile_backtracking hneed
    exact ⟨pattern, hpattern,
      (search_outcome (Text.backtracking_documented _) hnames (by decide)).2 pattern hpattern⟩
  refine ⟨?_, ?_, ?_, ?_⟩
  · obtain ⟨pattern, hpattern, hfoo⟩ := houtcome "foo" (by decide +kernel)
    obtain ⟨sorted, hperm, hsorted, hsearch⟩ := hfoo.several_candidates (by decide)
    have hcandidates : sorted = ["foo.smir.json", "foobar.smir.json"] := by
      refine List.Perm.eq_of_pairwise (fun _ _ _ _ => String.le_antisymm) hsorted (by decide) ?_
      exact hperm.trans (List.Perm.swap ..)
    refine ⟨pattern, hpattern, ?_⟩
    rw [hsearch, hcandidates]
    decide
  · obtain ⟨pattern, hpattern, hfoobar⟩ := houtcome "foobar" (by decide +kernel)
    exact ⟨pattern, hpattern, hfoobar.one_candidate "foobar.smir.json" (by decide) (by decide)⟩
  · obtain ⟨pattern, hpattern, hfoob⟩ := houtcome "foob" (by decide +kernel)
    exact ⟨pattern, hpattern, hfoob.other_candidate "foobar.smir.json" (by decide) (by decide)⟩
  · have hrefused := (search_outcome (Text.backtracking_documented _) hnames (by decide)).1 _
      NamePattern.compile_endlessName
    exact hrefused.2 sharedDirectory

end SymbolCoverage.Discovery
