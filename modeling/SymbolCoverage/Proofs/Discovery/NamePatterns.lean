import SymbolCoverage.Proofs.Discovery.Naming
import SymbolCoverage.Proofs.Text.Backtracking

/-!
Name patterns.  The names of a crate's files have a regular expression, in which the crate's
name and the extension are escaped.  Compiled by any library that behaves as documented, it
tells the same names apart as the comparison of texts does.
-/

namespace SymbolCoverage.Discovery

open Text (Pattern PatternLibrary)

namespace NamePattern

variable {library : PatternLibrary} {crate file path : String} {pattern : NamePattern}
variable {cause : Error}

/-! ## The regular expression -/

def extensionPattern : Pattern := .literal ".smir.json" (.textEnd .nothing)

def hashPattern : Pattern := .plain '-' (.someOf [('a', 'z'), ('0', '9')] .nothing)

/-- The regular expression, item by item. -/
def expression (crate : String) : Pattern :=
  .textStart (.literal crate (.optional hashPattern extensionPattern))

theorem text_expression (library : PatternLibrary) (crate : String) :
    (expression crate).text library.escape = source library crate := by
  have hranges : (String.join ([('a', 'z'), ('0', '9')].map Pattern.rangeText)).toList =
      "a-z0-9".toList := by decide
  have htail : "(?:-[a-z0-9]+)?".toList = "(?:".toList ++
      (['-'] ++ ("[".toList ++ ("a-z0-9".toList ++ "]+".toList)) ++ ")?".toList) := by
    decide
  apply String.toList_injective
  simp only [expression, hashPattern, extensionPattern, source, Pattern.text, String.toList_append,
    String.toList_ofList, List.append_assoc, hranges, htail]
  rfl

theorem wellFormed_expression (crate : String) : (expression crate).WellFormed := by
  refine ⟨⟨by decide, by decide, ?_, trivial⟩, trivial⟩
  decide

theorem matches_extensionPattern_iff {before part after : List Char} :
    extensionPattern.Matches before part after ↔ part = extension ∧ after = [] := by
  simp only [extensionPattern, Pattern.Matches]
  constructor
  · rintro ⟨_, rfl, rfl, rfl, -⟩
    exact ⟨List.append_nil _, rfl⟩
  · rintro ⟨rfl, rfl⟩
    exact ⟨[], (List.append_nil _).symm, rfl, rfl, rfl⟩

theorem matches_hashPattern_iff {before part after : List Char} :
    hashPattern.Matches before part after ↔
      ∃ hash, hash ≠ [] ∧ (∀ c ∈ hash, HashChar c) ∧ part = '-' :: hash := by
  have hranges : ∀ c, Text.InRanges [('a', 'z'), ('0', '9')] c ↔ HashChar c := by
    intro c
    simp only [Text.InRanges, List.exists_mem_cons_iff, List.not_mem_nil, false_and, exists_const,
      or_false]
    rfl
  simp only [hashPattern, Pattern.Matches, hranges]
  constructor
  · rintro ⟨_, rfl, hash, _, hempty, hall, rfl, rfl⟩
    exact ⟨hash, hempty, hall, by rw [List.append_nil]⟩
  · rintro ⟨hash, hempty, hall, rfl⟩
    exact ⟨hash, rfl, hash, [], hempty, hall, (List.append_nil _).symm, rfl⟩

/-- Behind the crate's name there is room for a hash and the extension only. -/
theorem matches_tail_iff {before part after : List Char} :
    (Pattern.optional hashPattern extensionPattern).Matches before part after ↔
      ∃ tail, isHashTail tail = true ∧ part = tail ++ extension ∧ after = [] := by
  simp only [Pattern.Matches, matches_extensionPattern_iff, matches_hashPattern_iff, isHashTail_iff]
  constructor
  · rintro (⟨rfl, rfl⟩ | ⟨tail, _, rfl, hhash, rfl, rfl⟩)
    · exact ⟨[], .inl rfl, rfl, rfl⟩
    · exact ⟨tail, .inr hhash, rfl, rfl⟩
  · rintro ⟨tail, rfl | hhash, rfl, rfl⟩
    · exact .inl ⟨rfl, rfl⟩
    · exact .inr ⟨tail, extension, rfl, hhash, rfl, rfl⟩

/-- The anchors leave no room for anything around the name. -/
theorem occurs_expression_iff : (expression crate).Occurs file ↔ NamesCrate crate file := by
  rw [← nameMatches_iff, nameMatches_iff_exists_tail]
  simp only [Pattern.Occurs, expression, Pattern.Matches]
  constructor
  · rintro ⟨_, _, after, hfile, rfl, _, rfl, hbehind⟩
    obtain ⟨tail, htail, rfl, rfl⟩ := matches_tail_iff.mp hbehind
    exact ⟨tail, htail, by rw [hfile, List.nil_append, List.append_nil, List.append_assoc]⟩
  · rintro ⟨tail, htail, hfile⟩
    refine ⟨[], file.toList, [], (List.append_nil _).symm, rfl, tail ++ extension, ?_, ?_⟩
    · rw [hfile, List.append_assoc]
    · exact matches_tail_iff.mpr ⟨tail, htail, rfl, rfl⟩

/-! ## Compiled tests -/

theorem compile_eq_ok_iff :
    compile library crate = .ok pattern ↔
      ∃ test, library.compile (source library crate) = .ok test ∧ pattern = ⟨crate, test⟩ := by
  rw [compile]
  cases library.compile (source library crate) with
  | error fault => simp
  | ok test => simp [eq_comm]

theorem compile_eq_error_iff :
    compile library crate = .error cause ↔
      ∃ fault, library.compile (source library crate) = .error fault ∧
        cause = .invalidName crate fault := by
  rw [compile]
  cases library.compile (source library crate) with
  | error fault => simp [eq_comm]
  | ok test => simp

theorem crate_of_compile (h : compile library crate = .ok pattern) : pattern.crate = crate := by
  obtain ⟨test, -, rfl⟩ := compile_eq_ok_iff.mp h
  rfl

theorem test_iff (hlibrary : library.Documented) (h : compile library crate = .ok pattern) :
    pattern.test file = true ↔ NamesCrate crate file := by
  obtain ⟨test, htest, rfl⟩ := compile_eq_ok_iff.mp h
  rw [← text_expression] at htest
  rw [← occurs_expression_iff]
  exact hlibrary _ (wellFormed_expression crate) test htest file

theorem matchesPath_iff (hlibrary : library.Documented)
    (h : compile library crate = .ok pattern) :
    pattern.matchesPath path = true ↔ PathNamesCrate crate path := by
  rw [matchesPath, Option.any_eq_true]
  simp only [test_iff hlibrary h]
  rfl

/-! ## Compilation by trying -/

variable {sizeLimit : Nat}

/-- A name takes its room in the regular expression. -/
theorem length_le_need (crate : String) :
    Text.bytesPerByte * crate.length ≤ (expression crate).need := by
  refine Nat.mul_le_mul_left _ (Nat.le_trans (Text.length_le_utf8Length_escaped crate) ?_)
  simp only [expression, Pattern.text, String.toList_append, Text.utf8Length_append]
  omega

theorem exists_compile_backtracking (h : (expression crate).need ≤ sizeLimit) :
    ∃ pattern, compile (Text.backtracking sizeLimit) crate = .ok pattern := by
  rw [compile, ← text_expression, Text.backtracking_compile (wellFormed_expression crate) h]
  exact ⟨_, rfl⟩

theorem compile_backtracking_large (h : sizeLimit < (expression crate).need) :
    compile (Text.backtracking sizeLimit) crate =
      .error (.invalidName crate (.tooLarge sizeLimit)) := by
  rw [compile, ← text_expression, Text.backtracking_refuses h]

def repeatedLetter (n : Nat) : String := .ofList (List.replicate n 'a')

theorem compile_repeatedLetter {n : Nat} (h : sizeLimit < Text.bytesPerByte * n) :
    compile (Text.backtracking sizeLimit) (repeatedLetter n) =
      .error (.invalidName (repeatedLetter n) (.tooLarge sizeLimit)) := by
  have hneed := length_le_need (repeatedLetter n)
  rw [repeatedLetter, String.length_ofList, List.length_replicate] at hneed
  exact compile_backtracking_large (Nat.lt_of_lt_of_le h hneed)

/-- A name of a million letters. -/
def endlessName : String := repeatedLetter 1000000

theorem compile_endlessName :
    compile Text.defaultLibrary endlessName =
      .error (.invalidName endlessName (.tooLarge Text.defaultSizeLimit)) :=
  compile_repeatedLetter (by decide +kernel)

/-! ## Literal names -/

/-- A name pattern takes the crate's name as it is, and knows no path by more than its last
name. -/
theorem matchesPath_literally (hlibrary : library.Documented)
    (h : compile library crate = .ok pattern) (path : String) :
    (pattern.matchesPath path = true ↔ ∃ file, Disk.fileName? path = some file ∧
      (file = crate ++ ".smir.json" ∨ ∃ hash, hash ≠ "" ∧ (∀ c ∈ hash.toList, HashChar c) ∧
        file = crate ++ "-" ++ hash ++ ".smir.json")) ∧
      (∀ file, Disk.fileName? path = some file ↔
        Disk.IsFileName file ∧ Disk.EndsIn path.toList file.toList) ∧
      (pattern.matchesPath path = true → ∀ file, Disk.fileName? path = some file →
        isCandidate pattern.crate file = true) ∧
      pathMatches crate path = pattern.matchesPath path := by
  have hmatches := @matchesPath_iff _ _ path _ hlibrary h
  refine ⟨?_, fun file => Disk.fileName?_eq_some_iff, ?_, ?_⟩
  · simp only [hmatches, PathNamesCrate, namesCrate_iff]
  · intro hpath file hfile
    obtain ⟨file', hfile', hnames⟩ := hmatches.mp hpath
    rw [hfile, Option.some.injEq] at hfile'
    rw [crate_of_compile h, hfile']
    exact hnames.isCandidate
  · rw [Bool.eq_iff_iff, pathMatches_iff, hmatches]

/-- A name with special characters, and a directory behind it. -/
theorem matchesPath_literally_specialName :
    Text.defaultLibrary.Documented ∧
      ∃ pattern, compile Text.defaultLibrary "a.b+(c" = .ok pattern ∧
        pattern.matchesPath "out/a.b+(c-1f.smir.json/." = true ∧
        pattern.matchesPath "out/axb+(c.smir.json" = false ∧
        isCandidate pattern.crate "a.b+(c-1f.smir.json" = true := by
  have hneed : (expression "a.b+(c").need ≤ Text.defaultSizeLimit := by decide +kernel
  obtain ⟨pattern, hcompile⟩ := exists_compile_backtracking hneed
  have hlibrary := Text.backtracking_documented Text.defaultSizeLimit
  have hfile : Disk.fileName? "out/a.b+(c-1f.smir.json/." = some "a.b+(c-1f.smir.json" := by decide
  refine ⟨hlibrary, pattern, hcompile, ?_, ?_, ?_⟩
  · rw [← (matchesPath_literally hlibrary hcompile _).2.2.2]
    decide
  · rw [← (matchesPath_literally hlibrary hcompile _).2.2.2]
    decide
  · refine (matchesPath_literally hlibrary hcompile _).2.2.1 ?_ _ hfile
    rw [← (matchesPath_literally hlibrary hcompile _).2.2.2]
    decide

end NamePattern

end SymbolCoverage.Discovery
