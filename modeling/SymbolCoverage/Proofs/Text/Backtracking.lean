import SymbolCoverage.Proofs.Text.Patterns

/-!
Searching by trying behaves as documented.  A written pattern is read as the item that stands
in front of what must match behind it, and such items are found where the pattern matches.
Patterns within the size limit are compiled, and no others.
-/

namespace SymbolCoverage.Text

/-- A pattern in front of a goal. -/
def Pattern.before : Pattern → Goal → Goal
  | nothing, goal => goal
  | textStart rest, goal => (rest.before goal).atStart
  | textEnd rest, goal => (rest.before goal).atEnd
  | plain c rest, goal => (rest.before goal).char c
  | literal s rest, goal => s.toList.foldr Goal.char (rest.before goal)
  | someOf ranges rest, goal => (rest.before goal).someOf ranges
  | optional inner rest, goal => (inner.before (rest.before goal)).either (rest.before goal)

/-! ## Matching -/

namespace Goal

variable {goal : Goal} {before rest : List Char}

theorem char_iff {c : Char} :
    goal.char c before.isEmpty rest = true ↔
      ∃ rest', rest = c :: rest' ∧ goal (before ++ [c]).isEmpty rest' = true := by
  cases rest with
  | nil => exact iff_of_false nofun (by rintro ⟨_, h, -⟩; cases h)
  | cons d rest =>
    rw [char, Bool.and_eq_true, beq_iff_eq, show (before ++ [c]).isEmpty = false by simp]
    constructor
    · rintro ⟨rfl, hgoal⟩
      exact ⟨rest, rfl, hgoal⟩
    · rintro ⟨rest', heq, hgoal⟩
      cases heq
      exact ⟨rfl, hgoal⟩

theorem foldr_char_iff {s : List Char} :
    s.foldr char goal before.isEmpty rest = true ↔
      ∃ rest', rest = s ++ rest' ∧ goal (before ++ s).isEmpty rest' = true := by
  induction s generalizing before rest with
  | nil => simp
  | cons c s ih =>
    rw [List.foldr_cons, char_iff]
    simp only [ih, List.append_assoc, List.singleton_append]
    constructor
    · rintro ⟨_, rfl, rest', rfl, hgoal⟩
      exact ⟨rest', rfl, hgoal⟩
    · rintro ⟨rest', rfl, hgoal⟩
      exact ⟨_, rfl, rest', rfl, hgoal⟩

theorem isInRanges_iff {ranges : List (Char × Char)} {c : Char} :
    isInRanges ranges c = true ↔ InRanges ranges c := by
  simp only [isInRanges, List.any_eq_true, Bool.and_eq_true, decide_eq_true_eq, InRanges]

theorem run_iff {ranges : List (Char × Char)} :
    someOf.run ranges goal rest = true ↔
      ∃ run rest', run ≠ [] ∧ (∀ c ∈ run, InRanges ranges c) ∧ rest = run ++ rest' ∧
        goal false rest' = true := by
  induction rest with
  | nil =>
    refine iff_of_false nofun ?_
    rintro ⟨run, rest', hne, -, heq, -⟩
    exact hne (List.append_eq_nil_iff.mp heq.symm).1
  | cons c rest ih =>
    rw [someOf.run, Bool.and_eq_true, Bool.or_eq_true, isInRanges_iff, ih]
    constructor
    · rintro ⟨hc, hgoal | ⟨run, rest', -, hrun, rfl, hgoal⟩⟩
      · exact ⟨[c], rest, nofun, List.forall_mem_singleton.mpr hc, rfl, hgoal⟩
      · exact ⟨c :: run, rest', nofun, List.forall_mem_cons.mpr ⟨hc, hrun⟩, rfl, hgoal⟩
    · rintro ⟨run, rest', hne, hrun, heq, hgoal⟩
      cases run with
      | nil => exact absurd rfl hne
      | cons d run =>
        rw [List.cons_append, List.cons.injEq] at heq
        obtain ⟨rfl, rfl⟩ := heq
        rw [List.forall_mem_cons] at hrun
        refine ⟨hrun.1, ?_⟩
        cases run with
        | nil => exact .inl hgoal
        | cons e run => exact .inr ⟨e :: run, rest', nofun, hrun.2, rfl, hgoal⟩

theorem someOf_iff {ranges : List (Char × Char)} :
    goal.someOf ranges before.isEmpty rest = true ↔
      ∃ run rest', run ≠ [] ∧ (∀ c ∈ run, InRanges ranges c) ∧ rest = run ++ rest' ∧
        goal (before ++ run).isEmpty rest' = true := by
  have hbehind : ∀ run : List Char, run ≠ [] → (before ++ run).isEmpty = false := by
    intro run hne
    rw [List.isEmpty_eq_false_iff]
    exact List.append_ne_nil_of_right_ne_nil before hne
  rw [someOf, run_iff]
  refine exists_congr fun run => exists_congr fun rest' => and_congr_right fun hne => ?_
  rw [hbehind run hne]

theorem found_iff :
    goal.found before.isEmpty rest = true ↔
      ∃ skipped rest', rest = skipped ++ rest' ∧ goal (before ++ skipped).isEmpty rest' = true := by
  induction rest generalizing before with
  | nil =>
    rw [found]
    constructor
    · intro hgoal
      exact ⟨[], [], rfl, by rwa [List.append_nil]⟩
    · rintro ⟨skipped, rest', heq, hgoal⟩
      obtain ⟨rfl, rfl⟩ := List.append_eq_nil_iff.mp heq.symm
      rwa [List.append_nil] at hgoal
  | cons c rest ih =>
    have hrest := @ih (before ++ [c])
    rw [show (before ++ [c]).isEmpty = false by simp] at hrest
    rw [found, Bool.or_eq_true, hrest]
    constructor
    · rintro (hgoal | ⟨skipped, rest', rfl, hgoal⟩)
      · exact ⟨[], c :: rest, rfl, by rwa [List.append_nil]⟩
      · exact ⟨c :: skipped, rest', rfl, by rwa [List.append_assoc] at hgoal⟩
    · rintro ⟨skipped, rest', heq, hgoal⟩
      cases skipped with
      | nil =>
        rw [List.nil_append] at heq
        subst heq
        exact .inl (by rwa [List.append_nil] at hgoal)
      | cons d skipped =>
        rw [List.cons_append, List.cons.injEq] at heq
        obtain ⟨rfl, rfl⟩ := heq
        exact .inr ⟨skipped, rest', rfl, by rwa [List.append_assoc]⟩

end Goal

namespace Pattern

/-- The goal in front of which a pattern stands is reached behind the parts that the pattern
matches. -/
theorem before_iff {p : Pattern} {goal : Goal} {before rest : List Char} :
    p.before goal before.isEmpty rest = true ↔
      ∃ part after, rest = part ++ after ∧ p.Matches before part after ∧
        goal (before ++ part).isEmpty after = true := by
  induction p generalizing goal before rest with
  | nothing =>
    rw [Pattern.before]
    constructor
    · intro hgoal
      exact ⟨[], rest, rfl, rfl, by rwa [List.append_nil]⟩
    · rintro ⟨_, after, rfl, rfl, hgoal⟩
      rwa [List.append_nil] at hgoal
  | textStart p ih =>
    simp only [Pattern.before, Goal.atStart, Bool.and_eq_true, ih, Matches, List.isEmpty_iff]
    constructor
    · rintro ⟨rfl, part, after, rfl, hmatches, hgoal⟩
      exact ⟨part, after, rfl, ⟨rfl, hmatches⟩, hgoal⟩
    · rintro ⟨part, after, rfl, ⟨rfl, hmatches⟩, hgoal⟩
      exact ⟨rfl, part, after, rfl, hmatches, hgoal⟩
  | textEnd p ih =>
    simp only [Pattern.before, Goal.atEnd, Bool.and_eq_true, ih, Matches, List.isEmpty_iff]
    constructor
    · rintro ⟨rfl, part, after, heq, hmatches, hgoal⟩
      obtain ⟨rfl, rfl⟩ := List.append_eq_nil_iff.mp heq.symm
      exact ⟨[], [], rfl, ⟨rfl, rfl, hmatches⟩, hgoal⟩
    · rintro ⟨part, after, rfl, ⟨rfl, rfl, hmatches⟩, hgoal⟩
      exact ⟨rfl, [], [], rfl, hmatches, hgoal⟩
  | plain c p ih =>
    simp only [Pattern.before, Goal.char_iff, ih, Matches]
    constructor
    · rintro ⟨_, rfl, part, after, rfl, hmatches, hgoal⟩
      exact ⟨c :: part, after, rfl, ⟨part, rfl, hmatches⟩, by rwa [List.append_assoc] at hgoal⟩
    · rintro ⟨_, after, rfl, ⟨part, rfl, hmatches⟩, hgoal⟩
      exact ⟨_, rfl, part, after, rfl, hmatches, by rwa [List.append_assoc]⟩
  | literal s p ih =>
    simp only [Pattern.before, Goal.foldr_char_iff, ih, Matches]
    constructor
    · rintro ⟨_, rfl, part, after, rfl, hmatches, hgoal⟩
      refine ⟨s.toList ++ part, after, ?_, ⟨part, rfl, hmatches⟩, ?_⟩
      · rw [List.append_assoc]
      · rwa [List.append_assoc] at hgoal
    · rintro ⟨_, after, rfl, ⟨part, rfl, hmatches⟩, hgoal⟩
      refine ⟨_, List.append_assoc .., part, after, rfl, hmatches, ?_⟩
      rwa [List.append_assoc]
  | someOf ranges p ih =>
    simp only [Pattern.before, Goal.someOf_iff, ih, Matches]
    constructor
    · rintro ⟨run, _, hne, hrun, rfl, part, after, rfl, hmatches, hgoal⟩
      refine ⟨run ++ part, after, ?_, ⟨run, part, hne, hrun, rfl, hmatches⟩, ?_⟩
      · rw [List.append_assoc]
      · rwa [List.append_assoc] at hgoal
    · rintro ⟨_, after, rfl, ⟨run, part, hne, hrun, rfl, hmatches⟩, hgoal⟩
      refine ⟨run, _, hne, hrun, List.append_assoc .., part, after, rfl, hmatches, ?_⟩
      rwa [List.append_assoc]
  | optional inner p ihInner ih =>
    simp only [Pattern.before, Goal.either, Bool.or_eq_true, ihInner, ih, Matches]
    constructor
    · rintro (⟨part₁, _, rfl, hinner, part₂, after, rfl, hmatches, hgoal⟩ |
        ⟨part, after, rfl, hmatches, hgoal⟩)
      · refine ⟨part₁ ++ part₂, after, ?_, .inr ⟨part₁, part₂, rfl, hinner, hmatches⟩, ?_⟩
        · rw [List.append_assoc]
        · rwa [List.append_assoc] at hgoal
      · exact ⟨part, after, rfl, .inl hmatches, hgoal⟩
    · rintro ⟨_, after, rfl, hmatches | ⟨part₁, part₂, rfl, hinner, hmatches⟩, hgoal⟩
      · exact .inr ⟨_, after, rfl, hmatches, hgoal⟩
      · refine .inl ⟨part₁, _, List.append_assoc .., hinner, part₂, after, rfl, hmatches, ?_⟩
        rwa [List.append_assoc]

theorem found_before_iff {p : Pattern} {text : String} :
    (p.before Goal.done).found true text.toList = true ↔ p.Occurs text := by
  have hfound := @Goal.found_iff (p.before Goal.done) [] text.toList
  rw [List.isEmpty_nil] at hfound
  rw [hfound]
  simp only [List.nil_append, before_iff, Goal.done, and_true, Occurs]
  constructor
  · rintro ⟨before, _, htext, part, after, rfl, hmatches⟩
    exact ⟨before, part, after, by rw [htext, List.append_assoc], hmatches⟩
  · rintro ⟨before, part, after, htext, hmatches⟩
    exact ⟨before, part ++ after, by rw [htext, List.append_assoc], part, after, rfl, hmatches⟩

end Pattern

/-! ## Reading -/

namespace Goal

variable {goal : Goal} {goals : List Goal} {rest : List Char}

theorem read_start (h : read none rest = some (goal :: goals)) :
    read none ("^".toList ++ rest) = some (goal.atStart :: goals) := by
  show (read none rest).map (List.modifyHead atStart) = _
  rw [h]
  rfl

theorem read_end (h : read none rest = some (goal :: goals)) :
    read none ("$".toList ++ rest) = some (goal.atEnd :: goals) := by
  show (read none rest).map (List.modifyHead atEnd) = _
  rw [h]
  rfl

theorem read_plain {c : Char} (hc : c ∉ specialCharacters)
    (h : read none rest = some (goal :: goals)) :
    read none (c :: rest) = some (goal.char c :: goals) := by
  rw [read, if_neg hc, h]
  · rfl
  -- The other forms start with special characters.
  all_goals
    intros
    subst_vars
    exact hc (by decide)

theorem read_escaped {cs : List Char} (h : read none rest = some (goal :: goals)) :
    read none (cs.flatMap escapeChar ++ rest) = some (cs.foldr char goal :: goals) := by
  induction cs with
  | nil => exact h
  | cons c cs ih =>
    rw [List.flatMap_cons, List.append_assoc, List.foldr_cons, escapeChar]
    split
    next =>
      show (read none (cs.flatMap escapeChar ++ rest)).map (List.modifyHead (char c)) = _
      rw [ih]
      rfl
    next hc =>
      rw [List.singleton_append]
      refine read_plain ?_ ih
      exact fun hmem => hc (List.mem_append_left ['#', '&', '-', '~'] hmem)

theorem read_range {ranges : List (Char × Char)} (range : Char × Char) (rest : List Char) :
    read (some ranges) ((Pattern.rangeText range).toList ++ rest) =
      read (some (ranges ++ [range])) rest := by
  rw [Pattern.rangeText, String.toList_ofList]
  show read (some ranges) (range.1 :: '-' :: range.2 :: rest) = _
  rw [read]

theorem read_ranges {before ranges : List (Char × Char)}
    (h : read none rest = some (goal :: goals)) :
    read (some before) ((String.join (ranges.map Pattern.rangeText)).toList ++
      ("]+".toList ++ rest)) = some (goal.someOf (before ++ ranges) :: goals) := by
  induction ranges generalizing before with
  | nil =>
    show (read none rest).map (List.modifyHead (someOf before)) = _
    rw [h, List.append_nil]
    rfl
  | cons range ranges ih =>
    rw [List.map_cons, String.join_cons, String.toList_append, List.append_assoc, read_range, ih,
      List.append_assoc, List.singleton_append]

theorem read_someOf {ranges : List (Char × Char)} (h : read none rest = some (goal :: goals)) :
    read none ("[".toList ++ ((String.join (ranges.map Pattern.rangeText)).toList ++
      ("]+".toList ++ rest))) = some (goal.someOf ranges :: goals) := by
  show read (some []) _ = _
  exact read_ranges h

theorem read_groupEnd (h : read none rest = some (goal :: goals)) :
    read none (")?".toList ++ rest) = some (goal :: goal :: goals) := by
  show (read none rest).bind _ = _
  rw [h]
  rfl

theorem read_groupStart {inner : Goal} (h : read none rest = some (inner :: goal :: goals)) :
    read none ("(?:".toList ++ rest) = some (inner.either goal :: goals) := by
  show (read none rest).bind _ = _
  rw [h]
  rfl

end Goal

/-- A written pattern is read as what stands before the goal. -/
theorem Pattern.read_text {p : Pattern} (hp : p.WellFormed) {goal : Goal} {goals : List Goal}
    {rest : List Char} (h : Goal.read none rest = some (goal :: goals)) :
    Goal.read none ((p.text escaped).toList ++ rest) =
      some (p.before goal :: goals) := by
  induction p generalizing goal goals rest with
  | nothing => exact h
  | textStart p ih =>
    rw [text, String.toList_append, List.append_assoc]
    exact Goal.read_start (ih hp h)
  | textEnd p ih =>
    rw [text, String.toList_append, List.append_assoc]
    exact Goal.read_end (ih hp h)
  | plain c p ih =>
    rw [text, String.toList_append, List.append_assoc, String.toList_ofList]
    exact Goal.read_plain hp.1 (ih hp.2 h)
  | literal s p ih =>
    have hescape : (escaped s).toList = s.toList.flatMap escapeChar := String.toList_ofList
    rw [text, String.toList_append, List.append_assoc, hescape]
    exact Goal.read_escaped (ih hp h)
  | someOf ranges p ih =>
    simp only [text, String.toList_append, List.append_assoc]
    exact Goal.read_someOf (ih hp.2.2 h)
  | optional inner p ihInner ih =>
    simp only [text, String.toList_append, List.append_assoc]
    exact Goal.read_groupStart (ihInner hp.1 (Goal.read_groupEnd (ih hp.2 h)))

/-! ## Compilation -/

/-- The bytes that a pattern needs. -/
def Pattern.need (p : Pattern) : Nat := bytesPerByte * utf8Length (p.text escaped).toList

variable {p : Pattern} {sizeLimit : Nat}

theorem length_le_utf8Length_escaped (text : String) :
    text.length ≤ utf8Length (escaped text).toList := by
  have hlength : ∀ cs : List Char, cs.length ≤ (cs.flatMap escapeChar).length := by
    intro cs
    induction cs with
    | nil => exact Nat.le_refl 0
    | cons c cs ih =>
      have hc : 1 ≤ (escapeChar c).length := by
        unfold escapeChar
        split <;> simp
      rw [List.flatMap_cons, List.length_append, List.length_cons]
      omega
  rw [escaped, String.toList_ofList, ← String.length_toList]
  exact Nat.le_trans (hlength text.toList) (length_le_utf8Length _)

theorem backtracking_compile (hp : p.WellFormed) (h : p.need ≤ sizeLimit) :
    (backtracking sizeLimit).compile (p.text (backtracking sizeLimit).escape) =
      .ok fun text => (p.before Goal.done).found true text.toList := by
  have hread : Goal.read none (p.text escaped).toList = some [p.before Goal.done] := by
    have hrest := Pattern.read_text hp (rfl : Goal.read none [] = some [Goal.done])
    rwa [List.append_nil] at hrest
  rw [show (backtracking sizeLimit).escape = escaped from rfl]
  show (if sizeLimit < p.need then _ else _) = _
  rw [if_neg (Nat.not_lt.mpr h), hread]

theorem backtracking_refuses (h : sizeLimit < p.need) :
    (backtracking sizeLimit).compile (p.text (backtracking sizeLimit).escape) =
      .error (.tooLarge sizeLimit) :=
  if_pos h

/-- Searching by trying finds what the patterns match. -/
theorem backtracking_documented (sizeLimit : Nat) : (backtracking sizeLimit).Documented := by
  intro p hp test htest text
  by_cases hneed : p.need ≤ sizeLimit
  · rw [backtracking_compile hp hneed] at htest
    cases htest
    exact Pattern.found_before_iff
  · rw [backtracking_refuses (Nat.lt_of_not_le hneed)] at htest
    cases htest

end SymbolCoverage.Text
