import SymbolCoverage.Disk.Path

/-!
The last name of a path.  A path has a file name exactly if it ends in one, with nothing
behind it but slashes and single dots.
-/

namespace SymbolCoverage.Disk

/-! ## Names between slashes -/

theorem pieces_eq_splitOn (cs : List Char) : pieces cs = cs.splitOn '/' := by
  induction cs with
  | nil => rfl
  | cons c cs ih =>
    rw [pieces, List.splitOn_cons_eq_if_modifyHead, ih]
    simp only [beq_iff_eq]
    split
    next => rfl
    next =>
      cases hpieces : cs.splitOn '/' with
      | nil => exact absurd hpieces (List.splitOn_ne_nil '/' cs)
      | cons piece more => rfl

/-- The names among the pieces of a text. -/
def namesOf (cs : List Char) : List (List Char) :=
  (pieces cs).filter fun n => n ≠ [] ∧ n ≠ ['.']

theorem namesOf_append_slash (cs ds : List Char) :
    namesOf (cs ++ '/' :: ds) = namesOf cs ++ namesOf ds := by
  simp only [namesOf, pieces_eq_splitOn, List.splitOn_append_cons_self, List.filter_append]

theorem namesOf_name {cs : List Char} (hslash : '/' ∉ cs) (hempty : cs ≠ []) (hdot : cs ≠ ['.']) :
    namesOf cs = [cs] := by
  rw [namesOf, pieces_eq_splitOn, List.splitOn_eq_singleton hslash]
  exact List.filter_cons_of_pos (decide_eq_true ⟨hempty, hdot⟩)

/-! ## What stands behind the last name -/

/-- Slashes, with single dots between them. -/
inductive Trailing : List Char → Prop
  | nil : Trailing []
  | slash {cs : List Char} : Trailing cs → Trailing ('/' :: cs)
  | dot {cs : List Char} : Trailing cs → Trailing ('/' :: '.' :: cs)

theorem Trailing.append {cs ds : List Char} (hcs : Trailing cs) (hds : Trailing ds) :
    Trailing (cs ++ ds) := by
  induction hcs with
  | nil => exact hds
  | slash _ ih => exact ih.slash
  | dot _ ih => exact ih.dot

theorem Trailing.namesOf_append {ds : List Char} (h : Trailing ds) (cs : List Char) :
    namesOf (cs ++ ds) = namesOf cs := by
  induction h generalizing cs with
  | nil => rw [List.append_nil]
  | slash _ ih =>
    have hrest := ih []
    rw [List.nil_append] at hrest
    rw [namesOf_append_slash, hrest]
    exact List.append_nil _
  | dot _ ih =>
    have hrest := ih ['.']
    rw [List.singleton_append] at hrest
    rw [namesOf_append_slash, hrest]
    exact List.append_nil _

/-! ## The last name -/

/-- What an entry of a directory may be called. -/
structure IsFileName (name : String) : Prop where
  ne_empty : name ≠ ""
  ne_dot : name ≠ "."
  ne_dots : name ≠ ".."
  no_slash : '/' ∉ name.toList

/-- A path that ends in a name: a directory with its slash may stand in front of the name,
and slashes and single dots behind it. -/
def EndsIn (path name : List Char) : Prop :=
  ∃ directory trailing, path = directory ++ name ++ trailing ∧
    (directory = [] ∨ ∃ ds, directory = ds ++ ['/']) ∧ Trailing trailing

theorem EndsIn.append {path name cs : List Char} (h : EndsIn path name) (hcs : Trailing cs) :
    EndsIn (path ++ cs) name := by
  obtain ⟨directory, trailing, rfl, hdirectory, htrailing⟩ := h
  exact ⟨directory, trailing ++ cs, List.append_assoc .., hdirectory, htrailing.append hcs⟩

theorem EndsIn.getLast?_namesOf {path name : List Char} (h : EndsIn path name)
    (hslash : '/' ∉ name) (hempty : name ≠ []) (hdot : name ≠ ['.']) :
    (namesOf path).getLast? = some name := by
  obtain ⟨directory, trailing, rfl, hdirectory, htrailing⟩ := h
  rw [htrailing.namesOf_append]
  cases hdirectory with
  | inl hnone =>
    rw [hnone, List.nil_append, namesOf_name hslash hempty hdot]
    rfl
  | inr hsome =>
    obtain ⟨ds, rfl⟩ := hsome
    rw [List.append_assoc, List.singleton_append, namesOf_append_slash,
      namesOf_name hslash hempty hdot, List.getLast?_concat]

theorem exists_last_slash {cs : List Char} (h : '/' ∈ cs) :
    ∃ ds es, cs = ds ++ '/' :: es ∧ '/' ∉ es := by
  induction cs with
  | nil => cases h
  | cons c cs ih =>
    by_cases hcs : '/' ∈ cs
    · obtain ⟨ds, es, rfl, hes⟩ := ih hcs
      exact ⟨c :: ds, es, rfl, hes⟩
    · cases h with
      | head => exact ⟨[], cs, rfl, hcs⟩
      | tail _ h => exact absurd h hcs

/-- By the last slash: what stands behind it is the last name, or does not count. -/
theorem endsIn_of_getLast?_namesOf {path name : List Char}
    (h : (namesOf path).getLast? = some name) :
    name ≠ [] ∧ name ≠ ['.'] ∧ '/' ∉ name ∧ EndsIn path name := by
  by_cases hslash : '/' ∈ path
  · obtain ⟨ds, es, rfl, hes⟩ := exists_last_slash hslash
    rw [namesOf_append_slash] at h
    -- If nothing behind the slash counts, the name is found in front of it.
    by_cases hempty : es = []
    · rw [hempty, show namesOf [] = [] from rfl, List.append_nil] at h
      obtain ⟨h₁, h₂, h₃, hds⟩ := endsIn_of_getLast?_namesOf h
      exact ⟨h₁, h₂, h₃, hempty ▸ hds.append Trailing.nil.slash⟩
    · by_cases hdot : es = ['.']
      · rw [hdot, show namesOf ['.'] = [] from rfl, List.append_nil] at h
        obtain ⟨h₁, h₂, h₃, hds⟩ := endsIn_of_getLast?_namesOf h
        exact ⟨h₁, h₂, h₃, hdot ▸ hds.append Trailing.nil.dot⟩
      · rw [namesOf_name hes hempty hdot, List.getLast?_concat] at h
        cases h
        exact ⟨hempty, hdot, hes, ds ++ ['/'], [], by simp, .inr ⟨ds, rfl⟩, .nil⟩
  · by_cases hempty : path = []
    · rw [hempty] at h
      cases h
    · by_cases hdot : path = ['.']
      · rw [hdot] at h
        cases h
      · rw [namesOf_name hslash hempty hdot] at h
        cases h
        exact ⟨hempty, hdot, hslash, [], [], by simp, .inl rfl, .nil⟩
termination_by path.length
decreasing_by
  all_goals
    subst_vars
    rw [List.length_append, List.length_cons]
    omega

/-- A path has a file name exactly if it ends in one. -/
theorem fileName?_eq_some_iff {path file : String} :
    fileName? path = some file ↔ IsFileName file ∧ EndsIn path.toList file.toList := by
  have hnames : names path = namesOf path.toList := rfl
  constructor
  · intro h
    rw [fileName?, hnames] at h
    split at h
    next => cases h
    next name hname =>
      split at h
      next => cases h
      next hdots =>
        cases h
        obtain ⟨hempty, hdot, hslash, hpath⟩ := endsIn_of_getLast?_namesOf hname
        rw [String.toList_ofList]
        refine ⟨⟨?_, ?_, ?_, ?_⟩, hpath⟩
        · exact fun h => hempty (String.ofList_injective h)
        · exact fun h => hdot (String.ofList_injective h)
        · exact fun h => hdots (String.ofList_injective h)
        · rwa [String.toList_ofList]
  · intro h
    obtain ⟨hfile, hpath⟩ := h
    have hlast := hpath.getLast?_namesOf hfile.no_slash
      (fun h => hfile.ne_empty (String.toList_injective h))
      (fun h => hfile.ne_dot (String.toList_injective h))
    have hdots : file.toList ≠ ['.', '.'] := fun h => hfile.ne_dots (String.toList_injective h)
    rw [fileName?, hnames, hlast]
    simp only [if_neg hdots, String.ofList_toList]

/-- Names of entries are found again behind the path of their directory. -/
theorem fileName?_join {directory name : String} (h : IsFileName name) :
    fileName? (join directory name) = some name := by
  refine fileName?_eq_some_iff.mpr ⟨h, ?_⟩
  rw [join]
  split
  next hends =>
    refine ⟨directory.toList, [], by simp, ?_, .nil⟩
    cases hends with
    | inl hempty => exact .inl (by simpa using hempty)
    | inr hslash => exact .inr (List.getLast?_eq_some_iff.mp hslash)
  next => exact ⟨directory.toList ++ ['/'], [], by simp, .inr ⟨_, rfl⟩, .nil⟩

end SymbolCoverage.Disk
