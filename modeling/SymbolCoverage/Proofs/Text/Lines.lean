import Mathlib.Algebra.GroupWithZero.Nat

/-!
Lines.  Texts that are put on a line each are found again, where the whole is split at line
ends, exactly if none of them has a line end of its own.
-/

namespace SymbolCoverage

/-! ## Texts without a line end -/

/-- The text has no line end. -/
def OneLine (text : String) : Prop := '\n' ∉ text.toList

instance (text : String) : Decidable (OneLine text) :=
  inferInstanceAs (Decidable ('\n' ∉ text.toList))

theorem oneLine_append {s t : String} : OneLine (s ++ t) ↔ OneLine s ∧ OneLine t := by
  rw [OneLine, String.toList_append, List.mem_append, not_or]
  rfl

theorem oneLine_toString (n : Nat) : OneLine (toString n) := by
  show '\n' ∉ n.repr.toList
  rw [Nat.toList_repr]
  intro h
  have hdigit := Nat.isDigit_of_mem_toDigits (by decide) (by decide) h
  cases hdigit

theorem oneLine_intercalate {separator : String} (hseparator : OneLine separator)
    (texts : List String) :
    OneLine (separator.intercalate texts) ↔ ∀ text ∈ texts, OneLine text := by
  induction texts with
  | nil =>
    rw [String.intercalate_nil]
    exact ⟨nofun, fun _ => by decide⟩
  | cons text texts ih =>
    cases texts with
    | nil => rw [String.intercalate_singleton, List.forall_mem_singleton]
    | cons text' texts =>
      rw [String.intercalate_cons_cons, oneLine_append, oneLine_append, ih,
        List.forall_mem_cons (l := text' :: texts), and_iff_left hseparator]

/-! ## Line ends -/

def lineEnds (text : String) : Nat := text.toList.count '\n'

theorem lineEnds_append (s t : String) : lineEnds (s ++ t) = lineEnds s + lineEnds t := by
  rw [lineEnds, String.toList_append, List.count_append]
  rfl

theorem lineEnds_eq_zero_iff {text : String} : lineEnds text = 0 ↔ OneLine text :=
  List.count_eq_zero

theorem length_splitOn (c : Char) (cs : List Char) : (cs.splitOn c).length = cs.count c + 1 := by
  induction cs with
  | nil => rfl
  | cons d cs ih =>
    rw [List.splitOn_cons_eq_if_modifyHead, List.count_cons]
    split
    next h => rw [List.length_cons, ih]
    next h => rw [List.length_modifyHead, ih]

/-! ## Texts on lines -/

/-- Every text on a line of its own. -/
def onLines (texts : List String) : String := String.join (texts.map (· ++ "\n"))

variable {texts : List String}

theorem toList_onLines_cons (text : String) (texts : List String) :
    (onLines (text :: texts)).toList = text.toList ++ '\n' :: (onLines texts).toList := by
  simp [onLines]

theorem lineEnds_onLines (texts : List String) :
    lineEnds (onLines texts) = texts.length + (texts.map lineEnds).sum := by
  induction texts with
  | nil => rfl
  | cons text texts ih =>
    have hcons : lineEnds (onLines (text :: texts)) =
        lineEnds text + (lineEnds (onLines texts) + 1) := by
      rw [lineEnds, toList_onLines_cons, List.count_append, List.count_cons_self]
      rfl
    rw [hcons, ih, List.length_cons, List.map_cons, List.sum_cons]
    omega

/-- There are as many line ends as lines exactly if no text has one of its own. -/
theorem lineEnds_onLines_eq_length_iff :
    lineEnds (onLines texts) = texts.length ↔ ∀ text ∈ texts, OneLine text := by
  rw [lineEnds_onLines, Nat.add_eq_left, List.sum_eq_zero_iff_forall_eq_nat, List.forall_mem_map]
  simp only [lineEnds_eq_zero_iff]

theorem splitOn_onLines (h : ∀ text ∈ texts, OneLine text) :
    (onLines texts).toList.splitOn '\n' = texts.map String.toList ++ [[]] := by
  induction texts with
  | nil => rfl
  | cons text texts ih =>
    rw [List.forall_mem_cons] at h
    rw [toList_onLines_cons, List.splitOn_append_cons_self, List.splitOn_eq_singleton h.1, ih h.2]
    rfl

/-- Splitting at line ends gives the texts back, and an empty rest, exactly if no text has a
line end of its own. -/
theorem splitOn_onLines_iff :
    (onLines texts).toList.splitOn '\n' = texts.map String.toList ++ [[]] ↔
      ∀ text ∈ texts, OneLine text := by
  constructor
  · intro h
    have hlength := length_splitOn '\n' (onLines texts).toList
    rw [h, List.length_append, List.length_map, List.length_singleton] at hlength
    rw [← lineEnds_onLines_eq_length_iff, lineEnds]
    omega
  · exact splitOn_onLines

end SymbolCoverage
