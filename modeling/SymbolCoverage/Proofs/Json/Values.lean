import SymbolCoverage.Proofs.Json.Literals
import SymbolCoverage.Proofs.Json.Numerals

/-!
How values are spelled, with blanks wherever they may stand.  The reader of values takes
every spelling off the front of a text, if it nests no deeper than the reader goes.
-/

namespace SymbolCoverage.Json

variable {α β μ ν σ : Type} {text rest : List Char} {c : Char} {v : Value}

/-! ## Entries of arrays and objects -/

/-- The first entry of an array or an object stands at once, the others after a comma. -/
inductive Separated : Bool → List Char → List Char → Prop
  | first {text : List Char} : Separated true text text
  | next {text rest : List Char} : Blanks text (',' :: rest) → Separated false text rest

/-- The entries that are left of an array or an object, its first included or not, and
the closing bracket. -/
inductive EntriesSpelled (bracket : Char) (spelling : Spelling α) :
    Bool → List α → List Char → List Char → Prop
  | close {first : Bool} {text rest : List Char} :
    Blanks text (bracket :: rest) → EntriesSpelled bracket spelling first [] text rest
  | cons {first : Bool} {a : α} {as : List α} {text before start after rest : List Char} :
    Separated first text before → Blanks before start → spelling a start after →
      EntriesSpelled bracket spelling false as after rest →
        EntriesSpelled bracket spelling first (a :: as) text rest

theorem EntriesSpelled.map {bracket : Char} {spelling : Spelling α} {spelling' : Spelling β}
    (f : α → β) (hspelling : ∀ {a text rest}, spelling a text rest → spelling' (f a) text rest)
    {first : Bool} {as : List α} (h : EntriesSpelled bracket spelling first as text rest) :
    EntriesSpelled bracket spelling' first (as.map f) text rest := by
  induction h with
  | close hclose => exact .close hclose
  | cons hseparated hblanks hspelled _ ih =>
    exact .cons hseparated hblanks (hspelling hspelled) ih

/-! ## Arrays -/

abbrev ElementsSpelled (spelling : Spelling α) : Spelling (List α) :=
  EntriesSpelled ']' spelling true

/-- Spellings start with a character that tells them from blanks and from the end of an
array. -/
def Spelling.Starts (spelling : Spelling α) : Prop :=
  ∀ {a text rest}, spelling a text rest →
    ∃ c tail, text = c :: tail ∧ isBlank c = false ∧ c ≠ ']'

theorem nextElement_close (first : Bool) (h : Blanks text (']' :: rest)) :
    ∃ hlt, nextElement first text = .ok (.close rest hlt) := by
  obtain ⟨hlt, hnext⟩ := h.next rfl
  refine ⟨hlt, ?_⟩
  rw [nextElement, hnext]
  rfl

theorem nextElement_entry {first : Bool} {before : List Char} (h : Separated first text before)
    (hbefore : Blanks before (c :: rest)) (hblank : isBlank c = false) (hc : c ≠ ']') :
    ∃ hle, nextElement first text = .ok (.entry ⟨before, hle⟩) := by
  obtain ⟨hlt, hnext⟩ := hbefore.next hblank
  cases h with
  | first =>
    refine ⟨Nat.le_refl _, ?_⟩
    rw [nextElement, hnext]
    show (if c = ']' then _ else _) = _
    rw [if_neg hc]
    rfl
  | next hcomma =>
    obtain ⟨hlt', hnext'⟩ := hcomma.next rfl
    refine ⟨Nat.le_of_lt hlt', ?_⟩
    simp [nextElement, hnext', hnext, hc, Parsed.remaining]

theorem EntriesSpelled.reads_elementsFrom {spelling : Spelling α} {element : Reader α}
    (hstarts : spelling.Starts) {first : Bool} {as : List α}
    (h : EntriesSpelled ']' spelling first as text rest)
    (helement : ∀ a ∈ as, spelling.ReadBy element a) (whole : List Char) (read : List α)
    (hle : text.length ≤ whole.length) :
    ∃ hlt, elementsFrom element whole first read text hle =
      .ok ⟨read.reverse ++ as, rest, hlt⟩ := by
  induction h generalizing read with
  | close hclose =>
    obtain ⟨hlt, hnext⟩ := nextElement_close _ hclose
    refine ⟨Nat.lt_of_lt_of_le hlt hle, ?_⟩
    rw [elementsFrom, hnext]
    simp only [List.append_nil]
  | cons hseparated hblanks hspelled _ ih =>
    rw [List.forall_mem_cons] at helement
    obtain ⟨c, tail, rfl, hblank, hc⟩ := hstarts hspelled
    obtain ⟨hbefore, hnext⟩ := nextElement_entry hseparated hblanks hblank hc
    obtain ⟨hafter, hread⟩ := helement.1 hblanks hspelled
    obtain ⟨hlt, ih⟩ := ih helement.2 (_ :: read)
      (Nat.le_trans (Nat.le_of_lt hafter) (Nat.le_trans hbefore hle))
    refine ⟨hlt, ?_⟩
    rw [elementsFrom, hnext]
    simp only [hread]
    rw [ih]
    simp only [List.reverse_cons, List.append_assoc, List.singleton_append]

theorem ElementsSpelled.reads_elements {spelling : Spelling α} {element : Reader α}
    (hstarts : spelling.Starts) {as : List α} (h : ElementsSpelled spelling as text rest)
    (helement : ∀ a ∈ as, spelling.ReadBy element a) : Reads (elements element) text as rest :=
  h.reads_elementsFrom hstarts helement text [] (le_length text)

/-! ## Objects -/

/-- A member, given how its name is spelled after the opening quote, and its value. -/
inductive MemberSpelled (name : Spelling ν) (value : Spelling β) : Spelling (ν × β)
  | mk {n : ν} {b : β} {quoted colon behind start rest : List Char} :
    name n quoted colon → Blanks colon (':' :: behind) → Blanks behind start →
      value b start rest → MemberSpelled name value (n, b) ('"' :: quoted) rest

abbrev MembersSpelled (member : Spelling μ) : Spelling (List μ) :=
  EntriesSpelled '\x7d' member true

/-- The member at the front of a text has a name for which there is a reader, and what this
reads behind the colon turns one state into another. -/
inductive ReadsMember (step : σ → String → Except Failure (Reader σ)) :
    σ → String → List Char → σ → List Char → Prop
  | mk {state state' : σ} {s : String} {r : Reader σ} {quoted colon behind rest : List Char} :
    StringSpelled .paired s quoted colon → Blanks colon (':' :: behind) → step state s = .ok r →
      Reads r behind state' rest → ReadsMember step state s ('"' :: quoted) state' rest

/-- Reading members one after the other turns a state into another. -/
inductive Steps (step : σ → String → Except Failure (Reader σ)) (member : Spelling μ) :
    σ → List μ → σ → Prop
  | nil {state : σ} : Steps step member state [] state
  | cons {state state' state'' : σ} {m : μ} {ms : List μ} {s : String} :
    (∀ {text rest}, member m text rest → ReadsMember step state s text state' rest) →
      Steps step member state' ms state'' → Steps step member state (m :: ms) state''

theorem nextName_close (first : Bool) (h : Blanks text ('\x7d' :: rest)) :
    ∃ hlt, nextName first text = .ok (.close rest hlt) := by
  obtain ⟨hlt, hnext⟩ := h.next rfl
  refine ⟨hlt, ?_⟩
  rw [nextName, hnext]
  rfl

theorem nextName_entry {first : Bool} {before : List Char} (h : Separated first text before)
    (hbefore : Blanks before ('"' :: rest)) :
    ∃ hle, nextName first text = .ok (.entry ⟨rest, hle⟩) := by
  obtain ⟨hlt, hnext⟩ := hbefore.next rfl
  cases h with
  | first =>
    refine ⟨Nat.le_of_lt hlt, ?_⟩
    rw [nextName, hnext]
    rfl
  | next hcomma =>
    obtain ⟨hlt', hnext'⟩ := hcomma.next rfl
    refine ⟨Nat.le_of_lt (Nat.lt_trans hlt hlt'), ?_⟩
    simp [nextName, hnext', hnext, Parsed.remaining, Remaining.trans]

section Members

variable {member : Spelling μ} {step : σ → String → Except Failure (Reader σ)}
  {ms : List μ} {state state' : σ}

theorem EntriesSpelled.reads_membersFrom {first : Bool}
    (h : EntriesSpelled '\x7d' member first ms text rest)
    (hsteps : Steps step member state ms state') (whole : List Char)
    (hle : text.length ≤ whole.length) :
    ∃ hlt, membersFrom step whole first state text hle = .ok ⟨state', rest, hlt⟩ := by
  induction h generalizing state with
  | close hclose =>
    cases hsteps
    obtain ⟨hlt, hnext⟩ := nextName_close _ hclose
    refine ⟨Nat.lt_of_lt_of_le hlt hle, ?_⟩
    rw [membersFrom, hnext]
  | cons hseparated hquote hmember _ ih =>
    cases hsteps with
    | cons hreads hsteps =>
      cases hreads hmember with
      | mk hs hcolon hstep hread =>
        obtain ⟨hquoted, hnext⟩ := nextName_entry hseparated hquote
        obtain ⟨hlt₁, hliteral⟩ := reads_literal_iff.mpr hs
        obtain ⟨hlt₂, htoken⟩ := reads_token hcolon rfl
        obtain ⟨hlt₃, hread⟩ := hread
        obtain ⟨hlt, ih⟩ := ih hsteps (by omega)
        refine ⟨hlt, ?_⟩
        rw [membersFrom, hnext]
        simp only [hliteral, hstep, htoken, hread]
        exact ih

theorem MembersSpelled.reads_members (h : MembersSpelled member ms text rest)
    (hsteps : Steps step member state ms state') :
    Reads (members step state) text state' rest :=
  h.reads_membersFrom hsteps text (le_length text)

end Members

/-! ## Values -/

/-- A value, given how the rest of an array and of an object is spelled after the opening
bracket. -/
inductive ValueSpelledWith (array : Spelling (List Value)) (object : Spelling Members) :
    Spelling Value
  | null {rest : List Char} :
    ValueSpelledWith array object .null ('n' :: (['u', 'l', 'l'] ++ rest)) rest
  | isTrue {rest : List Char} :
    ValueSpelledWith array object (.bool true) ('t' :: (['r', 'u', 'e'] ++ rest)) rest
  | isFalse {rest : List Char} :
    ValueSpelledWith array object (.bool false) ('f' :: (['a', 'l', 's', 'e'] ++ rest)) rest
  | number {n : Number} {text rest : List Char} :
    NumberSpelled n text rest → ValueSpelledWith array object (.number n) text rest
  | string {s : String} {text rest : List Char} :
    StringSpelled .paired s text rest → ValueSpelledWith array object (.string s) ('"' :: text) rest
  | array {vs : List Value} {text rest : List Char} :
    array vs text rest → ValueSpelledWith array object (.array vs) ('[' :: text) rest
  | object {ms : Members} {text rest : List Char} :
    object ms text rest → ValueSpelledWith array object (.object ms) ('\x7b' :: text) rest

/-- A value inside which arrays and objects stand at most `levels` deep. -/
def ValueSpelled : (levels : Nat) → Spelling Value
  | 0 => ValueSpelledWith (fun _ _ _ => False) (fun _ _ _ => False)
  | levels + 1 =>
    ValueSpelledWith (ElementsSpelled (ValueSpelled levels)) fun ms text rest =>
      ∃ given, MembersSpelled (MemberSpelled (StringSpelled .paired) (ValueSpelled levels))
        given text rest ∧ ms = .ofGiven given

theorem valueSpelled_eq_with (levels : Nat) :
    ∃ array object, ValueSpelled levels = ValueSpelledWith array object := by
  cases levels with
  | zero => exact ⟨_, _, rfl⟩
  | succ levels => exact ⟨_, _, rfl⟩

theorem valueSpelled_of_with {levels : Nat}
    (h : ∀ array object, ValueSpelledWith array object v text rest) :
    ValueSpelled levels v text rest := by
  obtain ⟨array, object, heq⟩ := valueSpelled_eq_with levels
  rw [heq]
  exact h array object

/-! ## What a spelling starts with -/

theorem Numeral.NumeralSpelled.exists_cons {negative : Bool} {n : Numeral}
    (h : NumeralSpelled negative n text rest) : ∃ c tail, text = c :: tail ∧ c.isDigit = true := by
  obtain ⟨hwhole, -, -⟩ := h
  cases hwhole with
  | zero => exact ⟨_, _, rfl, rfl⟩
  | positive _ hspelled =>
    cases hspelled with
    | mk _ hds => exact ⟨_, _, rfl, hds _ List.mem_cons_self⟩

theorem ne_of_isDigit {c d : Char} (hc : c.isDigit = true) (hd : d.isDigit = false) : c ≠ d := by
  intro h
  subst h
  rw [hc] at hd
  cases hd

theorem isBlank_of_isDigit {c : Char} (hc : c.isDigit = true) : isBlank c = false := by
  have hne : ∀ d : Char, d.isDigit = false → (c == d) = false :=
    fun d hd => beq_eq_false_iff_ne.mpr (ne_of_isDigit hc hd)
  rw [isBlank, hne ' ' rfl, hne '\n' rfl, hne '\t' rfl, hne '\r' rfl]
  rfl

theorem ValueSpelledWith.starts {array : Spelling (List Value)} {object : Spelling Members} :
    (ValueSpelledWith array object).Starts := by
  intro v text rest h
  cases h with
  | number h =>
    cases h with
    | natural hspelled _ =>
      obtain ⟨c, tail, htext, hc⟩ := hspelled.exists_cons
      exact ⟨c, tail, htext, isBlank_of_isDigit hc, ne_of_isDigit hc rfl⟩
    | negative => exact ⟨_, _, rfl, rfl, by decide⟩
  | _ => exact ⟨_, _, rfl, rfl, by decide⟩

theorem valueSpelled_starts (levels : Nat) : (ValueSpelled levels).Starts := by
  obtain ⟨array, object, heq⟩ := valueSpelled_eq_with levels
  rw [heq]
  exact ValueSpelledWith.starts

/-! ## Reading -/

theorem NumberSpelled.reads_valueWith {array object : Reader Value} {n : Number}
    {after : List Char} (hblanks : Blanks text after) (h : NumberSpelled n after rest) :
    Reads (valueWith array object) text (.number n) rest := by
  cases h with
  | natural hspelled hvalue =>
    have hread := reads_number_iff.mpr ⟨_, hspelled, hvalue⟩
    obtain ⟨c, tail, rfl, hc⟩ := hspelled.exists_cons
    have hne : ∀ d : Char, d.isDigit = false → c ≠ d := fun d hd => ne_of_isDigit hc hd
    refine reads_started hblanks (isBlank_of_isDigit hc) hread fun hlt hnext => ?_
    rw [valueWith, hnext]
    simp only [if_neg (hne 'n' rfl), if_neg (hne 't' rfl), if_neg (hne 'f' rfl),
      if_neg (hne '"' rfl), if_neg (hne '-' rfl), if_pos hc]
  | negative hspelled hvalue =>
    have hread := reads_number_iff.mpr ⟨_, hspelled, hvalue⟩
    refine reads_opened hblanks rfl hread fun hlt hnext => ?_
    rw [valueWith, hnext]
    rfl

section ValueWith

variable {arraySpelling : Spelling (List Value)} {objectSpelling : Spelling Members}
  {array object : Reader Value}

/-- What the next character says about a value decides how it is read. -/
theorem ValueSpelledWith.readBy
    (harray : ∀ {vs text rest}, arraySpelling vs text rest → Reads array text (.array vs) rest)
    (hobject : ∀ {ms text rest}, objectSpelling ms text rest → Reads object text (.object ms) rest)
    (v : Value) :
    (ValueSpelledWith arraySpelling objectSpelling).ReadBy (valueWith array object) v := by
  intro text after rest hblanks h
  cases h with
  | null =>
    refine reads_word hblanks rfl rfl fun hlt hnext => ?_
    rw [valueWith, hnext]
    rfl
  | isTrue =>
    refine reads_word hblanks rfl rfl fun hlt hnext => ?_
    rw [valueWith, hnext]
    rfl
  | isFalse =>
    refine reads_word hblanks rfl rfl fun hlt hnext => ?_
    rw [valueWith, hnext]
    rfl
  | number h => exact h.reads_valueWith hblanks
  | string h =>
    refine reads_opened hblanks rfl (reads_literal_iff.mpr h) fun hlt hnext => ?_
    rw [valueWith, hnext]
    rfl
  | array h =>
    refine reads_opened (f := id) hblanks rfl (harray h) fun hlt hnext => ?_
    rw [valueWith, hnext]
    rfl
  | object h =>
    refine reads_opened (f := id) hblanks rfl (hobject h) fun hlt hnext => ?_
    rw [valueWith, hnext]
    rfl

end ValueWith

theorem steps_set {levels : Nat} (hvalue : ∀ v, (ValueSpelled levels).ReadBy (value levels) v)
    (given ms : Members) :
    Steps (fun ms name => .ok (Reader.map (Members.set ms name) (value levels)))
      (MemberSpelled (StringSpelled .paired) (ValueSpelled levels)) ms given
      (given.foldl (fun ms m => ms.set m.1 m.2) ms) := by
  induction given generalizing ms with
  | nil => exact .nil
  | cons m given ih =>
    refine .cons (s := m.1) ?_ (ih (ms.set m.1 m.2))
    rintro _ _ ⟨hs, hcolon, hblanks, hspelled⟩
    exact .mk hs hcolon rfl ((hvalue _ hblanks hspelled).map _)

/-- Whatever spells a value is read as the value. -/
theorem ValueSpelled.readBy (levels : Nat) (v : Value) :
    (ValueSpelled levels).ReadBy (value levels) v := by
  induction levels generalizing v with
  | zero => exact ValueSpelledWith.readBy False.elim False.elim v
  | succ levels ih =>
    apply ValueSpelledWith.readBy
    · intro vs text rest h
      exact (h.reads_elements (valueSpelled_starts levels) fun v _ => ih v).map _
    · intro ms text rest h
      obtain ⟨given, hgiven, rfl⟩ := h
      exact (hgiven.reads_members (steps_set ih given [])).map _

end SymbolCoverage.Json
