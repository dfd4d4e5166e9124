import SymbolCoverage.Proofs.Json.Values

/-!
Which texts start with a JSON value, whatever the value means.  Values nest to any depth
here, numbers have any size, and surrogates need not come in pairs.  Skipping takes
exactly such a value off the front of a text.
-/

namespace SymbolCoverage.Json

variable {text rest : List Char} {c : Char}

/-! ## The grammar -/

/-- A value without brackets. -/
inductive ScalarFormed : List Char → List Char → Prop
  | null {rest : List Char} : ScalarFormed ('n' :: (['u', 'l', 'l'] ++ rest)) rest
  | isTrue {rest : List Char} : ScalarFormed ('t' :: (['r', 'u', 'e'] ++ rest)) rest
  | isFalse {rest : List Char} : ScalarFormed ('f' :: (['a', 'l', 's', 'e'] ++ rest)) rest
  | string {s : String} {text rest : List Char} :
    StringSpelled .free s text rest → ScalarFormed ('"' :: text) rest
  | natural {n : Numeral} {text rest : List Char} :
    Numeral.NumeralSpelled false n text rest → ScalarFormed text rest
  | negative {n : Numeral} {text rest : List Char} :
    Numeral.NumeralSpelled true n text rest → ScalarFormed ('-' :: text) rest

/-- What stands before a value inside a bracket: nothing in an array, a name and its colon
in an object. -/
inductive Entered : Bracket → List Char → List Char → Prop
  | array {text : List Char} : Entered .array text text
  | object {s : String} {text quoted colon rest : List Char} :
    Blanks text ('"' :: quoted) → StringSpelled .free s quoted colon →
      Blanks colon (':' :: rest) → Entered .object text rest

inductive Production
  | value
  | entries (bracket : Bracket) (first : Bool)

/-- A value, or the entries that are left of an array or an object, its first included or
not, and the closing bracket. -/
inductive Formed : Production → List Char → List Char → Prop
  | scalar {text rest : List Char} : ScalarFormed text rest → Formed .value text rest
  | nested {bracket : Bracket} {text rest : List Char} :
    Formed (.entries bracket true) text rest → Formed .value (bracket.opening :: text) rest
  | close {bracket : Bracket} {first : Bool} {text rest : List Char} :
    Blanks text (bracket.closing :: rest) → Formed (.entries bracket first) text rest
  | entry {bracket : Bracket} {first : Bool} {text before behind start after rest : List Char} :
    Separated first text before → Entered bracket before behind → Blanks behind start →
      Formed .value start after → Formed (.entries bracket false) after rest →
        Formed (.entries bracket first) text rest

theorem Formed.array (h : Formed (.entries .array true) text rest) :
    Formed .value ('[' :: text) rest :=
  @nested .array _ _ h

theorem Formed.object (h : Formed (.entries .object true) text rest) :
    Formed .value ('\x7b' :: text) rest :=
  @nested .object _ _ h

/-! ## Scalars and names are skipped exactly as they are formed -/

theorem exists_letters_iff {word tail : List Char} :
    (∃ r, letters word tail = .ok r ∧ r.rest = rest) ↔ tail = word ++ rest := by
  constructor
  · intro h
    obtain ⟨r, hr, rfl⟩ := h
    exact eq_append_of_letters hr
  · intro h
    obtain ⟨hle, hr⟩ := letters_append word rest
    subst h
    exact ⟨_, hr, rfl⟩

theorem ScalarFormed.skipScalar {tail : List Char} (h : ScalarFormed (c :: tail) rest) :
    ∃ r, Json.skipScalar c tail = .ok r ∧ r.rest = rest := by
  generalize htext : c :: tail = text at h
  cases h with
  | null =>
    cases htext
    exact exists_letters_iff.mpr rfl
  | isTrue =>
    cases htext
    exact exists_letters_iff.mpr rfl
  | isFalse =>
    cases htext
    exact exists_letters_iff.mpr rfl
  | string hs =>
    cases htext
    obtain ⟨hlt, hread⟩ := reads_literal_iff.mpr hs
    refine ⟨⟨rest, Nat.le_of_lt hlt⟩, ?_, rfl⟩
    show (literal .free tail).map _ = _
    rw [hread]
    rfl
  | natural hn =>
    subst htext
    obtain ⟨d, ds, hcons, hd⟩ := hn.exists_cons
    cases hcons
    obtain ⟨hlt, hread⟩ := (Numeral.reads_read_iff false).mpr hn
    have hne : ∀ d : Char, d.isDigit = false → c ≠ d := fun _ hd' => ne_of_isDigit hd hd'
    refine ⟨⟨rest, Nat.le_of_lt_succ hlt⟩, ?_, rfl⟩
    rw [Json.skipScalar, if_neg (hne 'n' rfl), if_neg (hne 't' rfl), if_neg (hne 'f' rfl),
      if_neg (hne '"' rfl), if_neg (hne '-' rfl), if_pos hd, hread]
    rfl
  | negative hn =>
    cases htext
    obtain ⟨hlt, hread⟩ := (Numeral.reads_read_iff false).mpr hn
    refine ⟨⟨rest, Nat.le_of_lt hlt⟩, ?_, rfl⟩
    show (Numeral.read false true tail).map _ = _
    rw [hread]
    rfl

theorem scalarFormed_of_skipScalar {tail : List Char} {r : Remaining tail}
    (h : skipScalar c tail = .ok r) : ScalarFormed (c :: tail) r.rest := by
  rw [skipScalar] at h
  split_ifs at h with hn ht hf hquote hminus hdigit
  · have htail := eq_append_of_letters h
    generalize r.rest = rest at htail ⊢
    rw [hn, htail]
    exact .null
  · have htail := eq_append_of_letters h
    generalize r.rest = rest at htail ⊢
    rw [ht, htail]
    exact .isTrue
  · have htail := eq_append_of_letters h
    generalize r.rest = rest at htail ⊢
    rw [hf, htail]
    exact .isFalse
  · obtain ⟨p, hp, rfl⟩ := map_eq_ok.mp h
    rw [hquote]
    exact .string (reads_literal_iff.mp (reads_of_eq_ok hp))
  · obtain ⟨p, hp, rfl⟩ := map_eq_ok.mp h
    rw [hminus]
    exact .negative ((Numeral.reads_read_iff false).mp (reads_of_eq_ok hp))
  · obtain ⟨p, hp, rfl⟩ := map_eq_ok.mp h
    exact .natural ((Numeral.reads_read_iff false).mp (reads_of_eq_ok hp))

theorem enter_object_iff :
    (∃ r, enter .object text = .ok r ∧ r.rest = rest) ↔ Entered .object text rest := by
  constructor
  · intro h
    obtain ⟨r, hr, rfl⟩ := h
    obtain ⟨p, hp, rfl⟩ := map_eq_ok.mp hr
    rw [skipName] at hp
    split at hp
    next => cases hp
    next q hnext =>
      split at hp
      next hquote =>
        obtain ⟨name, hname, hp⟩ := bind_eq_ok.mp hp
        obtain ⟨colon, hcolon, hp⟩ := bind_eq_ok.mp hp
        cases hp
        have hblanks := (blanks_of_next hnext).1
        rw [hquote] at hblanks
        exact .object hblanks (reads_literal_iff.mp (reads_of_eq_ok hname))
          (blanks_of_reads_token (reads_of_eq_ok hcolon))
      next => cases hp
  · intro h
    cases h with
    | object hquote hname hcolon =>
      obtain ⟨hlt₁, hnext⟩ := hquote.next rfl
      obtain ⟨hlt₂, hliteral⟩ := reads_literal_iff.mpr hname
      obtain ⟨hlt₃, htoken⟩ := reads_token hcolon rfl
      have hlt : rest.length < text.length := by omega
      have hskip : skipName text = .ok ⟨(), rest, hlt⟩ := by
        rw [skipName, hnext]
        refine bind_eq_ok.mpr ⟨_, hliteral, ?_⟩
        exact bind_eq_ok.mpr ⟨_, htoken, rfl⟩
      refine ⟨⟨rest, Nat.le_of_lt hlt⟩, ?_, rfl⟩
      rw [enter, hskip]
      rfl

theorem enter_iff {bracket : Bracket} :
    (∃ r, enter bracket text = .ok r ∧ r.rest = rest) ↔ Entered bracket text rest := by
  cases bracket with
  | object => exact enter_object_iff
  | array =>
    constructor
    · intro h
      obtain ⟨r, hr, rfl⟩ := h
      cases hr
      exact .array
    · intro h
      cases h
      exact ⟨_, rfl, rfl⟩

/-! ## What a value starts with -/

theorem ScalarFormed.exists_cons (h : ScalarFormed text rest) :
    ∃ c tail, text = c :: tail ∧ isBlank c = false ∧ c ≠ ']' ∧ Bracket.ofOpening? c = none := by
  cases h with
  | natural hn =>
    obtain ⟨c, tail, rfl, hc⟩ := hn.exists_cons
    refine ⟨c, tail, rfl, isBlank_of_isDigit hc, ne_of_isDigit hc rfl, ?_⟩
    rw [Bracket.ofOpening?, if_neg (ne_of_isDigit hc rfl), if_neg (ne_of_isDigit hc rfl)]
  | _ => exact ⟨_, _, rfl, rfl, by decide, rfl⟩

theorem Bracket.ofOpening?_opening (bracket : Bracket) :
    ofOpening? bracket.opening = some bracket := by
  cases bracket with
  | array => rfl
  | object => rfl

theorem Bracket.opening_of_ofOpening? {bracket : Bracket} (h : ofOpening? c = some bracket) :
    c = bracket.opening := by
  rw [ofOpening?] at h
  split_ifs at h with harray hobject
  · cases h
    exact harray
  · cases h
    exact hobject

theorem Bracket.isBlank_opening (bracket : Bracket) :
    isBlank bracket.opening = false ∧ bracket.opening ≠ ']' := by
  cases bracket with
  | array => decide
  | object => decide

theorem Bracket.isBlank_closing (bracket : Bracket) : isBlank bracket.closing = false := by
  cases bracket with
  | array => rfl
  | object => rfl

theorem Formed.exists_cons (h : Formed .value text rest) :
    ∃ c tail, text = c :: tail ∧ isBlank c = false ∧ c ≠ ']' := by
  cases h with
  | scalar h =>
    obtain ⟨c, tail, htext, hblank, hc, -⟩ := h.exists_cons
    exact ⟨c, tail, htext, hblank, hc⟩
  | @nested bracket => exact ⟨_, _, rfl, bracket.isBlank_opening⟩

/-- What comes next before a value inside a bracket does not close the bracket. -/
theorem Entered.next_ne_closing {bracket : Bracket} {behind tail : List Char}
    (h : Entered bracket text behind) (hblanks : Blanks behind (c :: tail))
    (hblank : isBlank c = false) (hc : c ≠ ']') :
    ∃ p, next text = some p ∧ p.value ≠ bracket.closing := by
  cases h with
  | array =>
    obtain ⟨hlt, hnext⟩ := hblanks.next hblank
    exact ⟨_, hnext, hc⟩
  | object hquote =>
    obtain ⟨hlt, hnext⟩ := hquote.next rfl
    refine ⟨_, hnext, ?_⟩
    show '"' ≠ '\x7d'
    decide

/-! ## What is formed is skipped -/

/-- Skipping gets past a value that starts with `c`, and is then inside the brackets in
which it was before. -/
def Passes (c : Char) (tail rest : List Char) : Prop :=
  ∀ outer, ∃ point, startValue outer c tail = .ok point ∧
    ∀ whole h, ∃ h', skipFrom whole point.state point.brackets point.remaining.rest h =
      skipFrom whole .after outer rest h'

/-- What skipping does where something is formed. -/
def Production.Passed : Production → List Char → List Char → Prop
  | .value, text, rest => ∃ c tail, text = c :: tail ∧ Passes c tail rest
  | .entries bracket true, text, rest => Passes bracket.opening text rest
  | .entries bracket false, text, rest =>
    ∀ whole outer h, ∃ h', skipFrom whole .after (bracket :: outer) text h =
      skipFrom whole .after outer rest h'

theorem ScalarFormed.passed (h : ScalarFormed text rest) :
    Production.value.Passed text rest := by
  obtain ⟨c, tail, rfl, -, -, hopening⟩ := h.exists_cons
  obtain ⟨r, hr, rfl⟩ := h.skipScalar
  refine ⟨c, tail, rfl, fun outer => ⟨⟨.after, outer, r⟩, ?_, fun whole h => ⟨h, rfl⟩⟩⟩
  rw [startValue, hopening, hr]
  rfl

theorem skipFrom_before {brackets : List Bracket} {start : List Char} (hblanks : Blanks text start)
    (hformed : Formed .value start rest) (hpassed : Production.value.Passed start rest)
    (whole : List Char) (h : text.length ≤ whole.length) :
    ∃ h', skipFrom whole .before brackets text h = skipFrom whole .after brackets rest h' := by
  obtain ⟨c, tail, rfl, hpasses⟩ := hpassed
  obtain ⟨_, _, hcons, hblank, -⟩ := hformed.exists_cons
  cases hcons
  obtain ⟨hlt, hnext⟩ := hblanks.next hblank
  obtain ⟨point, hstart, hskip⟩ := hpasses brackets
  have hle := point.remaining.notLonger
  obtain ⟨h', hskip⟩ := hskip whole (by omega)
  refine ⟨h', ?_⟩
  rw [skipFrom, hnext]
  simp only [hstart]
  exact hskip

theorem passed_close {bracket : Bracket} {first : Bool}
    (h : Blanks text (bracket.closing :: rest)) :
    (Production.entries bracket first).Passed text rest := by
  obtain ⟨hlt, hnext⟩ := h.next bracket.isBlank_closing
  cases first with
  | true =>
    intro outer
    refine ⟨⟨.after, outer, ⟨rest, Nat.le_of_lt hlt⟩⟩, ?_, fun whole h => ⟨h, rfl⟩⟩
    rw [startValue, bracket.ofOpening?_opening]
    simp only [hnext, if_true]
    rfl
  | false =>
    intro whole outer h
    refine ⟨Nat.le_trans (Nat.le_of_lt hlt) h, ?_⟩
    rw [skipFrom, hnext]
    simp only [if_true]

theorem passed_entry {bracket : Bracket} {first : Bool} {before behind start after : List Char}
    (hseparated : Separated first text before) (hentered : Entered bracket before behind)
    (hblanks : Blanks behind start) (hformed : Formed .value start after)
    (hvalue : Production.value.Passed start after)
    (hentries : (Production.entries bracket false).Passed after rest) :
    (Production.entries bracket first).Passed text rest := by
  obtain ⟨c, tail, rfl, hblank, hc⟩ := hformed.exists_cons
  obtain ⟨p, hnext, hclosing⟩ := hentered.next_ne_closing hblanks hblank hc
  obtain ⟨r, henter, rfl⟩ := enter_iff.mpr hentered
  cases hseparated with
  | first =>
    intro outer
    refine ⟨⟨.before, bracket :: outer, r⟩, ?_, fun whole h => ?_⟩
    · rw [startValue, bracket.ofOpening?_opening]
      simp only [hnext, if_neg hclosing, henter]
      rfl
    · obtain ⟨h₁, hskip₁⟩ := skipFrom_before hblanks hformed hvalue whole h
      obtain ⟨h₂, hskip₂⟩ := hentries whole outer h₁
      exact ⟨h₂, hskip₁.trans hskip₂⟩
  | next hcomma =>
    intro whole outer h
    obtain ⟨hlt, hnext'⟩ := hcomma.next rfl
    have hle := r.notLonger
    obtain ⟨h₁, hskip₁⟩ := skipFrom_before hblanks hformed hvalue whole
      (Nat.le_trans hle (Nat.le_trans (Nat.le_of_lt hlt) h))
    obtain ⟨h₂, hskip₂⟩ := hentries whole outer h₁
    have hcomma' : ',' ≠ bracket.closing := by
      cases bracket with
      | array => decide
      | object => decide
    refine ⟨h₂, ?_⟩
    rw [skipFrom, hnext']
    simp only [if_neg hcomma', if_true, henter]
    exact hskip₁.trans hskip₂

theorem Formed.passed {production : Production} (h : Formed production text rest) :
    production.Passed text rest := by
  induction h with
  | scalar h => exact h.passed
  | nested _ ih => exact ⟨_, _, rfl, ih⟩
  | close hclose => exact passed_close hclose
  | entry hseparated hentered hblanks hformed _ hvalue hentries =>
    exact passed_entry hseparated hentered hblanks hformed hvalue hentries

/-! ## What is skipped is formed -/

/-- The brackets of a list are closed one after the other, the innermost first. -/
def Closed : List Bracket → List Char → List Char → Prop
  | [], text, rest => text = rest
  | bracket :: outer, text, rest =>
    ∃ after, Formed (.entries bracket false) text after ∧ Closed outer after rest

/-- What skipping has to take, before a value or after it, to get out of all brackets. -/
def Skippable : SkipState → List Bracket → List Char → List Char → Prop
  | .after, brackets, text, rest => Closed brackets text rest
  | .before, brackets, text, rest =>
    ∃ start after, Blanks text start ∧ Formed .value start after ∧ Closed brackets after rest

/-- What stands in front of the first part of a value belongs to the value. -/
theorem formed_of_startValue {brackets : List Bracket} {tail : List Char} {point : SkipPoint tail}
    (h : startValue brackets c tail = .ok point)
    (hskip : Skippable point.state point.brackets point.remaining.rest rest) :
    ∃ after, Formed .value (c :: tail) after ∧ Closed brackets after rest := by
  rw [startValue] at h
  split at h
  next =>
    obtain ⟨r, hr, rfl⟩ := map_eq_ok.mp h
    exact ⟨r.rest, .scalar (scalarFormed_of_skipScalar hr), hskip⟩
  next bracket hopening =>
    rw [Bracket.opening_of_ofOpening? hopening]
    split at h
    next => cases h
    next p hnext =>
      split at h
      next hclosing =>
        cases h
        have hblanks := (blanks_of_next hnext).1
        rw [hclosing] at hblanks
        exact ⟨p.rest, .nested (.close hblanks), hskip⟩
      next =>
        obtain ⟨r, hr, rfl⟩ := map_eq_ok.mp h
        obtain ⟨start, after, hblanks, hvalue, after', hentries, hclosed⟩ := hskip
        have hentered := enter_iff.mp ⟨r, hr, rfl⟩
        exact ⟨after', .nested (.entry .first hentered hblanks hvalue hentries), hclosed⟩

theorem skippable_of_skipFrom {whole : List Char} {state : SkipState} {brackets : List Bracket}
    {hle : text.length ≤ whole.length} {r : Remaining whole}
    (h : skipFrom whole state brackets text hle = .ok r) :
    Skippable state brackets text r.rest := by
  fun_induction skipFrom whole state brackets text hle with
  | case1 =>
    cases h
    rfl
  | case2 => cases h
  | case3 => cases h
  | case4 text hle brackets p hnext point hstart _ _ ih =>
    obtain ⟨after, hvalue, hclosed⟩ := formed_of_startValue hstart (ih h)
    exact ⟨_, after, (blanks_of_next hnext).1, hvalue, hclosed⟩
  | case5 => cases h
  | case6 text hle bracket outer p hnext _ hclosing ih =>
    have hblanks := (blanks_of_next hnext).1
    rw [hclosing] at hblanks
    exact ⟨p.rest, .close hblanks, ih h⟩
  | case7 => cases h
  | case8 text hle bracket outer p hnext _ _ hcomma r' henter _ ih =>
    obtain ⟨start, after, hblanks, hvalue, after', hentries, hclosed⟩ := ih h
    have hcomma' := (blanks_of_next hnext).1
    rw [hcomma] at hcomma'
    have hentered := enter_iff.mp ⟨r', henter, rfl⟩
    exact ⟨after', .entry (.next hcomma') hentered hblanks hvalue hentries, hclosed⟩
  | case9 => cases h

/-- A value is skipped exactly if it is formed as the grammar says. -/
theorem reads_skip_iff {u : Unit} :
    Reads skip text u rest ↔ ∃ start, Blanks text start ∧ Formed .value start rest := by
  constructor
  · intro h
    obtain ⟨hlt, hread⟩ := h
    rw [skip] at hread
    split at hread
    next => cases hread
    next p hnext =>
      split at hread
      next => cases hread
      next point hstart =>
        obtain ⟨r, hr, hgiving⟩ := map_eq_ok.mp hread
        cases hgiving
        obtain ⟨after, hvalue, hclosed⟩ :=
          formed_of_startValue hstart (skippable_of_skipFrom hr)
        cases hclosed
        exact ⟨_, (blanks_of_next hnext).1, hvalue⟩
  · intro h
    obtain ⟨start, hblanks, hformed⟩ := h
    obtain ⟨c, tail, rfl, hpasses⟩ := hformed.passed
    obtain ⟨_, _, hcons, hblank, -⟩ := hformed.exists_cons
    cases hcons
    obtain ⟨hlt, hnext⟩ := hblanks.next hblank
    obtain ⟨point, hstart, hskip⟩ := hpasses []
    obtain ⟨hle, hskip⟩ := hskip point.remaining.rest (le_length _)
    have hlt' := Nat.lt_of_le_of_lt (Nat.le_trans hle point.remaining.notLonger) hlt
    refine ⟨hlt', ?_⟩
    rw [skip, hnext]
    simp only [hstart]
    rw [hskip, skipFrom]
    rfl

/-- A text settles where the value at its front ends. -/
theorem Formed.unique {start start' rest' : List Char} (hblanks : Blanks text start)
    (h : Formed .value start rest) (hblanks' : Blanks text start')
    (h' : Formed .value start' rest') : rest = rest' := by
  have hskip : Reads skip text () rest := reads_skip_iff.mpr ⟨start, hblanks, h⟩
  have hskip' : Reads skip text () rest' := reads_skip_iff.mpr ⟨start', hblanks', h'⟩
  exact (hskip.unique hskip').2

/-! ## What spells a value is formed -/

theorem formed_string {s : String} (h : StringSpelled .paired s text rest) :
    Formed .value ('"' :: text) rest := by
  obtain ⟨s', hs'⟩ := h.exists_free
  exact .scalar (.string hs')

theorem EntriesSpelled.formed_elements {α : Type} {spelling : Spelling α}
    (hformed : ∀ {a text rest}, spelling a text rest → Formed .value text rest) {first : Bool}
    {as : List α} (h : EntriesSpelled ']' spelling first as text rest) :
    Formed (.entries .array first) text rest := by
  induction h with
  | close hclose => exact .close hclose
  | cons hseparated hblanks hspelled _ ih =>
    exact .entry hseparated .array hblanks (hformed hspelled) ih

/-- An entry of an object, from its quote on: a name, a colon, and a value. -/
inductive MemberFormed : List Char → List Char → Prop
  | mk {s : String} {quoted colon behind start rest : List Char} :
    StringSpelled .free s quoted colon → Blanks colon (':' :: behind) → Blanks behind start →
      Formed .value start rest → MemberFormed ('"' :: quoted) rest

theorem EntriesSpelled.formed_members {μ : Type} {member : Spelling μ}
    (hformed : ∀ {m text rest}, member m text rest → MemberFormed text rest) {first : Bool}
    {ms : List μ} (h : EntriesSpelled '\x7d' member first ms text rest) :
    Formed (.entries .object first) text rest := by
  induction h with
  | close hclose => exact .close hclose
  | cons hseparated hquote hspelled _ ih =>
    cases hformed hspelled with
    | mk hs hcolon hblanks hvalue =>
      exact .entry hseparated (.object hquote hs hcolon) hblanks hvalue ih

theorem MemberSpelled.formed {β : Type} {value : Spelling β}
    (hvalue : ∀ {b text rest}, value b text rest → Formed .value text rest) {m : String × β}
    (h : MemberSpelled (StringSpelled .paired) value m text rest) : MemberFormed text rest := by
  cases h with
  | mk hs hcolon hblanks hspelled =>
    obtain ⟨s', hs'⟩ := hs.exists_free
    exact .mk hs' hcolon hblanks (hvalue hspelled)

theorem NumberSpelled.formed {n : Number} (h : NumberSpelled n text rest) :
    Formed .value text rest := by
  cases h with
  | natural hn => exact .scalar (.natural hn)
  | negative hn => exact .scalar (.negative hn)

theorem ValueSpelledWith.formed {array : Spelling (List Value)} {object : Spelling Members}
    (harray : ∀ {vs text rest}, array vs text rest → Formed (.entries .array true) text rest)
    (hobject : ∀ {ms text rest}, object ms text rest → Formed (.entries .object true) text rest)
    {v : Value} (h : ValueSpelledWith array object v text rest) : Formed .value text rest := by
  cases h with
  | null => exact .scalar .null
  | isTrue => exact .scalar .isTrue
  | isFalse => exact .scalar .isFalse
  | number hn => exact hn.formed
  | string hs => exact formed_string hs
  | array hvs => exact (harray hvs).array
  | object hms => exact (hobject hms).object

theorem ValueSpelled.formed {levels : Nat} {v : Value} (h : ValueSpelled levels v text rest) :
    Formed .value text rest := by
  induction levels generalizing v text rest with
  | zero => exact ValueSpelledWith.formed False.elim False.elim h
  | succ levels ih =>
    refine ValueSpelledWith.formed (fun hvs => hvs.formed_elements ih) ?_ h
    intro ms text rest hms
    obtain ⟨given, hgiven, -⟩ := hms
    exact hgiven.formed_members (MemberSpelled.formed ih)

end SymbolCoverage.Json
