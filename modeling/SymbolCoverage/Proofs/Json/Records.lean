import SymbolCoverage.Proofs.Json.Extent
import SymbolCoverage.Proofs.Json.Printing

/-!
Records that stand as objects.  A record has some of the members of its object, and skips
the others.  What its fields hold is settled by the members that are its own, and reading
goes through all names of the object in their order.
-/

namespace SymbolCoverage.Json

variable {α β κ σ : Type} {text rest after start : List Char} {c : Char} {a b : α}

/-! ## Strings, arrays and pairs -/

/-- What stands behind an opening character. -/
inductive Opened (c : Char) (spelling : Spelling α) : Spelling α
  | mk {a : α} {text rest : List Char} :
    spelling a text rest → Opened c spelling a (c :: text) rest

/-- A string between its quotes. -/
abbrev QuotedSpelled : Spelling String := Opened '"' (StringSpelled .paired)

abbrev ListSpelled (spelling : Spelling α) : Spelling (List α) :=
  Opened '[' (ElementsSpelled spelling)

abbrev ObjectSpelled (member : Spelling α) : Spelling (List α) :=
  Opened '\x7b' (MembersSpelled member)

theorem Opened.starts {spelling : Spelling α} (hc : isBlank c = false ∧ c ≠ ']') :
    (Opened c spelling).Starts := by
  intro a text rest h
  cases h
  exact ⟨_, _, rfl, hc⟩

theorem reads_startingWith {body : Reader α} {expected : String}
    (hblanks : Blanks text (c :: after)) (hc : isBlank c = false) (h : Reads body after a rest) :
    Reads (startingWith c body expected) text a rest := by
  refine reads_opened (f := id) hblanks hc h fun hlt hnext => ?_
  rw [startingWith, hnext]
  exact if_pos rfl

theorem Opened.readBy {spelling : Spelling α} {body : Reader α} {expected : String}
    (hc : isBlank c = false)
    (hbody : ∀ {text rest}, spelling a text rest → Reads body text a rest) :
    (Opened c spelling).ReadBy (startingWith c body expected) a := by
  intro text after rest hblanks h
  cases h with
  | mk h => exact reads_startingWith hblanks hc (hbody h)

theorem readBy_string (s : String) : QuotedSpelled.ReadBy string s :=
  Opened.readBy rfl reads_literal_iff.mpr

theorem readBy_list {spelling : Spelling α} {element : Reader α} (hstarts : spelling.Starts)
    (helement : ∀ a, spelling.ReadBy element a) (as : List α) :
    (ListSpelled spelling).ReadBy (list element) as :=
  Opened.readBy rfl fun h => h.reads_elements hstarts fun a _ => helement a

theorem reads_elementAt {spelling : Spelling α} {element : Reader α} (expected : String)
    (count : Nat) {before : List Char} (hstarts : spelling.Starts)
    (helement : spelling.ReadBy element a) (hseparated : Separated (count == 0) text before)
    (hblanks : Blanks before start) (h : spelling a start rest) :
    Reads (elementAt expected count element) text a rest := by
  obtain ⟨c, tail, rfl, hblank, hc⟩ := hstarts h
  obtain ⟨hle, hnext⟩ := nextElement_entry hseparated hblanks hblank hc
  obtain ⟨hlt, hread⟩ := helement hblanks h
  refine ⟨Nat.lt_of_lt_of_le hlt hle, ?_⟩
  rw [elementAt, hnext]
  simp only [hread]
  rfl

theorem reads_pairElements {spelling : Spelling α} {first second : Reader α} {expected : String}
    (hstarts : spelling.Starts) (hfirst : spelling.ReadBy first a)
    (hsecond : spelling.ReadBy second b) (h : ElementsSpelled spelling [a, b] text rest) :
    Reads (pairElements expected first second) text (a, b) rest := by
  cases h with
  | cons hseparated hblanks ha h =>
    cases h with
    | cons hseparated' hblanks' hb h =>
      cases h with
      | close hclose =>
        obtain ⟨hlt₁, ha⟩ := reads_elementAt expected 0 hstarts @hfirst hseparated hblanks ha
        obtain ⟨hlt₂, hb⟩ := reads_elementAt expected 1 hstarts @hsecond hseparated' hblanks' hb
        obtain ⟨hlt₃, hclose⟩ := reads_token hclose rfl
        refine ⟨Nat.lt_trans (Nat.lt_trans hlt₃ hlt₂) hlt₁, ?_⟩
        refine bind_eq_ok.mpr ⟨_, ha, ?_⟩
        refine bind_eq_ok.mpr ⟨_, hb, ?_⟩
        exact bind_eq_ok.mpr ⟨_, hclose, rfl⟩

theorem ListSpelled.formed {spelling : Spelling α} {as : List α}
    (hformed : ∀ {a text rest}, spelling a text rest → Formed .value text rest)
    (h : ListSpelled spelling as text rest) : Formed .value text rest := by
  cases h with
  | mk h => exact (h.formed_elements hformed).array

/-! ## Members -/

/-- The name of any member: a string, or none where its surrogates do not come in pairs. -/
inductive NameSpelled : Spelling (Option String)
  | string {s : String} {text rest : List Char} :
    StringSpelled .paired s text rest → NameSpelled (some s) text rest
  | unpaired {s : String} {text rest : List Char} :
    StringSpelled .free s text rest →
      (∀ s rest, ¬ StringSpelled .paired s text rest) → NameSpelled none text rest

/-- A member of which nothing but the name is known. -/
def AnyMemberSpelled : Spelling (Option String) :=
  fun name => MemberSpelled NameSpelled (fun (_ : Unit) => Formed .value) (name, ())

theorem exists_nameSpelled {s : String} (h : StringSpelled .free s text rest) :
    ∃ name, NameSpelled name text rest := by
  by_cases hpaired : ∃ s rest, StringSpelled .paired s text rest
  · obtain ⟨s', rest', hs'⟩ := hpaired
    obtain ⟨s'', hs''⟩ := hs'.exists_free
    obtain ⟨-, rfl⟩ := (reads_literal_iff.mpr h).unique (reads_literal_iff.mpr hs'')
    exact ⟨some s', .string hs'⟩
  · exact ⟨none, .unpaired h fun s rest hs => hpaired ⟨s, rest, hs⟩⟩

/-- Whatever an object holds, its members have names. -/
theorem Formed.exists_names {first : Bool} (h : Formed (.entries .object first) text rest) :
    ∃ names, EntriesSpelled '\x7d' AnyMemberSpelled first names text rest := by
  generalize hproduction : Production.entries .object first = production at h
  induction h generalizing first with
  | scalar => cases hproduction
  | nested => cases hproduction
  | close hclose =>
    cases hproduction
    exact ⟨[], .close hclose⟩
  | entry hseparated hentered hblanks hvalue _ _ ih =>
    cases hproduction
    obtain ⟨names, hnames⟩ := ih rfl
    cases hentered with
    | object hquote hs hcolon =>
      obtain ⟨name, hname⟩ := exists_nameSpelled hs
      exact ⟨name :: names, .cons hseparated hquote (.mk hname hcolon hblanks hvalue) hnames⟩

/-- The members of an object that holds a record: those of the record, and others. -/
inductive Member (κ : Type)
  | field (content : κ)
  | other (name : Option String)

/-- The fields that a record may have: their names, and how their values are spelled. -/
structure Contents (κ : Type) where
  name : κ → String
  spelling : Spelling κ

namespace Contents

variable {contents : Contents κ}

def nameOf (contents : Contents κ) : Member κ → Option String
  | .field content => some (contents.name content)
  | .other name => name

/-- Fields have values of their own, other members any value. -/
inductive MemberSpelled (contents : Contents κ) : Spelling (Member κ)
  | field {content : κ} {text rest : List Char} :
    Json.MemberSpelled (StringSpelled .paired) contents.spelling (contents.name content, content)
        text rest →
      MemberSpelled contents (.field content) text rest
  | other {name : Option String} {text rest : List Char} :
    AnyMemberSpelled name text rest → MemberSpelled contents (.other name) text rest

/-- The fields among the members, in their order, if all other members have names, which
are the names of no fields. -/
inductive FieldsOf (contents : Contents κ) : List (Member κ) → List κ → Prop
  | nil : FieldsOf contents [] []
  | field {content : κ} {ms : List (Member κ)} {fields : List κ} :
    FieldsOf contents ms fields → FieldsOf contents (.field content :: ms) (content :: fields)
  | other {s : String} {ms : List (Member κ)} {fields : List κ} :
    (∀ content, contents.name content ≠ s) → FieldsOf contents ms fields →
      FieldsOf contents (.other (some s) :: ms) fields

/-- All contents are JSON values. -/
def Formed (contents : Contents κ) : Prop :=
  ∀ {content text rest}, contents.spelling content text rest → Json.Formed .value text rest

theorem MemberSpelled.any (hcontents : contents.Formed) {m : Member κ}
    (h : contents.MemberSpelled m text rest) : AnyMemberSpelled (contents.nameOf m) text rest := by
  cases h with
  | field h =>
    cases h with
    | mk hs hcolon hblanks hspelled => exact .mk (.string hs) hcolon hblanks (hcontents hspelled)
  | other h => exact h

theorem formed_object (hcontents : contents.Formed) {ms : List (Member κ)}
    (h : ObjectSpelled contents.MemberSpelled ms text rest) : Json.Formed .value text rest := by
  cases h with
  | mk h =>
    refine (h.formed_members ?_).object
    intro m text rest hm
    have hany := hm.any hcontents
    generalize contents.nameOf m = name at hany
    cases hany with
    | mk hname hcolon hblanks hvalue =>
      cases hname with
      | string hs =>
        obtain ⟨s, hs⟩ := hs.exists_free
        exact .mk hs hcolon hblanks hvalue
      | unpaired hs => exact .mk hs hcolon hblanks hvalue

end Contents

/-! ## Members are read one after the other -/

section Steps

variable {contents : Contents κ} {form : RecordForm σ α} {state state' state'' : σ}
  {ms : List (Member κ)} {fields : List κ}

/-- A field is read if there is a reader for its value. -/
theorem Steps.field {step : σ → String → Except Failure (Reader σ)} (content : κ) {r : Reader σ}
    (hstep : step state (contents.name content) = .ok r)
    (hr : ∀ {text after rest}, Blanks text after → contents.spelling content after rest →
      Reads r text state' rest)
    (h : Steps step contents.MemberSpelled state' ms state'') :
    Steps step contents.MemberSpelled state (.field content :: ms) state'' := by
  refine .cons (s := contents.name content) ?_ h
  intro text rest hm
  cases hm with
  | field hm =>
    cases hm with
    | mk hs hcolon hblanks hspelled => exact .mk hs hcolon hstep (hr hblanks hspelled)

/-- A member whose name is not known is skipped. -/
theorem Steps.other {s : String} (hs : ∀ f ∈ form.fields, f.name ≠ s)
    (h : Steps form.step contents.MemberSpelled state ms state') :
    Steps form.step contents.MemberSpelled state (.other (some s) :: ms) state' := by
  have hfind : form.fields.find? (·.name == s) = none := by
    rw [List.find?_eq_none]
    intro f hf
    simpa using hs f hf
  have hstep : form.step state s = .ok (Reader.map (fun _ => state) skip) := by
    rw [RecordForm.step, hfind]
  refine .cons (s := s) ?_ h
  intro text rest hm
  cases hm with
  | other hm =>
    cases hm with
    | mk hname hcolon hblanks hvalue =>
      cases hname with
      | string hs =>
        have hskip : Reads skip _ () _ := reads_skip_iff.mpr ⟨_, hblanks, hvalue⟩
        exact .mk hs hcolon hstep (hskip.map _)

/-- What is read depends on the fields alone. -/
theorem Steps.of_fields (hfields : contents.FieldsOf ms fields)
    (hknown : ∀ f ∈ form.fields, ∃ content, contents.name content = f.name)
    (h : Steps form.step contents.MemberSpelled state (fields.map .field) state') :
    Steps form.step contents.MemberSpelled state ms state' := by
  induction hfields generalizing state with
  | nil => exact h
  | field _ ih =>
    cases h with
    | cons hm h => exact .cons hm (ih h)
  | other hs _ ih =>
    refine .other ?_ (ih h)
    intro f hf
    obtain ⟨content, hcontent⟩ := hknown f hf
    exact hcontent ▸ hs content

theorem RecordForm.readBy_object {member : Spelling β} {bs : List β} {a : α}
    (hsteps : Steps form.step member form.initial bs state) (hfinish : form.finish state = .ok a)
    (hblanks : Blanks text start) (h : ObjectSpelled member bs start rest) :
    Reads form.read text a rest := by
  cases h with
  | mk h =>
    have hfinished : form.finished state = .ok a := by
      rw [RecordForm.finished, hfinish]
      rfl
    obtain ⟨hlt, hread⟩ := h.reads_members hsteps
    have hread : Reads form.ofMembers _ a rest :=
      ⟨hlt, bind_eq_ok.mpr ⟨_, hread, bind_eq_ok.mpr ⟨a, hfinished, rfl⟩⟩⟩
    refine reads_opened (f := id) hblanks rfl hread fun hlt hnext => ?_
    rw [RecordForm.read, hnext]
    rfl

end Steps

/-! ## Reading goes through the names in their order -/

/-- The readers for the names, each used once, turn a state into another. -/
inductive Run (step : σ → String → Except Failure (Reader σ)) :
    σ → List (Option String) → σ → Prop
  | nil {state : σ} : Run step state [] state
  | cons {state state' state'' : σ} {s : String} {r : Reader σ} {names : List (Option String)}
      {text rest : List Char} :
    step state s = .ok r → Reads r text state' rest → Run step state' names state'' →
      Run step state (some s :: names) state''

theorem Run.none_not_mem {step : σ → String → Except Failure (Reader σ)} {state state' : σ}
    {names : List (Option String)} (h : Run step state names state') : none ∉ names := by
  induction h with
  | nil => exact List.not_mem_nil
  | cons _ _ _ ih => simpa using ih

theorem NameSpelled.eq_of_reads {name : Option String} {s : String} {rest' : List Char}
    (h : NameSpelled name text rest) (hread : Reads (literal .paired) text s rest') :
    name = some s ∧ rest = rest' := by
  cases h with
  | string hs =>
    obtain ⟨hs, hrest⟩ := (reads_literal_iff.mpr hs).unique hread
    exact ⟨congrArg some hs, hrest⟩
  | unpaired _ hunpaired => exact absurd (reads_literal_iff.mp hread) (hunpaired _ _)

theorem run_of_membersFrom {step : σ → String → Except Failure (Reader σ)}
    (hstep : ∀ state s r, step state s = .ok r → r.TakesValue) {first : Bool}
    {names : List (Option String)}
    (h : EntriesSpelled '\x7d' AnyMemberSpelled first names text rest) {state : σ}
    {whole : List Char} {hle : text.length ≤ whole.length} {p : Parsed σ whole}
    (hread : membersFrom step whole first state text hle = .ok p) :
    Run step state names p.value := by
  induction h generalizing state with
  | close hclose =>
    obtain ⟨hlt, hnext⟩ := nextName_close _ hclose
    rw [membersFrom, hnext] at hread
    cases hread
    exact .nil
  | cons hseparated hquote hmember _ ih =>
    cases hmember with
    | mk hname hcolon hblanks hvalue =>
      obtain ⟨_, hnext⟩ := nextName_entry hseparated hquote
      obtain ⟨_, htoken⟩ := reads_token hcolon rfl
      rw [membersFrom, hnext] at hread
      simp only at hread
      split at hread
      next => cases hread
      next s hs =>
        obtain ⟨rfl, rfl⟩ := hname.eq_of_reads (reads_of_eq_ok hs)
        split at hread
        next => cases hread
        next r hr =>
          rw [htoken] at hread
          simp only at hread
          split at hread
          next => cases hread
          next q hq =>
            have hread' := reads_of_eq_ok hq
            have hrest := Reader.TakesValue.rest_eq (hstep _ _ _ hr) hread' hblanks hvalue
            subst hrest
            exact .cons hr hread' (ih hread)

/-- A record that is read off an object is put together from a run through its names. -/
theorem RecordForm.run_of_reads {form : RecordForm σ α} (hform : form.FieldsTakeValues)
    {names : List (Option String)} (hblanks : Blanks text start)
    (h : ObjectSpelled AnyMemberSpelled names start after) (hread : Reads form.read text a rest) :
    ∃ state, Run form.step form.initial names state ∧ form.finish state = .ok a := by
  cases h with
  | mk h =>
    obtain ⟨hlt, hnext⟩ := hblanks.next rfl
    obtain ⟨_, hread⟩ := hread
    rw [RecordForm.read, hnext] at hread
    obtain ⟨q, hq, hafter⟩ := map_eq_ok.mp hread
    cases hafter
    obtain ⟨state, ⟨_, hmembers⟩, hfinish⟩ := reads_of_finishing (reads_of_eq_ok hq)
    exact ⟨state, run_of_membersFrom (fun _ _ _ => takesValue_of_step hform) h hmembers, hfinish⟩

/-! ## Printed records -/

theorem written_quoted (s : String) : QuotedSpelled.Written s (Value.compact (.string s)) := by
  intro rest hrest
  obtain ⟨quoted, hquoted, hs⟩ := stringForm_append s rest
  show QuotedSpelled s (stringForm s ++ rest) rest
  rw [hquoted]
  exact .mk hs

theorem written_list {spelling : Spelling α} (values : α → Value) {as : List α}
    (h : ∀ a ∈ as, spelling.Written a (values a).compact) :
    (ListSpelled spelling).Written as (Value.compact (.array (as.map values))) := by
  intro rest hrest
  rw [Value.compact_array_append, List.map_map]
  exact .mk (entriesSpelled_compact (.inl rfl) (forall₂_written h))

namespace Contents

variable (contents : Contents κ)

theorem written_field (content : κ) {v : Value}
    (h : contents.spelling.Written content v.compact) :
    contents.MemberSpelled.Written (.field content)
      (memberForm [] (contents.name content) v.compact) := by
  intro rest hrest
  exact .field (written_member blanks_nil _ h _ hrest)

theorem written_other {levels : Nat} {v : Value} (name : String) (h : v.Plain levels)
    (hordered : v.Ordered) :
    contents.MemberSpelled.Written (.other (some name)) (memberForm [] name v.compact) := by
  intro rest hrest
  have hmember := written_member blanks_nil name (h.written_compact hordered) _ hrest
  generalize memberForm [] name v.compact ++ rest = text at hmember ⊢
  cases hmember with
  | mk hs hcolon hblanks hspelled => exact .other (.mk (.string hs) hcolon hblanks hspelled.formed)

theorem written_object {contents : Contents κ} {ms : List (Member κ)} {given : Members}
    (h : List.Forall₂ contents.MemberSpelled.Written ms
      (given.map fun m => memberForm [] m.1 m.2.compact)) :
    (ObjectSpelled contents.MemberSpelled).Written ms (Value.compact (.object given)) := by
  intro rest hrest
  rw [Value.compact_object_append]
  exact .mk (entriesSpelled_compact (.inr rfl) h)

end Contents
end SymbolCoverage.Json
