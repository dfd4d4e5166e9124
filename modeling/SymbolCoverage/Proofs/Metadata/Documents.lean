import Mathlib.Data.List.Permutation
import SymbolCoverage.Metadata.Reading
import SymbolCoverage.Proofs.Json.Records

/-!
Which metadata a document stands for.  The members of a document other than its two
tables, and those of an item other than its symbol, have no part in it.
-/

namespace SymbolCoverage.Metadata

open Json

/-! ## How documents are spelled -/

def itemContents : Contents String where
  name _ := "symbol_name"
  spelling := QuotedSpelled

/-- An object with one symbol. -/
def ItemSpelled : Spelling String := fun symbol text rest =>
  ∃ ms, itemContents.FieldsOf ms [symbol] ∧ ObjectSpelled itemContents.MemberSpelled ms text rest

/-- An array of a type and a function. -/
def EntrySpelled : Spelling FunctionEntry := fun f =>
  ListSpelled (ValueSpelled descriptorLevels) [f.type, f.function]

inductive Table
  | items (symbols : List String)
  | functions (functions : List FunctionEntry)

def documentContents : Contents Table where
  name
    | .items _ => "items"
    | .functions _ => "functions"
  spelling
    | .items symbols => ListSpelled ItemSpelled symbols
    | .functions functions => ListSpelled EntrySpelled functions

theorem name_ne {s : String} (h : s ≠ "items" ∧ s ≠ "functions") (table : Table) :
    documentContents.name table ≠ s := by
  cases table with
  | items _ => exact h.1.symm
  | functions _ => exact h.2.symm

/-- The text is an object with these members. -/
def DocumentSpelled (ms : List (Member Table)) (text : String) : Prop :=
  ∃ start rest, Blanks text.toList start ∧
    ObjectSpelled documentContents.MemberSpelled ms start rest ∧ Blanks rest []

/-! ## Documents are read as they are spelled -/

theorem itemSpelled_starts : ItemSpelled.Starts := by
  intro symbol text rest h
  obtain ⟨ms, -, h⟩ := h
  exact Opened.starts (by decide) h

theorem readBy_item (symbol : String) : ItemSpelled.ReadBy itemForm.read symbol := by
  intro text after rest hblanks h
  obtain ⟨ms, hfields, h⟩ := h
  have hknown : ∀ f ∈ itemForm.fields, ∃ content, itemContents.name content = f.name := by
    intro f hf
    cases List.mem_singleton.mp hf
    exact ⟨symbol, rfl⟩
  have hstep : itemForm.step none "symbol_name" = .ok (Reader.map some string) := rfl
  have hsteps : Steps itemForm.step itemContents.MemberSpelled none [.field symbol] (some symbol) :=
    .field symbol hstep (fun hblanks hs => (readBy_string symbol hblanks hs).map some) .nil
  exact RecordForm.readBy_object (hsteps.of_fields hfields hknown) rfl hblanks h

theorem entrySpelled_starts : EntrySpelled.Starts :=
  fun h => Opened.starts (by decide) h

theorem readBy_entry (f : FunctionEntry) : EntrySpelled.ReadBy entry f := by
  intro text after rest hblanks h
  cases h with
  | mk h =>
    have hread : Reads (pair "tuple struct FunctionEntry" _ _) text _ rest :=
      reads_startingWith hblanks rfl (reads_pairElements (valueSpelled_starts _)
        (ValueSpelled.readBy _ f.type) (ValueSpelled.readBy _ f.function) h)
    exact hread.map _

theorem step_items {t : Tables} (h : t.items = none) :
    form.step t "items" =
      .ok (Reader.map ({ t with items := some · }) (list itemForm.read)) := by
  simp [RecordForm.step, form, h]

theorem step_functions {t : Tables} (h : t.functions = none) :
    form.step t "functions" =
      .ok (Reader.map ({ t with functions := some · }) (list entry)) := by
  simp [RecordForm.step, form, h]

theorem steps_items {symbols : List String} {t t' : Tables} {ms : List (Member Table)}
    (ht : t.items = none)
    (h : Steps form.step documentContents.MemberSpelled { t with items := some symbols } ms t') :
    Steps form.step documentContents.MemberSpelled t (.field (.items symbols) :: ms) t' := by
  refine .field (.items symbols) (step_items ht) (fun hblanks hs => ?_) h
  exact (readBy_list itemSpelled_starts readBy_item symbols hblanks hs).map _

theorem steps_functions {functions : List FunctionEntry} {t t' : Tables}
    {ms : List (Member Table)} (ht : t.functions = none)
    (h : Steps form.step documentContents.MemberSpelled { t with functions := some functions }
      ms t') :
    Steps form.step documentContents.MemberSpelled t (.field (.functions functions) :: ms) t' := by
  refine .field (.functions functions) (step_functions ht) (fun hblanks hs => ?_) h
  exact (readBy_list entrySpelled_starts readBy_entry functions hblanks hs).map _

theorem steps_tables {symbols : List String} {functions : List FunctionEntry}
    {fields : List Table} (h : fields.Perm [.items symbols, .functions functions]) :
    Steps form.step documentContents.MemberSpelled form.initial (fields.map .field)
      ⟨some symbols, some functions⟩ := by
  cases List.perm_pair.mp h with
  | inl h =>
    rw [h]
    exact steps_items rfl (steps_functions rfl .nil)
  | inr h =>
    rw [h]
    exact steps_functions rfl (steps_items rfl .nil)

theorem ofJson_of_tables {ms : List (Member Table)} {text : String} (h : DocumentSpelled ms text)
    {fields : List Table} (hfields : documentContents.FieldsOf ms fields) {symbols : List String}
    {functions : List FunctionEntry}
    (htables : fields.Perm [.items symbols, .functions functions]) :
    Metadata.ofJson text = .ok ⟨symbols, functions⟩ := by
  obtain ⟨start, rest, hbefore, hobject, hafter⟩ := h
  have hknown : ∀ f ∈ form.fields, ∃ content, documentContents.name content = f.name := by
    intro f hf
    simp only [form, List.mem_cons, List.not_mem_nil, or_false] at hf
    cases hf with
    | inl hf => exact ⟨.items symbols, by rw [hf]; rfl⟩
    | inr hf => exact ⟨.functions functions, by rw [hf]; rfl⟩
  have hsteps := (steps_tables htables).of_fields hfields hknown
  exact readAll_of_reads (RecordForm.readBy_object hsteps rfl hbefore hobject) hafter.next_eq_none

/-! ## Each table is read once -/

theorem takesValue_item : itemForm.read.TakesValue := by
  apply RecordForm.takesValue_read
  intro f hf state
  cases List.mem_singleton.mp hf
  exact Reader.TakesValue.map takesValue_string _

theorem takesValue_entry : entry.TakesValue :=
  Reader.TakesValue.map (takesValue_pair (takesValue_value _) (takesValue_value _)) _

/-- The values of both tables are JSON values. -/
theorem form_fieldsTakeValues : form.FieldsTakeValues := by
  intro f hf t
  simp only [form, List.mem_cons, List.not_mem_nil, or_false] at hf
  cases hf with
  | inl hf =>
    rw [hf]
    exact Reader.TakesValue.map (takesValue_list takesValue_item) _
  | inr hf =>
    rw [hf]
    exact Reader.TakesValue.map (takesValue_list takesValue_entry) _

/-- A table is read where it has not been read before, and other members change nothing. -/
theorem step_cases {t t' : Tables} {s : String} {r : Reader Tables} {text rest : List Char}
    (hstep : form.step t s = .ok r) (hread : Reads r text t' rest) :
    (s = "items" ∧ t.items = none ∧ ∃ symbols, t' = { t with items := some symbols }) ∨
      (s = "functions" ∧ t.functions = none ∧
        ∃ functions, t' = { t with functions := some functions }) ∨
      (s ≠ "items" ∧ s ≠ "functions" ∧ t' = t) := by
  by_cases hitems : s = "items"
  · subst hitems
    cases ht : t.items with
    | some symbols => simp [RecordForm.step, form, ht] at hstep
    | none =>
      rw [step_items ht] at hstep
      cases hstep
      obtain ⟨symbols, -, ht'⟩ := hread.of_map
      exact .inl ⟨rfl, rfl, symbols, ht'⟩
  by_cases hfunctions : s = "functions"
  · subst hfunctions
    cases ht : t.functions with
    | some functions => simp [RecordForm.step, form, ht] at hstep
    | none =>
      rw [step_functions ht] at hstep
      cases hstep
      obtain ⟨functions, -, ht'⟩ := hread.of_map
      exact .inr (.inl ⟨rfl, rfl, functions, ht'⟩)
  have hskip : form.step t s = .ok (Reader.map (fun _ => t) skip) := by
    simp [RecordForm.step, form, Ne.symm hitems, Ne.symm hfunctions]
  rw [hskip] at hstep
  cases hstep
  obtain ⟨-, -, ht'⟩ := hread.of_map
  exact .inr (.inr ⟨hitems, hfunctions, ht'⟩)

theorem count_of_run {names : List (Option String)} {t t' : Tables}
    (h : Run form.step t names t') :
    names.count (some "items") + t.items.isSome.toNat = t'.items.isSome.toNat ∧
      names.count (some "functions") + t.functions.isSome.toNat =
        t'.functions.isSome.toNat := by
  induction h with
  | nil => exact ⟨Nat.zero_add _, Nat.zero_add _⟩
  | cons hstep hread _ ih =>
    obtain ⟨rfl, ht, symbols, rfl⟩ | ⟨rfl, ht, functions, rfl⟩ | ⟨hitems, hfunctions, rfl⟩ :=
      step_cases hstep hread
    · rw [ht]
      simpa using ih
    · rw [ht]
      simpa using ih
    · simpa [hitems, hfunctions] using ih

/-! ## What is read is ordered -/

theorem gives_entry : entry.Gives fun f => f.type.Ordered ∧ f.function.Ordered :=
  (gives_pair (gives_value _) (gives_value _)).map fun _ => id

/-- The table of functions, if it has been read, holds ordered descriptions. -/
def Tables.Ordered (t : Tables) : Prop :=
  ∀ functions, t.functions = some functions →
    ∀ f ∈ functions, f.type.Ordered ∧ f.function.Ordered

theorem gives_fields {f : Json.Field Tables} (hf : f ∈ form.fields) {t : Tables} (ht : t.Ordered) :
    (f.read t).Gives Tables.Ordered := by
  simp only [form, List.mem_cons, List.not_mem_nil, or_false] at hf
  cases hf with
  | inl hf =>
    rw [hf]
    intro text t' rest h
    obtain ⟨items, -, rfl⟩ := h.of_map
    exact ht
  | inr hf =>
    rw [hf]
    refine (gives_list gives_entry).map fun functions hfunctions _ h => ?_
    cases h
    exact hfunctions

theorem ordered_of_ofJson {text : String} {m : Metadata} (h : Metadata.ofJson text = .ok m) :
    ∀ f ∈ m.functions, f.type.Ordered ∧ f.function.Ordered := by
  obtain ⟨rest, hread⟩ := reads_of_readAll h
  have hinitial : form.initial.Ordered := nofun
  obtain ⟨t, ht, hfinish⟩ : ∃ t : Tables, t.Ordered ∧ form.finish t = .ok m :=
    RecordForm.gives_read (fun _ hf _ ht => gives_fields hf ht) hinitial hread
  obtain ⟨items, functions⟩ := t
  cases items with
  | none => cases hfinish
  | some items =>
    cases functions with
    | none => cases hfinish
    | some functions =>
      cases hfinish
      exact ht functions rfl

/-! ## What is spelled is a JSON value -/

theorem formed_itemContents : itemContents.Formed := by
  intro symbol text rest h
  cases h with
  | mk hs => exact formed_string hs

theorem ItemSpelled.formed {symbol : String} {text rest : List Char}
    (h : ItemSpelled symbol text rest) : Formed .value text rest := by
  obtain ⟨ms, -, h⟩ := h
  exact Contents.formed_object formed_itemContents h

theorem EntrySpelled.formed {f : FunctionEntry} {text rest : List Char}
    (h : EntrySpelled f text rest) : Formed .value text rest :=
  ListSpelled.formed ValueSpelled.formed h

theorem formed_contents : documentContents.Formed := by
  intro table text rest h
  cases table with
  | items symbols => exact ListSpelled.formed ItemSpelled.formed h
  | functions functions => exact ListSpelled.formed EntrySpelled.formed h

/-! ## Documents that are read have both tables -/

theorem ofJson_eq_ok {ms : List (Member Table)} {text : String} {m : Metadata}
    (h : DocumentSpelled ms text) (hread : Metadata.ofJson text = .ok m) :
    ∃ t, Run form.step form.initial (ms.map documentContents.nameOf) t ∧ form.finish t = .ok m := by
  obtain ⟨start, rest, hbefore, hobject, -⟩ := h
  obtain ⟨_, hread⟩ := reads_of_readAll hread
  have hany : ObjectSpelled AnyMemberSpelled (ms.map documentContents.nameOf) start rest := by
    cases hobject with
    | mk h => exact .mk (h.map documentContents.nameOf fun hm => hm.any formed_contents)
  exact RecordForm.run_of_reads form_fieldsTakeValues hbefore hany hread

/-- Each table has its name once among the members, and no member is without a name. -/
theorem names_of_ofJson {ms : List (Member Table)} {text : String} {m : Metadata}
    (h : DocumentSpelled ms text) (hread : Metadata.ofJson text = .ok m) :
    (ms.map documentContents.nameOf).count (some "items") = 1 ∧
      (ms.map documentContents.nameOf).count (some "functions") = 1 ∧
      none ∉ ms.map documentContents.nameOf := by
  obtain ⟨t, hrun, hfinish⟩ := ofJson_eq_ok h hread
  obtain ⟨hitems, hfunctions⟩ := count_of_run hrun
  obtain ⟨items, functions⟩ := t
  cases items with
  | none => cases hfinish
  | some symbols =>
    cases functions with
    | none => cases hfinish
    | some functions => exact ⟨hitems, hfunctions, hrun.none_not_mem⟩

end SymbolCoverage.Metadata
