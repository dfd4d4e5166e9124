import SymbolCoverage.Coverage.Reference
import SymbolCoverage.Proofs.Coverage.Buckets

/-!
The references that a function table makes.  An entry links a name, links nothing or
is bad.  Without a bad entry the references of a document are those of the names it
links, and otherwise the first bad entry decides how classification fails.
-/

namespace SymbolCoverage

open SymbolCoverage.Symbol

namespace FunctionEntry

variable {f : FunctionEntry} {name : String} {fault : DescriptorFault}

def Links (f : FunctionEntry) (name : String) : Prop :=
  ∃ members, f.function = .object members ∧
    members.lookup linkMember = some (.string name) ∧ name ≠ ""

/-- The description of a function is no object, or its link name is neither null nor a
string. -/
inductive Faulty (f : FunctionEntry) : DescriptorFault → Prop
  | notAnObject (h : ∀ members, f.function ≠ .object members) :
    Faulty f (.notAnObject f.function.kindName)
  | linkNameNotAString {members : Json.Members} {v : Json.Value}
    (hf : f.function = .object members) (hv : members.lookup linkMember = some v)
    (hnull : v ≠ .null) (hstring : ∀ text, v ≠ .string text) :
    Faulty f (.linkNameNotAString v.kindName)

/-- How an entry at a position of the table of a crate fails. -/
inductive Fails (crate : String) (position : Nat) (f : FunctionEntry) : Failure → Prop
  | faulty {fault : DescriptorFault} (h : f.Faulty fault) :
    Fails crate position f (.schemaViolation crate ⟨position, fault⟩)
  | malformed {name : String} {e : MalformedSymbol} (h : f.Links name)
    (he : decode name = .error e) : Fails crate position f (.malformedSymbol crate e)

def Bad (f : FunctionEntry) : Prop :=
  (∃ fault, f.Faulty fault) ∨ ∃ name, f.Links name ∧ Malformed name

theorem bad_iff_fails (crate : String) (position : Nat) :
    f.Bad ↔ ∃ failure, f.Fails crate position failure := by
  constructor
  · intro h
    rcases h with ⟨fault, hfault⟩ | ⟨name, hname, e, he⟩
    · exact ⟨_, .faulty hfault⟩
    · exact ⟨_, .malformed hname he⟩
  · intro h
    obtain ⟨failure, hfails⟩ := h
    cases hfails with
    | faulty hfault => exact Or.inl ⟨_, hfault⟩
    | malformed hname he => exact Or.inr ⟨_, hname, _, he⟩

theorem linkedName_eq_some_iff : f.linkedName = .ok (some name) ↔ f.Links name := by
  unfold linkedName Links
  cases f.function with
  | object members =>
    simp only [Json.Value.object.injEq, exists_eq_left']
    cases members.lookup linkMember with
    | none => simp
    | some v =>
      cases v with
      | string text =>
        show Except.ok (if text = "" then none else some text) = Except.ok (some name) ↔ _
        simp only [Except.ok.injEq, Option.some.injEq, Json.Value.string.injEq]
        by_cases htext : text = ""
        · rw [if_pos htext, htext]
          simp [eq_comm]
        · rw [if_neg htext, Option.some.injEq]
          exact ⟨fun h => ⟨h, h ▸ htext⟩, And.left⟩
      | _ => simp
  | _ => simp

theorem linkedName_eq_error_iff : f.linkedName = .error fault ↔ f.Faulty fault := by
  constructor
  · intro h
    cases hf : f.function with
    | object members =>
      cases hv : members.lookup linkMember with
      | none => simp [linkedName, hf, hv] at h
      | some v =>
        cases v with
        | null => simp [linkedName, hf, hv] at h
        | string text => simp [linkedName, hf, hv] at h
        | _ =>
          simp only [linkedName, hf, hv, Except.error.injEq] at h
          rw [← h]
          exact .linkNameNotAString hf hv (by simp) (by simp)
    | _ =>
      simp only [linkedName, hf, Except.error.injEq] at h
      rw [← h, ← hf]
      exact .notAnObject (by simp [hf])
  · intro h
    cases h with
    | notAnObject hobject =>
      cases hf : f.function with
      | object members => exact absurd hf (hobject members)
      | _ => simp [linkedName, hf]
    | @linkNameNotAString members v hf hv hnull hstring =>
      cases v with
      | null => exact absurd rfl hnull
      | string text => exact absurd rfl (hstring text)
      | _ => simp [linkedName, hf, hv]

end FunctionEntry

namespace Metadata

open FunctionEntry

theorem linkedNamesFrom_append (start : Nat) (fs gs : List FunctionEntry) :
    linkedNamesFrom start (fs ++ gs) =
      linkedNamesFrom start fs ++ linkedNamesFrom (start + fs.length) gs := by
  induction fs generalizing start with
  | nil => rfl
  | cons f fs ih =>
    have hnext : start + (f :: fs).length = start + 1 + fs.length := by
      rw [List.length_cons]
      omega
    rw [List.cons_append, hnext]
    cases hf : f.linkedName with
    | error fault => simp only [linkedNamesFrom, hf, ih, List.cons_append]
    | ok name? =>
      cases name? with
      | none => simp only [linkedNamesFrom, hf, ih]
      | some name => simp only [linkedNamesFrom, hf, ih, List.cons_append]

theorem linkedNamesFrom_cons (start : Nat) (f : FunctionEntry) (fs : List FunctionEntry) :
    linkedNamesFrom start (f :: fs) =
      linkedNamesFrom start [f] ++ linkedNamesFrom (start + 1) fs :=
  linkedNamesFrom_append start [f] fs

theorem ok_mem_linkedNamesFrom_iff (start : Nat) {fs : List FunctionEntry} {name : String} :
    .ok name ∈ linkedNamesFrom start fs ↔ ∃ f ∈ fs, f.Links name := by
  simp only [← linkedName_eq_some_iff]
  induction fs generalizing start with
  | nil => simp [linkedNamesFrom]
  | cons f fs ih =>
    rw [List.exists_mem_cons_iff, ← ih (start + 1)]
    cases hf : f.linkedName with
    | error fault => simp [linkedNamesFrom, hf]
    | ok name? =>
      cases name? with
      | none => simp [linkedNamesFrom, hf]
      | some name' => simp [linkedNamesFrom, hf, eq_comm]

end Metadata

def Document.HasBadEntry (d : Document) : Prop := ∃ f ∈ d.metadata.functions, f.Bad

def Document.Links (d : Document) (name : String) : Prop :=
  ∃ f ∈ d.metadata.functions, f.Links name

theorem Symbol.isOpened_of_malformed {symbol : String} (h : Malformed symbol) :
    isOpened symbol = true := by
  obtain ⟨e, he⟩ := h
  by_contra hopened
  have hverbatim : Envelope.ofChars? symbol.toList = none := if_neg hopened
  rw [decode, hverbatim] at he
  cases he

namespace Reference

variable {index : PresentIndex} {source : CrateId} {name : String}

theorem classify_of_not_opened (h : ¬ isOpened name = true) :
    classify index source name = .ok (.foreign name) := by
  rw [classify, if_neg h]

/-- A name that opens as a structured symbol is looked up under its entry. -/
theorem classify_of_opened (h : isOpened name = true) :
    classify index source name = (entryOf name).map fun entry =>
      if index.contains entry.1 entry.2 then .covered else .missing entry.1 entry.2 source := by
  rw [classify, if_pos h, entryOf]
  cases decode name with
  | error e => rfl
  | ok decoded =>
    show (if _ then _ else _) = Except.ok (if _ then _ else _)
    rw [apply_ite Except.ok]
    rfl

theorem classify_eq_error_iff {e : MalformedSymbol} :
    classify index source name = .error e ↔ decode name = .error e := by
  by_cases h : isOpened name = true
  · rw [classify_of_opened h, map_eq_error, entryOf, map_eq_error]
  · have hnot : ¬ decode name = .error e := fun he => h (isOpened_of_malformed ⟨e, he⟩)
    rw [classify_of_not_opened h]
    simp [hnot]

theorem classify_eq_foreign_iff {text : String} :
    classify index source name = .ok (.foreign text) ↔ name = text ∧ ¬ isOpened name = true := by
  by_cases h : isOpened name = true
  · rw [classify_of_opened h, map_eq_ok]
    constructor
    · intro hentry
      obtain ⟨entry, -, hreference⟩ := hentry
      split at hreference <;> cases hreference
    · intro hname
      exact absurd h hname.2
  · rw [classify_of_not_opened h]
    simp [h]

theorem classify_eq_missing_iff {key : Key} {hash : Option Hash} {crate : CrateId} :
    classify index source name = .ok (.missing key hash crate) ↔
      isOpened name = true ∧ entryOf name = .ok (key, hash) ∧ ¬ index.contains key hash = true ∧
        source = crate := by
  by_cases h : isOpened name = true
  · rw [classify_of_opened h, map_eq_ok]
    constructor
    · intro hentry
      obtain ⟨⟨key', hash'⟩, hentry, hreference⟩ := hentry
      split at hreference
      · cases hreference
      · cases hreference
        exact ⟨h, hentry, by assumption, rfl⟩
    · intro hmissing
      obtain ⟨-, hentry, habsent, rfl⟩ := hmissing
      exact ⟨(key, hash), hentry, if_neg habsent⟩
  · rw [classify_of_not_opened h]
    simp [h]

/-! ## Tables -/

section Tables

variable {names xs ys : List (Except EntryFault String)} {references : List Reference}

theorem classifyAll_cons (x : Except EntryFault String) (xs : List (Except EntryFault String)) :
    classifyAll index source (x :: xs) = do
      let first ← classifyAll index source [x]
      let rest ← classifyAll index source xs
      return first ++ rest := by
  cases x with
  | error fault => rfl
  | ok name =>
    simp only [classifyAll]
    cases classify index source name with
    | error e => rfl
    | ok reference =>
      cases reference with
      | covered => cases classifyAll index source xs <;> rfl
      | _ => cases classifyAll index source xs <;> rfl

theorem classifyAll_append :
    classifyAll index source (xs ++ ys) = do
      let first ← classifyAll index source xs
      let rest ← classifyAll index source ys
      return first ++ rest := by
  induction xs with
  | nil =>
    rw [List.nil_append]
    cases classifyAll index source ys <;> rfl
  | cons x xs ih =>
    rw [List.cons_append, classifyAll_cons, classifyAll_cons x xs, ih]
    simp only [bind_assoc, pure_bind, List.append_assoc]

theorem mem_of_classifyAll_eq_ok (h : classifyAll index source names = .ok references)
    {reference : Reference} :
    reference ∈ references ↔
      reference ≠ .covered ∧
        ∃ name, .ok name ∈ names ∧ classify index source name = .ok reference := by
  induction names generalizing references with
  | nil =>
    cases h
    simp
  | cons x xs ih =>
    cases x with
    | error fault => cases h
    | ok name =>
      rw [classifyAll] at h
      cases hname : classify index source name with
      | error e =>
        rw [hname] at h
        cases h
      | ok first =>
        rw [hname] at h
        have hrest : ∃ rest, classifyAll index source xs = .ok rest ∧
            (reference ∈ references ↔
              (reference ≠ .covered ∧ first = reference) ∨ reference ∈ rest) := by
          cases first with
          | covered => exact ⟨references, h, by simp [eq_comm]⟩
          | _ =>
            obtain ⟨rest, hrest, rfl⟩ := map_eq_ok.mp h
            refine ⟨rest, hrest, ?_⟩
            rw [List.mem_cons]
            refine or_congr_left ⟨fun heq => ?_, fun hfirst => hfirst.2.symm⟩
            exact ⟨by simp [heq], heq.symm⟩
        obtain ⟨rest, hrest, hmem⟩ := hrest
        rw [hmem, ih hrest, ← and_or_left]
        simp [hname, or_and_right, exists_or]

theorem classifyAll_entry_error_iff {position : Nat} {f : FunctionEntry} {failure : Failure} :
    classifyAll index source (Metadata.linkedNamesFrom position [f]) = .error failure ↔
      f.Fails source.shortName position failure := by
  constructor
  · intro h
    cases hf : f.linkedName with
    | error fault =>
      simp only [Metadata.linkedNamesFrom, hf, classifyAll, Except.error.injEq] at h
      rw [← h]
      exact .faulty (FunctionEntry.linkedName_eq_error_iff.mp hf)
    | ok name? =>
      cases name? with
      | none => simp [Metadata.linkedNamesFrom, hf, classifyAll] at h
      | some name =>
        cases hname : classify index source name with
        | ok reference =>
          cases reference <;>
            simp [Metadata.linkedNamesFrom, hf, classifyAll, hname, Except.map] at h
        | error e =>
          simp only [Metadata.linkedNamesFrom, hf, classifyAll, hname, Except.error.injEq] at h
          rw [← h]
          exact .malformed (FunctionEntry.linkedName_eq_some_iff.mp hf)
            (classify_eq_error_iff.mp hname)
  · intro h
    cases h with
    | faulty hfault =>
      have hf := FunctionEntry.linkedName_eq_error_iff.mpr hfault
      simp only [Metadata.linkedNamesFrom, hf, classifyAll]
    | @malformed name e hlinks he =>
      have hf := FunctionEntry.linkedName_eq_some_iff.mpr hlinks
      have hname : classify index source name = .error e := classify_eq_error_iff.mpr he
      simp only [Metadata.linkedNamesFrom, hf, classifyAll, hname]

theorem exists_classifyAll_ok (index : PresentIndex) (source : CrateId) {fs : List FunctionEntry}
    (h : ∀ f ∈ fs, ¬ f.Bad) (start : Nat) :
    ∃ references,
      classifyAll index source (Metadata.linkedNamesFrom start fs) = .ok references := by
  induction fs generalizing start with
  | nil => exact ⟨[], rfl⟩
  | cons f fs ih =>
    rw [List.forall_mem_cons] at h
    rw [Metadata.linkedNamesFrom_cons, classifyAll_append]
    cases hfirst : classifyAll index source (Metadata.linkedNamesFrom start [f]) with
    | error failure =>
      have hfails := classifyAll_entry_error_iff.mp hfirst
      exact absurd ((FunctionEntry.bad_iff_fails _ _).mpr ⟨failure, hfails⟩) h.1
    | ok first =>
      obtain ⟨rest, hrest⟩ := ih h.2 (start + 1)
      rw [hrest]
      exact ⟨first ++ rest, rfl⟩

/-- The first bad entry decides, at its position in the whole table. -/
theorem classifyAll_error {fs before : List FunctionEntry} {f : FunctionEntry} {failure : Failure}
    (hfirst : IsFirst FunctionEntry.Bad fs before f)
    (hfails : f.Fails source.shortName before.length failure) :
    classifyAll index source (Metadata.linkedNamesFrom 0 fs) = .error failure := by
  -- The table splits at `f`, and what stands before it classifies without failure.
  obtain ⟨⟨after, rfl⟩, hbefore, -⟩ := hfirst
  obtain ⟨references, hok⟩ := exists_classifyAll_ok index source hbefore 0
  rw [Metadata.linkedNamesFrom_append, classifyAll_append, hok, Nat.zero_add,
    Metadata.linkedNamesFrom_cons, classifyAll_append, classifyAll_entry_error_iff.mpr hfails]
  rfl

end Tables

/-! ## Documents -/

variable {d : Document} {references : List Reference}

theorem exists_ofDocument_ok (index : PresentIndex) (h : ¬ d.HasBadEntry) :
    ∃ references, ofDocument index d = .ok references :=
  exists_classifyAll_ok index d.id (fun f hf hbad => h ⟨f, hf, hbad⟩) 0

theorem ofDocument_error {before : List FunctionEntry} {f : FunctionEntry} {failure : Failure}
    (hfirst : IsFirst FunctionEntry.Bad d.metadata.functions before f)
    (hfails : f.Fails d.shortName before.length failure) :
    ofDocument index d = .error failure :=
  classifyAll_error hfirst hfails

theorem mem_of_ofDocument (h : ofDocument index d = .ok references) {reference : Reference} :
    reference ∈ references ↔
      reference ≠ .covered ∧ ∃ name, d.Links name ∧ classify index d.id name = .ok reference := by
  rw [mem_of_classifyAll_eq_ok h]
  simp only [Metadata.linkedNames, Metadata.ok_mem_linkedNamesFrom_iff]
  rfl

theorem foreign_mem_iff (h : ofDocument index d = .ok references) {name : String} :
    .foreign name ∈ references ↔ d.Links name ∧ ¬ isOpened name = true := by
  rw [mem_of_ofDocument h]
  simp only [classify_eq_foreign_iff]
  simp

theorem missing_mem_iff (h : ofDocument index d = .ok references) {key : Key} {hash : Option Hash}
    {crate : CrateId} :
    .missing key hash crate ∈ references ↔
      d.id = crate ∧ ∃ name, d.Links name ∧ isOpened name = true ∧
        entryOf name = .ok (key, hash) ∧ ¬ index.contains key hash = true := by
  rw [mem_of_ofDocument h]
  simp only [classify_eq_missing_iff]
  constructor
  · intro hmissing
    obtain ⟨-, name, hlinks, hopened, hentry, habsent, hcrate⟩ := hmissing
    exact ⟨hcrate, name, hlinks, hopened, hentry, habsent⟩
  · intro hmissing
    obtain ⟨hcrate, name, hlinks, hopened, hentry, habsent⟩ := hmissing
    exact ⟨by simp, name, hlinks, hopened, hentry, habsent, hcrate⟩

end Reference
end SymbolCoverage
