import SymbolCoverage.Coverage.Explanation
import SymbolCoverage.Disk.Tree
import SymbolCoverage.Proofs.Coverage.Outcome
import SymbolCoverage.Proofs.Discovery.Failing
import SymbolCoverage.Proofs.Text.Lines

/-!
Brief explanations.  A failure is explained in one line as long as the texts that it shows
are lines themselves: crate names, symbols and paths are shown as they are, and so is what
the disk and the library for patterns say.
-/

namespace SymbolCoverage

/-! ## Messages -/

theorem Symbol.Malformation.oneLine_message (reason : Symbol.Malformation) :
    OneLine reason.message := by
  unfold message
  cases reason with
  | emptyBody => decide
  | missingLength offset => exact oneLine_append.mpr ⟨by decide, oneLine_toString offset⟩
  | lengthOverflow offset =>
    simp only [oneLine_append]
    exact ⟨⟨by decide, oneLine_toString offset⟩, by decide⟩
  | groupOverrun offset declared remaining =>
    simp only [oneLine_append]
    exact ⟨⟨⟨⟨⟨⟨by decide, oneLine_toString offset⟩, by decide⟩, oneLine_toString declared⟩,
      by decide⟩, oneLine_toString remaining⟩, by decide⟩

/-- The symbol is shown as it is. -/
theorem Symbol.MalformedSymbol.oneLine_message_iff (e : Symbol.MalformedSymbol) :
    OneLine e.message ↔ OneLine e.symbol := by
  have hbefore : OneLine "malformed symbol '" := by decide
  have hafter : OneLine "': " := by decide
  unfold message
  simp only [oneLine_append, hbefore, hafter, e.reason.oneLine_message, true_and, and_true]

theorem Json.Value.oneLine_kindName (v : Json.Value) : OneLine v.kindName := by
  cases v with
  | null => exact (by decide : OneLine "null")
  | bool _ => exact (by decide : OneLine "boolean")
  | number _ => exact (by decide : OneLine "number")
  | string _ => exact (by decide : OneLine "string")
  | array _ => exact (by decide : OneLine "array")
  | object _ => exact (by decide : OneLine "object")

/-- The descriptions of faulty entries name kinds of values, which are fixed words. -/
theorem FunctionEntry.Faulty.oneLine_message {f : FunctionEntry} {fault : DescriptorFault}
    (h : f.Faulty fault) : OneLine fault.message := by
  unfold DescriptorFault.message
  cases h with
  | notAnObject =>
    simp only [oneLine_append]
    exact ⟨⟨by decide, f.function.oneLine_kindName⟩, by decide⟩
  | @linkNameNotAString _ v =>
    simp only [oneLine_append]
    exact ⟨⟨by decide, v.oneLine_kindName⟩, by decide⟩

theorem Disk.Error.oneLine_message_iff (e : Disk.Error) :
    OneLine e.message ↔ OneLine e.description := by
  cases e with
  | system code kind text =>
    have hnumber : OneLine s!" (os error {code})" :=
      oneLine_append.mpr ⟨oneLine_append.mpr ⟨by decide, oneLine_toString code⟩, by decide⟩
    rw [message, oneLine_append, and_iff_left hnumber, description]
  | described kind text => rfl
  | ofKind kind text => rfl

theorem Discovery.Error.oneLine_message_iff (e : Discovery.Error) :
    OneLine e.message ↔ ∀ text ∈ e.shown, OneLine text := by
  unfold message shown
  cases e with
  | noCandidates name searched =>
    have hbefore : OneLine "no metadata file for crate '" := by decide
    have hbetween : OneLine "' found in " := by decide
    simp only [oneLine_append, hbefore, hbetween, List.forall_mem_cons, List.not_mem_nil,
      false_implies, implies_true, true_and, and_true]
  | ambiguous name candidates =>
    have hbefore : OneLine "non-unique metadata files for crate '" := by decide
    have hbetween : OneLine "': " := by decide
    have hcandidates := oneLine_intercalate (by decide : OneLine ", ")
      (candidates.map fun path => "'" ++ path ++ "'")
    have hquote : OneLine "'" := by decide
    simp only [oneLine_append, hbefore, hbetween, hquote, hcandidates, List.forall_mem_map,
      List.forall_mem_cons, true_and, and_true]
  | invalidName name cause =>
    have hbefore : OneLine "invalid crate name '" := by decide
    have hbetween : OneLine "': " := by decide
    simp only [oneLine_append, hbefore, hbetween, List.forall_mem_cons, List.not_mem_nil,
      false_implies, implies_true, true_and, and_true]
  | unreadable path cause =>
    have hbefore : OneLine "io error reading " := by decide
    have hbetween : OneLine ": " := by decide
    simp only [oneLine_append, hbefore, hbetween, cause.oneLine_message_iff,
      List.forall_mem_cons, List.not_mem_nil, false_implies, implies_true, true_and, and_true]
  | invalidDocument path cause =>
    have hbefore : OneLine "invalid metadata in " := by decide
    have hbetween : OneLine ": " := by decide
    simp only [oneLine_append, hbefore, hbetween, List.forall_mem_cons, List.not_mem_nil,
      false_implies, implies_true, true_and, and_true]

/-- The error behind a discovery error shows nothing that the discovery error does not. -/
theorem Discovery.Error.oneLine_of_mem_causes {e : Discovery.Error} {text : String}
    (h : ∀ shown ∈ e.shown, OneLine shown) (htext : text ∈ e.causes) : OneLine text := by
  have hlast : ∀ first second, e.shown = [first, second] → OneLine second :=
    fun first second heq => h second (heq ▸ List.mem_cons_of_mem first List.mem_cons_self)
  cases e with
  | noCandidates => cases htext
  | ambiguous => cases htext
  | invalidName => exact List.mem_singleton.mp htext ▸ hlast _ _ rfl
  | unreadable _ cause =>
    exact List.mem_singleton.mp htext ▸ cause.oneLine_message_iff.mpr (hlast _ _ rfl)
  | invalidDocument => exact List.mem_singleton.mp htext ▸ hlast _ _ rfl

namespace Failure

/-- The texts that an explanation shows as they are. -/
def shown : Failure → List String
  | .malformedSymbol crate cause => [crate, cause.symbol]
  | .schemaViolation crate _ => [crate]
  | .integrityViolation .. => []
  | .discovery cause => cause.shown

/-- A brief explanation is one line exactly if all texts are lines that it shows as they
are. -/
theorem oneLine_explain_iff {e : Failure}
    (hfault : ∀ crate cause, e = .schemaViolation crate cause → OneLine cause.fault.message) :
    OneLine (e.explain .brief) ↔ ∀ text ∈ e.shown, OneLine text := by
  have hprefix : OneLine "Error: " := by decide
  have hquote : OneLine "'" := by decide
  unfold explain
  rw [oneLine_append, and_iff_right hprefix, oneLine_intercalate (by decide),
    List.forall_mem_cons]
  cases e with
  | malformedSymbol crate cause =>
    have hbefore : OneLine "malformed symbol in crate '" := by decide
    unfold message causes shown
    simp only [oneLine_append, hbefore, hquote, cause.oneLine_message_iff, List.forall_mem_cons,
      true_and, and_true]
  | schemaViolation crate cause =>
    have hbefore : OneLine "ill-formed functions table in crate '" := by decide
    have hcause : OneLine cause.message := by
      unfold EntryFault.message
      simp only [oneLine_append]
      exact ⟨⟨⟨by decide, oneLine_toString cause.entry⟩, by decide⟩, hfault crate cause rfl⟩
    unfold message causes shown
    simp only [oneLine_append, hbefore, hquote, hcause, List.forall_mem_singleton, true_and,
      and_true]
  | integrityViolation distinct indexed =>
    unfold message causes shown
    simp only [oneLine_append]
    refine iff_of_true ⟨⟨⟨⟨⟨by decide, oneLine_toString distinct⟩, by decide⟩,
      oneLine_toString indexed⟩, by decide⟩, nofun⟩ nofun
  | discovery cause =>
    have hmessage : OneLine "metadata discovery failed" := by decide
    unfold message causes shown
    rw [and_iff_right hmessage, List.forall_mem_cons, cause.oneLine_message_iff,
      and_iff_left_iff_imp]
    exact fun hshown _ => Discovery.Error.oneLine_of_mem_causes hshown

end Failure

/-! ## The failures of a check -/

/-- What a failure of a check may show of a document: the name of its crate, and its
symbols. -/
inductive Document.Shows (d : Document) : String → Prop
  | crate : Shows d d.shortName
  | item {symbol : String} : symbol ∈ d.metadata.items → Shows d symbol
  | link {name : String} : d.Links name → Shows d name

theorem Symbol.symbol_of_decode {symbol : String} {cause : MalformedSymbol}
    (h : decode symbol = .error cause) : cause.symbol = symbol := by
  rw [decode] at h
  split at h
  next => cases h
  next =>
    split at h
    next => cases h
    next =>
      cases h
      rfl

variable {parallel : Bool} {documents : List Document} {e : Failure} {text : String}

theorem Document.Shows.of_malformed {d : Document} {symbol : String}
    {cause : Symbol.MalformedSymbol} (h : d.Shows symbol)
    (hcause : Symbol.decode symbol = .error cause)
    (htext : text ∈ (Failure.malformedSymbol d.shortName cause).shown) : d.Shows text := by
  rw [Failure.shown, List.mem_cons, List.mem_singleton, Symbol.symbol_of_decode hcause] at htext
  cases htext with
  | inl htext => exact htext ▸ .crate
  | inr htext => exact htext ▸ h

theorem shown_of_check (h : check parallel documents = .error e) (htext : text ∈ e.shown) :
    ∃ d ∈ documents, d.Shows text := by
  obtain ⟨d, hd, symbol, hsymbol, cause, hcause, rfl⟩ | ⟨d, hd, f, hf, position, hfails⟩ |
    ⟨distinct, indexed, rfl⟩ := check_error_cases h
  · exact ⟨d, hd, .of_malformed (.item hsymbol) hcause htext⟩
  · cases hfails with
    | faulty => exact ⟨d, hd, List.mem_singleton.mp htext ▸ .crate⟩
    | malformed hname hcause => exact ⟨d, hd, .of_malformed (.link ⟨f, hf, hname⟩) hcause htext⟩
  · cases htext

theorem oneLine_fault_of_check {crate : String} {cause : EntryFault}
    (h : check parallel documents = .error (.schemaViolation crate cause)) :
    OneLine cause.fault.message := by
  obtain ⟨_, _, _, _, _, _, heq⟩ | ⟨_, _, _, _, _, hfails⟩ | ⟨_, _, heq⟩ := check_error_cases h
  · cases heq
  · cases hfails with
    | faulty hfault => exact hfault.oneLine_message
  · cases heq

/-- The failures of a check are explained in one line if crate names and symbols are
lines. -/
theorem check_explained_in_one_line (h : check parallel documents = .error e)
    (hdocuments : ∀ d ∈ documents, ∀ text, d.Shows text → OneLine text) :
    OneLine (e.explain .brief) := by
  refine (Failure.oneLine_explain_iff ?_).mpr ?_
  · intro crate cause heq
    exact oneLine_fault_of_check (heq ▸ h)
  · intro text htext
    obtain ⟨d, hd, hshows⟩ := shown_of_check h htext
    exact hdocuments d hd text hshows

/-! ## The failures of a run -/

theorem Discovery.Request.oneLine_fileCount (request : Discovery.Request) :
    OneLine request.fileCount := by
  unfold fileCount
  exact oneLine_append.mpr ⟨oneLine_toString _, by decide⟩

variable {library : Text.PatternLibrary} {disk : Disk} {request : Discovery.Request}

theorem run_error_cases (h : run library disk request parallel = .error e) :
    (∃ cause, Discovery.discover library disk request = .error cause ∧ e = .discovery cause) ∨
      ∃ documents, Discovery.discover library disk request = .ok documents ∧
        check parallel documents = .error e := by
  rw [run] at h
  split at h
  next cause hcause =>
    cases h
    exact .inl ⟨cause, hcause, rfl⟩
  next documents hdocuments => exact .inr ⟨documents, hdocuments, h⟩

theorem run_of_discover_error {cause : Discovery.Error}
    (h : Discovery.discover library disk request = .error cause) (parallel : Bool) :
    run library disk request parallel = .error (.discovery cause) := by
  rw [run, h]

/-- The failures of a run are explained in one line if all texts are lines that the request
brings up, and so are the crate names and the symbols of the documents it finds. -/
theorem run_explained_in_one_line (h : run library disk request parallel = .error e)
    (hjson : ∀ path cause, e ≠ .discovery (.invalidDocument path cause))
    (hrequest : ∀ text, request.Mentions library disk text → OneLine text)
    (hdocuments : ∀ documents, Discovery.discover library disk request = .ok documents →
      ∀ d ∈ documents, ∀ text, d.Shows text → OneLine text) :
    OneLine (e.explain .brief) := by
  obtain ⟨cause, hcause, rfl⟩ | ⟨documents, hfound, hcheck⟩ := run_error_cases h
  · have hjson' : ∀ path e, cause ≠ .invalidDocument path e :=
      fun path e heq => hjson path e (congrArg Failure.discovery heq)
    refine (Failure.oneLine_explain_iff (by nofun)).mpr ?_
    intro text htext
    obtain hmentions | hcount | hwords :=
      Discovery.Request.shown_of_discover hcause hjson' htext
    · exact hrequest text hmentions
    · exact hcount ▸ request.oneLine_fileCount
    · exact hwords ▸ (by decide)
  · exact check_explained_in_one_line hcheck (hdocuments documents hfound)

/-- The brief explanation of a failure starts with a fixed word.  It is one line exactly if
all texts are lines that it shows as they are. -/
theorem explain_brief
    (h : (∃ parallel documents, check parallel documents = .error e) ∨
      ∃ library disk request parallel, run library disk request parallel = .error e) :
    "Error: ".toList <+: (e.explain .brief).toList ∧
      (OneLine (e.explain .brief) ↔ ∀ text ∈ e.shown, OneLine text) := by
  constructor
  · unfold Failure.explain
    rw [String.toList_append]
    exact List.prefix_append _ _
  · refine Failure.oneLine_explain_iff ?_
    intro crate cause heq
    subst heq
    obtain ⟨_, _, hcheck⟩ | ⟨_, _, _, _, hrun⟩ := h
    · exact oneLine_fault_of_check hcheck
    · obtain ⟨_, -, heq⟩ | ⟨_, -, hcheck⟩ := run_error_cases hrun
      · cases heq
      · exact oneLine_fault_of_check hcheck

/-- A directory that is not there, and a name that is refused before any directory is looked
for. -/
theorem explain_brief_missingDirectory :
    (∃ e, run Text.defaultLibrary (Disk.Tree.ofPaths []).disk ⟨"a", [], "b\nc"⟩ true = .error e ∧
      "Error: ".toList <+: (e.explain .brief).toList ∧
      (OneLine (e.explain .brief) ↔ ∀ text ∈ e.shown, OneLine text)) ∧
    ∃ e, run Text.defaultLibrary (Disk.Tree.ofPaths []).disk
        ⟨Discovery.NamePattern.endlessName, [], "."⟩ true = .error e ∧
      (OneLine (e.explain .brief) ↔ ∀ text ∈ e.shown, OneLine text) := by
  constructor
  · have hrun : failure? (run Text.defaultLibrary (Disk.Tree.ofPaths []).disk ⟨"a", [], "b\nc"⟩
        true) = some (.discovery (.unreadable "b\nc" .notFound)) := by
      decide +kernel
    have herror := failure?_eq_some.mp hrun
    exact ⟨_, herror, explain_brief (.inr ⟨_, _, _, _, herror⟩)⟩
  · obtain ⟨-, hdiscover⟩ := @Discovery.discover_refused _
      ⟨Discovery.NamePattern.endlessName, [], "."⟩ _ Discovery.NamePattern.compile_endlessName
    have herror := run_of_discover_error (hdiscover (Disk.Tree.ofPaths []).disk) true
    exact ⟨_, herror, (explain_brief (.inr ⟨_, _, _, _, herror⟩)).2⟩

/-- A crate with a symbol that holds a line end, and no group length. -/
def brokenCrate : Document := ⟨⟨"a"⟩, ⟨["_ZN\n17h0123456789abcdefE"], []⟩⟩

/-- Symbols are shown as they are, so a brief explanation may have several lines. -/
theorem explain_brief_brokenCrate :
    check true [brokenCrate] =
        .error (.malformedSymbol "a" ⟨"_ZN\n17h0123456789abcdefE", .missingLength 0⟩) ∧
      ¬ OneLine (Failure.explain
        (.malformedSymbol "a" ⟨"_ZN\n17h0123456789abcdefE", .missingLength 0⟩) .brief) := by
  have hcheck : failure? (check true [brokenCrate]) =
      some (.malformedSymbol "a" ⟨"_ZN\n17h0123456789abcdefE", .missingLength 0⟩) := by
    decide +kernel
  refine ⟨failure?_eq_some.mp hcheck, ?_⟩
  rw [Failure.oneLine_explain_iff (by nofun)]
  intro h
  have hsymbol : OneLine "_ZN\n17h0123456789abcdefE" :=
    h _ (List.mem_cons_of_mem _ List.mem_cons_self)
  exact absurd hsymbol (by decide)

end SymbolCoverage
