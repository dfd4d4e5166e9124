import SymbolCoverage.Discovery.Search
import SymbolCoverage.Proofs.Results

/-!
Loading documents.  A file either holds one, or fails to in one of three ways: it cannot be
read, its bytes are no text, or its text is no metadata.  Of several files all are loaded, or the
first one that fails ends the loading.
-/

namespace SymbolCoverage.Discovery

variable {disk : Disk} {cause : Error} {path : String} {d : Document}

/-- The document that a file holds.  Its source is the path as it stands. -/
inductive Loads (disk : Disk) (path : String) : Document → Prop
  | document {bytes : ByteArray} {text : String} {metadata : Metadata} :
    disk.read path = .ok bytes → String.fromUTF8? bytes = some text →
      Metadata.ofJson text = .ok metadata → Loads disk path ⟨⟨path⟩, metadata⟩

/-- Why a file holds no document: it cannot be read, its bytes are no text, or its text is no
metadata. -/
inductive FailsToLoad (disk : Disk) (path : String) : Error → Prop
  | unreadable {e : Disk.Error} : disk.read path = .error e →
    FailsToLoad disk path (.unreadable path e)
  | invalidText {bytes : ByteArray} : disk.read path = .ok bytes →
    String.fromUTF8? bytes = none → FailsToLoad disk path (.unreadable path .invalidText)
  | invalidDocument {bytes : ByteArray} {text : String} {e : Json.Failure} :
    disk.read path = .ok bytes → String.fromUTF8? bytes = some text →
      Metadata.ofJson text = .error e → FailsToLoad disk path (.invalidDocument path e)

theorem Loads.load (h : Loads disk path d) : load disk path = .ok d := by
  obtain ⟨hbytes, htext, hmetadata⟩ := h
  simp only [Discovery.load, hbytes, htext, hmetadata]

theorem FailsToLoad.load (h : FailsToLoad disk path cause) : load disk path = .error cause := by
  cases h with
  | unreadable hbytes => simp only [Discovery.load, hbytes]
  | invalidText hbytes htext => simp only [Discovery.load, hbytes, htext]
  | invalidDocument hbytes htext hmetadata => simp only [Discovery.load, hbytes, htext, hmetadata]

theorem loads_or_failsToLoad (disk : Disk) (path : String) :
    (∃ d, Loads disk path d) ∨ ∃ cause, FailsToLoad disk path cause := by
  cases hbytes : disk.read path with
  | error e => exact .inr ⟨_, .unreadable hbytes⟩
  | ok bytes =>
    cases htext : String.fromUTF8? bytes with
    | none => exact .inr ⟨_, .invalidText hbytes htext⟩
    | some text =>
      cases hmetadata : Metadata.ofJson text with
      | error e => exact .inr ⟨_, .invalidDocument hbytes htext hmetadata⟩
      | ok metadata => exact .inl ⟨_, .document hbytes htext hmetadata⟩

theorem load_eq_ok_iff : load disk path = .ok d ↔ Loads disk path d := by
  refine ⟨fun h => ?_, Loads.load⟩
  obtain ⟨d', hd'⟩ | ⟨cause, hcause⟩ := loads_or_failsToLoad disk path
  · rw [hd'.load] at h
    cases h
    exact hd'
  · rw [hcause.load] at h
    cases h

theorem FailsToLoad.unreadable_or_invalid (h : FailsToLoad disk path cause) :
    (∃ e, cause = .unreadable path e) ∨ ∃ e, cause = .invalidDocument path e := by
  cases h with
  | unreadable => exact .inl ⟨_, rfl⟩
  | invalidText => exact .inl ⟨_, rfl⟩
  | invalidDocument => exact .inr ⟨_, rfl⟩

theorem load_eq_error_iff : load disk path = .error cause ↔ FailsToLoad disk path cause := by
  refine ⟨fun h => ?_, FailsToLoad.load⟩
  obtain ⟨d, hd⟩ | ⟨cause', hcause'⟩ := loads_or_failsToLoad disk path
  · rw [hd.load] at h
    cases h
  · rw [hcause'.load] at h
    cases h
    exact hcause'

/-! ## Several files -/

theorem collect_loads_or_fails (disk : Disk) (paths : List String) :
    (∃ documents, List.Forall₂ (Loads disk) paths documents ∧
      collect (paths.map (load disk)) = .ok documents) ∨
      ∃ before path cause,
        IsFirst (fun path => ∃ cause, FailsToLoad disk path cause) paths before path ∧
          FailsToLoad disk path cause ∧ collect (paths.map (load disk)) = .error cause := by
  by_cases hfails : ∃ path ∈ paths, ∃ cause, FailsToLoad disk path cause
  · obtain ⟨before, path, hfirst⟩ := exists_isFirst hfails
    obtain ⟨cause, hcause⟩ := hfirst.2.2
    refine .inr ⟨before, path, cause, hfirst, hcause, collect_map_error hfirst ?_ hcause.load⟩
    intro path' hloads
    obtain ⟨d, hd⟩ := (loads_or_failsToLoad disk path').resolve_right hloads
    exact ⟨d, hd.load⟩
  · have hloads : ∀ path ∈ paths, ∃ d, load disk path = .ok d := by
      intro path hpath
      obtain ⟨d, hd⟩ := (loads_or_failsToLoad disk path).resolve_right
        fun hcause => hfails ⟨path, hpath, hcause⟩
      exact ⟨d, hd.load⟩
    obtain ⟨documents, hdocuments⟩ := exists_collect_ok hloads
    refine .inl ⟨documents, ?_, hdocuments⟩
    exact (collect_map_eq_ok hdocuments).imp fun _ _ => load_eq_ok_iff.mp

theorem exists_of_mapM_error {paths : List String} (h : paths.mapM (load disk) = .error cause) :
    ∃ path ∈ paths, load disk path = .error cause := by
  rw [mapM_eq_collect] at h
  obtain ⟨documents, -, hcollect⟩ | ⟨before, path, cause', hfirst, hcause, hcollect⟩ :=
    collect_loads_or_fails disk paths
  · rw [hcollect] at h
    cases h
  · rw [hcollect] at h
    cases h
    exact ⟨path, hfirst.mem, hcause.load⟩

end SymbolCoverage.Discovery
