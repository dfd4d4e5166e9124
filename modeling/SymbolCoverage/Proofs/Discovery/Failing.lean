import SymbolCoverage.Proofs.Discovery.Loading
import SymbolCoverage.Proofs.Discovery.NamePatterns

/-!
How a discovery fails, and which texts its error shows.
-/

namespace SymbolCoverage.Discovery

variable {library : Text.PatternLibrary} {disk : Disk} {request : Request} {pattern : NamePattern}
variable {cause : Error} {path crate : String}

/-- What the message of a discovery error shows as it is. -/
def Error.shown : Error → List String
  | .noCandidates name searched => [name, searched]
  | .ambiguous name candidates => name :: candidates
  | .invalidName name cause => [name, cause.message]
  | .unreadable path cause => [path, cause.description]
  | .invalidDocument path cause => [path, cause.message]

/-- What a request brings up: its own texts, the paths of the directory that it searches, and
what the library and the disk say where they fail. -/
inductive Request.Mentions (library : Text.PatternLibrary) (disk : Disk) (request : Request) :
    String → Prop
  | crateName : Mentions library disk request request.crateName
  | searchDir : Mentions library disk request request.searchDir
  | file {path : String} : path ∈ request.files → Mentions library disk request path
  | found {names : List String} {name : String} :
    disk.entries request.searchDir = .ok names → name ∈ names →
      Mentions library disk request (Disk.join request.searchDir name)
  | refused {fault : Text.PatternFault} :
    library.compile (NamePattern.source library request.crateName) = .error fault →
      Mentions library disk request fault.message
  | unlisted {e : Disk.Error} : disk.entries request.searchDir = .error e →
    Mentions library disk request e.description
  | unread {path : String} {e : Disk.Error} : disk.read path = .error e →
    Mentions library disk request e.description

/-- A name that is refused ends the discovery before the disk is looked at. -/
theorem discover_refused (h : NamePattern.compile library request.crateName = .error cause) :
    (∃ fault, cause = .invalidName request.crateName fault) ∧
      ∀ disk, discover library disk request = .error cause := by
  constructor
  · obtain ⟨fault, -, hcause⟩ := NamePattern.compile_eq_error_iff.mp h
    exact ⟨fault, hcause⟩
  · intro disk
    rw [discover, h]
    rfl

theorem Request.mentions_of_mem_pair {first second text : String}
    (hfirst : request.Mentions library disk first) (hsecond : request.Mentions library disk second)
    (htext : text ∈ [first, second]) : request.Mentions library disk text := by
  rw [List.mem_cons, List.mem_singleton] at htext
  cases htext with
  | inl htext => exact htext ▸ hfirst
  | inr htext => exact htext ▸ hsecond

theorem Request.mentions_of_compile {text : String}
    (h : NamePattern.compile library request.crateName = .error cause)
    (htext : text ∈ cause.shown) : request.Mentions library disk text := by
  obtain ⟨fault, hfault, rfl⟩ := NamePattern.compile_eq_error_iff.mp h
  exact mentions_of_mem_pair .crateName (.refused hfault) htext

theorem Request.mentions_of_candidate {names : List String}
    (h : disk.entries request.searchDir = .ok names)
    (hpath : path ∈ (candidates crate names).map (Disk.join request.searchDir)) :
    request.Mentions library disk path := by
  obtain ⟨name, hname, rfl⟩ := List.mem_map.mp hpath
  rw [candidates, List.mem_mergeSort] at hname
  exact .found h (List.mem_of_mem_filter hname)

theorem Request.mentions_of_search (h : search disk pattern request.searchDir = .ok path) :
    request.Mentions library disk path := by
  rw [search] at h
  split at h
  next => cases h
  next names hnames =>
    split at h
    next => cases h
    next found hfound =>
      split at h
      next =>
        cases h
        exact mentions_of_candidate hnames (hfound ▸ List.mem_cons_self)
      next => cases h
    next => cases h

theorem Request.shown_of_search {text : String}
    (hpattern : NamePattern.compile library request.crateName = .ok pattern)
    (h : search disk pattern request.searchDir = .error cause)
    (htext : text ∈ cause.shown) : request.Mentions library disk text := by
  have hcrate := NamePattern.crate_of_compile hpattern
  have hnone : text ∈ (Error.noCandidates pattern.crate request.searchDir).shown →
      request.Mentions library disk text :=
    mentions_of_mem_pair (hcrate ▸ .crateName) .searchDir
  rw [search] at h
  split at h
  next e he =>
    cases h
    exact mentions_of_mem_pair .searchDir (.unlisted he) htext
  next names hnames =>
    split at h
    next =>
      cases h
      exact hnone htext
    next =>
      split at h
      next => cases h
      next =>
        cases h
        exact hnone htext
    next =>
      cases h
      cases htext with
      | head => exact hcrate ▸ .crateName
      | tail _ htext => exact mentions_of_candidate hnames htext

/-- How many files were supplied, where none of them is the one that is looked for. -/
def Request.fileCount (request : Request) : String := s!"{request.files.length} supplied file(s)"

theorem Request.shown_of_checkFiles {text : String}
    (hpattern : NamePattern.compile library request.crateName = .ok pattern)
    (h : checkFiles pattern request.files = .error cause) (htext : text ∈ cause.shown) :
    request.Mentions library disk text ∨ text = request.fileCount := by
  have hcrate := NamePattern.crate_of_compile hpattern
  rw [checkFiles] at h
  split at h
  next =>
    cases h
    rw [Error.shown, List.mem_cons, List.mem_singleton, hcrate] at htext
    cases htext with
    | inl htext => exact .inl (htext ▸ .crateName)
    | inr htext => exact .inr htext
  next => cases h
  next =>
    cases h
    cases htext with
    | head => exact .inl (hcrate ▸ .crateName)
    | tail _ htext => exact .inl (.file (List.mem_of_mem_filter htext))

/-- What is wrong with bytes that are no text is said in fixed words. -/
theorem FailsToLoad.shown {text : String} (h : FailsToLoad disk path cause)
    (hjson : ∀ path e, cause ≠ .invalidDocument path e)
    (hpath : request.Mentions library disk path) (htext : text ∈ cause.shown) :
    request.Mentions library disk text ∨ text = Disk.Error.invalidText.description := by
  cases h with
  | unreadable hbytes => exact .inl (Request.mentions_of_mem_pair hpath (.unread hbytes) htext)
  | invalidText =>
    rw [Error.shown, List.mem_cons, List.mem_singleton] at htext
    cases htext with
    | inl htext => exact .inl (htext ▸ hpath)
    | inr htext => exact .inr htext
  | invalidDocument => exact absurd rfl (hjson _ _)

/-- The name of the crate is compiled first.  Without files a directory is searched for the one
document, which is loaded.  With files these are counted, and then loaded. -/
theorem discover_error_cases (h : discover library disk request = .error cause) :
    NamePattern.compile library request.crateName = .error cause ∨
      ∃ pattern, NamePattern.compile library request.crateName = .ok pattern ∧
        ((request.files = [] ∧
          (search disk pattern request.searchDir = .error cause ∨
            ∃ path, search disk pattern request.searchDir = .ok path ∧
              load disk path = .error cause)) ∨
          (request.files ≠ [] ∧
            (checkFiles pattern request.files = .error cause ∨
              checkFiles pattern request.files = .ok () ∧
                ∃ path ∈ request.files, load disk path = .error cause))) := by
  rw [discover] at h
  obtain hname | ⟨pattern, hpattern, h⟩ := bind_eq_error.mp h
  · exact .inl hname
  refine .inr ⟨pattern, hpattern, ?_⟩
  split at h
  next hfiles =>
    refine .inl ⟨hfiles, ?_⟩
    cases bind_eq_error.mp h with
    | inl hsearch => exact .inl hsearch
    | inr h =>
      obtain ⟨path, hsearch, h⟩ := h
      cases bind_eq_error.mp h with
      | inl hpath => exact .inr ⟨path, hsearch, hpath⟩
      | inr h =>
        obtain ⟨d, -, h⟩ := h
        cases h
  next hfiles =>
    refine .inr ⟨hfiles, ?_⟩
    cases bind_eq_error.mp h with
    | inl hcheck => exact .inl hcheck
    | inr h =>
      obtain ⟨_, hcheck, h⟩ := h
      exact .inr ⟨hcheck, exists_of_mapM_error h⟩

/-- A discovery that fails shows what the request brings up, how many files there are, or the
fixed words for bytes that are no text. -/
theorem Request.shown_of_discover {text : String}
    (h : discover library disk request = .error cause)
    (hjson : ∀ path e, cause ≠ .invalidDocument path e) (htext : text ∈ cause.shown) :
    request.Mentions library disk text ∨ text = request.fileCount ∨
      text = Disk.Error.invalidText.description := by
  have hload : ∀ {path}, request.Mentions library disk path → load disk path = .error cause →
      request.Mentions library disk text ∨ text = Disk.Error.invalidText.description :=
    fun hpath hfails => (load_eq_error_iff.mp hfails).shown hjson hpath htext
  obtain hname | ⟨pattern, hpattern, ⟨-, hsearch | ⟨path, hsearch, hpath⟩⟩ |
    ⟨-, hcheck | ⟨-, path, hmem, hpath⟩⟩⟩ := discover_error_cases h
  · exact .inl (mentions_of_compile hname htext)
  · exact .inl (shown_of_search hpattern hsearch htext)
  · exact (hload (mentions_of_search hsearch) hpath).imp_right .inr
  · exact (shown_of_checkFiles hpattern hcheck htext).imp_right .inl
  · exact (hload (.file hmem) hpath).imp_right .inr

end SymbolCoverage.Discovery
