import SymbolCoverage.Proofs.Metadata.Writing

/-!
Of a document only its two tables matter.  Where each stands once, they say what is read,
and where one does not, nothing is.
-/

namespace SymbolCoverage.Metadata

open Json

/-- Every object is a document, be its members what they may. -/
theorem exists_documentSpelled {text : String} {tail rest : List Char}
    (hbefore : Blanks text.toList ('\x7b' :: tail)) (h : Formed (.entries .object true) tail rest)
    (hafter : Blanks rest []) : ∃ ms, DocumentSpelled ms text := by
  obtain ⟨names, hnames⟩ := h.exists_names
  have hmembers : MembersSpelled documentContents.MemberSpelled (names.map .other) tail rest :=
    hnames.map Member.other fun hname => .other hname
  exact ⟨names.map .other, _, rest, hbefore, .mk hmembers, hafter⟩

/-- A document with each table once, all other members having other names, is read as what
the tables hold.  A document in which a table does not stand once is not read at all. -/
theorem ofJson_document {ms : List (Member Table)} {text : String} (h : DocumentSpelled ms text) :
    (∀ {fields symbols functions}, documentContents.FieldsOf ms fields →
      fields.Perm [.items symbols, .functions functions] →
        Metadata.ofJson text = .ok ⟨symbols, functions⟩) ∧
      ∀ table ∈ ["items", "functions"],
        (ms.map documentContents.nameOf).count (some table) ≠ 1 →
          ∃ e, Metadata.ofJson text = .error e := by
  refine ⟨fun hfields htables => ofJson_of_tables h hfields htables, ?_⟩
  intro table htable hcount
  cases hread : Metadata.ofJson text with
  | error e => exact ⟨e, rfl⟩
  | ok m =>
    obtain ⟨hitems, hfunctions, -⟩ := names_of_ofJson h hread
    simp only [List.mem_cons, List.not_mem_nil, or_false] at htable
    cases htable with
    | inl htable => exact absurd (htable ▸ hitems) hcount
    | inr htable => exact absurd (htable ▸ hfunctions) hcount

theorem ofJson_document_fixture :
    Metadata.ofJson (documentText ["f", "\"g\"\n"] ["memcpy"]) =
        .ok ⟨["f", "\"g\"\n"], [.linking (.natural 0) "memcpy"]⟩ ∧
      ∃ e, Metadata.ofJson "\x7b\x7d" = .error e := by
  have hfixture : DocumentSpelled _ (documentText ["f", "\"g\"\n"] ["memcpy"]) :=
    documentSpelled_documentText (by decide)
  have hempty : DocumentSpelled [] "\x7b\x7d" := ⟨_, [], .none, .mk (.close .none), .none⟩
  exact ⟨(ofJson_document hfixture).1 (fieldsOf_documentMembers _ _) (.swap _ _ _),
    (ofJson_document hempty).2 "items" List.mem_cons_self (by decide)⟩

/-! ## Names without pairs -/

/-- No document is read in which a member has a name that is no string. -/
theorem ofJson_of_unpaired {ms : List (Member Table)} {text : String} (h : DocumentSpelled ms text)
    (hname : none ∈ ms.map documentContents.nameOf) : ∃ e, Metadata.ofJson text = .error e := by
  cases hread : Metadata.ofJson text with
  | error e => exact ⟨e, rfl⟩
  | ok m =>
    obtain ⟨-, -, hnames⟩ := names_of_ofJson h hread
    exact absurd hname hnames

/-- A high surrogate alone is no name. -/
theorem nameSpelled_unpaired (rest : List Char) :
    NameSpelled none ('\\' :: 'u' :: 'd' :: '8' :: '0' :: '0' :: '"' :: rest) rest := by
  have hunit : CodeUnitSpelled 0xd800 ('d' :: '8' :: '0' :: '0' :: '"' :: rest) ('"' :: rest) :=
    .mk (by decide)
  have hfree : CharsSpelled .free ['\ufffd']
      ('\\' :: 'u' :: 'd' :: '8' :: '0' :: '0' :: '"' :: rest) rest :=
    .cons (.escaped (.lone hunit (by decide))) .close
  refine .unpaired (s := "\ufffd") hfree ?_
  intro s rest' hs
  rw [StringSpelled] at hs
  generalize s.toList = cs at hs
  cases hs with
  | cons hc _ =>
    cases hc with
    | plain _ hbackslash _ => exact hbackslash rfl
    | escaped hescape =>
      cases hescape with
      | short hlookup => cases hlookup
      | code hunit' hscalar =>
        obtain ⟨hnumber⟩ := hunit'
        have hvalue : Text.hexNumber? ['d', '8', '0', '0'] = some 0xd800 := by decide
        rw [hvalue] at hnumber
        cases hnumber
        cases hscalar
      | pair hunit' => cases hunit'

/-- Both tables, behind a member whose name is a high surrogate alone. -/
def unpairedDocument : String := "\x7b\"\\ud800\":0,\"items\":[],\"functions\":[]\x7d"

theorem documentSpelled_unpairedDocument :
    DocumentSpelled [.other none, .field (.items []), .field (.functions [])]
      unpairedDocument := by
  let tables := List.intercalate [',']
    [memberForm [] "items" ['[', ']'], memberForm [] "functions" ['[', ']']] ++ ['\x7d']
  have hitems := written_items written_item []
  have hfunctions : documentContents.MemberSpelled.Written (.field (.functions []))
      (memberForm [] "functions" ['[', ']']) := written_functions nofun
  have htables : EntriesSpelled '\x7d' documentContents.MemberSpelled false
      [.field (.items []), .field (.functions [])] (',' :: tables) [] :=
    entriesSpelled_intercalate blanks_nil .none (endsNumber_cons rfl (by decide) []) hitems
      (.cons hfunctions .nil) (.next .none) .none
  have hcomma : EndsNumber (',' :: tables) := endsNumber_cons rfl (by decide) tables
  have hplain : (Value.natural 0).Plain 0 := .integer (by decide) (by decide)
  have hzero : Formed .value ('0' :: ',' :: tables) (',' :: tables) :=
    (hplain.written_compact (.number _) _ hcomma).formed
  have hother : AnyMemberSpelled none _ (',' :: tables) :=
    .mk (nameSpelled_unpaired _) .none .none hzero
  exact ⟨_, [], .none, .mk (.cons .first .none (.other hother) htables), .none⟩

/-- Where names are no strings, it does not suffice that each table stands once. -/
theorem ofJson_unpairedDocument :
    DocumentSpelled [.other none, .field (.items []), .field (.functions [])] unpairedDocument ∧
      ∃ e, Metadata.ofJson unpairedDocument = .error e :=
  ⟨documentSpelled_unpairedDocument,
    ofJson_of_unpaired documentSpelled_unpairedDocument List.mem_cons_self⟩

end SymbolCoverage.Metadata
