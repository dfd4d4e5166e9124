import SymbolCoverage.Metadata.Writing
import SymbolCoverage.Proofs.Metadata.Documents

/-!
What is written of metadata is a document that stands for it, so it is read back as it
was.
-/

namespace SymbolCoverage

open Json

/-! ## What plain values hold -/

namespace Json.Value.Plain

variable {levels : Nat}

theorem elements {vs : List Value} (h : Plain levels (.array vs)) :
    ∀ v ∈ vs, v.Plain (levels - 1) := by
  cases h with
  | array h => exact h

theorem members {ms : Members} (h : Plain levels (.object ms)) :
    ∀ m ∈ ms, m.2.Plain (levels - 1) := by
  cases h with
  | object _ h => exact h

end Json.Value.Plain

/-- An entry whose descriptions are written without loss. -/
structure FunctionEntry.WrittenAsIs (f : FunctionEntry) : Prop where
  type : f.type.Plain Metadata.descriptorLevels ∧ f.type.Ordered
  function : f.function.Plain Metadata.descriptorLevels ∧ f.function.Ordered

namespace Metadata

/-! ## What is written is a document -/

theorem written_item (symbol : String) :
    ItemSpelled.Written symbol (Value.object [("symbol_name", .string symbol)]).compact := by
  intro rest hrest
  have hsymbol := itemContents.written_field symbol (written_quoted symbol)
  exact ⟨_, .field .nil, Contents.written_object (.cons hsymbol .nil) _ hrest⟩

theorem written_entry {f : FunctionEntry} (h : f.WrittenAsIs) :
    EntrySpelled.Written f f.toValue.compact := by
  refine written_list id (List.forall_mem_cons.mpr ⟨h.type.1.written_compact h.type.2, ?_⟩)
  exact List.forall_mem_singleton.mpr (h.function.1.written_compact h.function.2)

theorem written_items {item : String → Value}
    (h : ∀ symbol, ItemSpelled.Written symbol (item symbol).compact) (symbols : List String) :
    documentContents.MemberSpelled.Written (.field (.items symbols))
      (memberForm [] "items" (Value.array (symbols.map item)).compact) :=
  documentContents.written_field (.items symbols) (written_list item fun symbol _ => h symbol)

theorem written_functions {functions : List FunctionEntry}
    (h : ∀ f ∈ functions, f.WrittenAsIs) :
    documentContents.MemberSpelled.Written (.field (.functions functions))
      (memberForm [] "functions" (Value.array (functions.map FunctionEntry.toValue)).compact) :=
  documentContents.written_field (.functions functions)
    (written_list _ fun f hf => written_entry (h f hf))

theorem documentSpelled_toCompact {ms : List (Member Table)} {given : Members}
    (h : List.Forall₂ documentContents.MemberSpelled.Written ms
      (given.map fun m => memberForm [] m.1 m.2.compact)) :
    DocumentSpelled ms (Value.object given).toCompact := by
  have hobject := Contents.written_object h [] nofun
  rw [List.append_nil] at hobject
  refine ⟨_, _, ?_, hobject, .none⟩
  rw [Value.toCompact, String.toList_ofList]
  exact .none

/-! ## Metadata is read back -/

/-- Plain metadata has plain descriptions, which stand behind three brackets. -/
theorem plain_descriptions {m : Metadata} (h : m.toValue.Plain nestingLimit) :
    ∀ f ∈ m.functions, f.type.Plain descriptorLevels ∧ f.function.Plain descriptorLevels := by
  intro f hf
  have htable := (List.forall_mem_cons.mp (List.forall_mem_cons.mp h.members).2).1
  have hentry := htable.elements f.toValue (List.mem_map_of_mem hf)
  obtain ⟨htype, hfunction⟩ := List.forall_mem_cons.mp hentry.elements
  exact ⟨htype, List.forall_mem_singleton.mp hfunction⟩

/-- Metadata is read back from what is written of it, if its descriptions are plain values and
the document nests no deeper than documents may.  The names of objects are in order, as they are
in all metadata that is read (`ordered_of_ofJson`). -/
theorem ofJson_toCompact (m : Metadata) (h : m.toValue.Plain nestingLimit)
    (hordered : ∀ f ∈ m.functions, f.type.Ordered ∧ f.function.Ordered) :
    Metadata.ofJson m.toValue.toCompact = .ok m := by
  have hasis : ∀ f ∈ m.functions, f.WrittenAsIs := fun f hf =>
    ⟨⟨(plain_descriptions h f hf).1, (hordered f hf).1⟩,
      ⟨(plain_descriptions h f hf).2, (hordered f hf).2⟩⟩
  have hitems := written_items written_item m.items
  have hfunctions := written_functions hasis
  have hdocument : DocumentSpelled _ m.toValue.toCompact :=
    documentSpelled_toCompact (.cons hitems (.cons hfunctions .nil))
  exact ofJson_of_tables hdocument (.field (.field .nil)) (.refl _)

/-- Metadata with a function that is described by more than its name. -/
def describedMetadata : Metadata where
  items := ["f"]
  functions :=
    [⟨.null, .object [("kind", .null), ("rest", .array [.bool true, .number (.integer (-1))])]⟩]

theorem ofJson_toCompact_describedMetadata :
    Metadata.ofJson describedMetadata.toValue.toCompact = .ok describedMetadata := by
  refine ofJson_toCompact describedMetadata (.object (by decide) ?_) ?_
  · have hitem : Value.Plain 125 (.object [("symbol_name", .string "f")]) :=
      .object (by decide) (by simpa using Value.Plain.string "f")
    have hrest : Value.Plain 123 (.array [.bool true, .number (.integer (-1))]) :=
      .array (by simpa using ⟨.bool true, .integer (by decide) (by decide)⟩)
    have hfunction : Value.Plain 124 (.object
        [("kind", .null), ("rest", .array [.bool true, .number (.integer (-1))])]) :=
      .object (by decide) (by simpa using ⟨.null, hrest⟩)
    have hentry : Value.Plain 125 (FunctionEntry.toValue ⟨.null, _⟩) :=
      .array (by simpa using ⟨.null, hfunction⟩)
    exact List.forall_mem_cons.mpr ⟨.array (List.forall_mem_singleton.mpr hitem),
      List.forall_mem_singleton.mpr (.array (List.forall_mem_singleton.mpr hentry))⟩
  · have hrest : (Value.array [.bool true, .number (.integer (-1))]).Ordered :=
      .array (by simpa using ⟨.bool true, .number _⟩)
    have hfunction : (Value.object
        [("kind", .null), ("rest", .array [.bool true, .number (.integer (-1))])]).Ordered :=
      .object (by decide) (by simpa using ⟨.null, hrest⟩)
    exact List.forall_mem_singleton.mpr ⟨.null, hfunction⟩

/-! ## Documents made from names -/

/-- The entries of a document made from names are those of the metadata made from them. -/
theorem mapIdx_fixtureEntry (position : Nat) (links : List String) :
    links.mapIdx (fun i => Fixture.entry (position + i)) =
      (linkingFrom position links).map FunctionEntry.toValue := by
  induction links generalizing position with
  | nil => rfl
  | cons name links ih =>
    rw [List.mapIdx_cons, linkingFrom, List.map_cons, ← ih (position + 1)]
    simp only [Nat.add_zero, Nat.add_assoc, Nat.add_comm 1]
    rfl

/-- The members stand in alphabetical order. -/
theorem documentValue_eq (items links : List String) :
    documentValue items links =
      .object
        [("functions", .array ((linkingFrom 0 links).map FunctionEntry.toValue)),
          ("items", .array (items.map Fixture.item)), ("name", .string "fixture"),
          ("types", .array [])] := by
  rw [← mapIdx_fixtureEntry, documentValue]
  simp +decide only [Members.ofGiven, List.foldl, Members.set, if_true, if_false, Nat.zero_add]

theorem fixtureItem_eq (symbol : String) :
    Fixture.item symbol =
      .object
        [("mono_item_kind", .object [("MonoItemFn", .object [])]),
          ("symbol_name", .string symbol)] := by
  simp +decide only [Fixture.item, Members.ofGiven, List.foldl, Members.set, if_false]

/-- The items of a document made from names say what kind of item they are, too. -/
theorem written_fixtureItem (symbol : String) :
    ItemSpelled.Written symbol (Fixture.item symbol).compact := by
  intro rest hrest
  have hempty : Value.Plain 1 (.object []) := .object List.nodup_nil nofun
  have hkind : Value.Plain 2 (.object [("MonoItemFn", .object [])]) :=
    .object (by decide) (List.forall_mem_singleton.mpr hempty)
  have hordered : (Value.object [("MonoItemFn", .object [])]).Ordered :=
    .object (by decide) (List.forall_mem_singleton.mpr (.object .nil nofun))
  have hother := itemContents.written_other "mono_item_kind" hkind hordered
  have hsymbol := itemContents.written_field symbol (written_quoted symbol)
  have hfields : itemContents.FieldsOf [.other (some "mono_item_kind"), .field symbol] [symbol] :=
    .other (fun _ => by simp [itemContents]) (.field .nil)
  rw [fixtureItem_eq]
  exact ⟨_, hfields, Contents.written_object (.cons hother (.cons hsymbol .nil)) _ hrest⟩

theorem writtenAsIs_linkingFrom {links : List String} {position : Nat}
    (h : position + links.length ≤ Numeral.limit) :
    ∀ f ∈ linkingFrom position links, f.WrittenAsIs := by
  induction links generalizing position with
  | nil => nofun
  | cons name links ih =>
    rw [List.length_cons] at h
    have htype : (Value.natural position).Plain descriptorLevels := .integer (by omega) (by omega)
    have hfunction : (Value.object [(FunctionEntry.linkMember, .string name)]).Plain
        descriptorLevels :=
      .object (List.nodup_singleton _) (List.forall_mem_singleton.mpr (.string name))
    have hordered : (Value.object [(FunctionEntry.linkMember, .string name)]).Ordered :=
      .object (List.pairwise_singleton _ _) (List.forall_mem_singleton.mpr (.string name))
    exact List.forall_mem_cons.mpr
      ⟨⟨⟨htype, .number _⟩, ⟨hfunction, hordered⟩⟩, ih (by omega)⟩

/-- The members of a document made from names. -/
def documentMembers (items links : List String) : List (Member Table) :=
  [.field (.functions (linkingFrom 0 links)), .field (.items items), .other (some "name"),
    .other (some "types")]

theorem documentSpelled_documentText {items links : List String}
    (h : links.length ≤ Numeral.limit) :
    DocumentSpelled (documentMembers items links) (documentText items links) := by
  have hlimit : 0 + links.length ≤ Numeral.limit := (Nat.zero_add _).trans_le h
  have hfunctions := written_functions (writtenAsIs_linkingFrom hlimit)
  have hitems := written_items written_fixtureItem items
  have hname : (Value.string "fixture").Plain 0 := .string _
  have htypes : (Value.array []).Plain 1 := .array nofun
  rw [documentText, documentValue_eq]
  exact documentSpelled_toCompact (.cons hfunctions (.cons hitems
    (.cons (documentContents.written_other "name" hname (.string _))
      (.cons (documentContents.written_other "types" htypes (.array nofun)) .nil))))

theorem fieldsOf_documentMembers (items links : List String) :
    documentContents.FieldsOf (documentMembers items links)
      [.functions (linkingFrom 0 links), .items items] :=
  .field (.field (.other (name_ne (by decide)) (.other (name_ne (by decide)) .nil)))

/-- A document made from names is read as the metadata made from them.  The positions of the
names stand in the document, as numbers of 64 bits. -/
theorem ofJson_documentText (items links : List String) (h : links.length ≤ Numeral.limit) :
    Metadata.ofJson (documentText items links) = .ok (ofNames items links) :=
  ofJson_of_tables (documentSpelled_documentText h) (fieldsOf_documentMembers items links)
    (.swap _ _ _)

theorem ofJson_documentText_escapedNames :
    Metadata.ofJson (documentText ["_ZN1a17h0123456789abcdefE", "\\é\n"] ["\"memcpy\""]) =
      .ok (ofNames ["_ZN1a17h0123456789abcdefE", "\\é\n"] ["\"memcpy\""]) :=
  ofJson_documentText _ _ (by decide)

end Metadata
end SymbolCoverage
