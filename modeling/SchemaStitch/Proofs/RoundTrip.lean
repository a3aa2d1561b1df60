import SchemaStitch.Proofs.Reading.Document
import SchemaStitch.Proofs.Stitched
import SchemaStitch.Proofs.Yielding.Document

/-! # Stitched text is read back

    Texts that are documents are stitched into a text, and this text is a document again,
    with the definitions that were put together: the schema declaration, the gathered types
    and what passes through, all of them in their bare form.  There is one exception.  The
    definitions are printed with blank lines between them, which tell the reader nothing, so
    a type that could have members and has none takes the braces of a query behind it
    (`Stitched.Readable.parse_iff`). -/

namespace SchemaStitch

open SchemaStitch.Parser

/-! ## Reading one definition -/

/-- A printed definition is read back. -/
theorem Definition.WellFormed.parse_print {d : Definition} (h : d.WellFormed)
    (hu : d.Uncommented) :
    Document.parse d.printWithComments = .ok ⟨[.node d], [d.printWithComments]⟩ := by
  have hattached : Entry.Attached d.body := by
    rw [hu]
    exact Entry.attached_map_node _
  have hspells : Spells d.printWithComments ([d].flatMap Definition.tokens) := by
    rw [List.flatMap_singleton]
    exact h.spells hattached
  have hread := Document.parse_iff hspells (List.cons_ne_nil d [])
    (List.forall_mem_singleton.mpr h) (List.forall_mem_singleton.mpr hu)
  exact hread.mpr (.singleton d)

/-! ## Reading several texts -/

/-- The definitions of a text, if it is a document. -/
def definitionsOf (text : Text) : List Definition :=
  match Document.parse text with
  | .ok document => document.definitions
  | .error _ => []

/-- The entries of texts, one text after the other. -/
def entriesOf (texts : List Text) : List (Entry Definition) :=
  (texts.flatMap definitionsOf).map .node

/-- The definitions of a text are those of its document. -/
theorem definitionsOf_eq {text : Text} {document : Document}
    (h : Document.parse text = .ok document) : definitionsOf text = document.definitions := by
  rw [definitionsOf, h]

/-- A document that is read holds its definitions and no comments. -/
theorem parse_eq_definitionsOf {text : Text} {document : Document}
    (h : Document.parse text = .ok document) :
    document = ⟨(definitionsOf text).map .node, [text]⟩ := by
  rw [definitionsOf_eq h]
  exact (Document.parse_yields h).2.1

section

variable {texts : List Text} {o : Options} {s : Stitched}

/-- Whether a text can be read is found by reading it. -/
theorem exists_document {text : Text} (h : (Document.parse text).isOk = true) :
    ∃ document, Document.parse text = .ok document := by
  cases hparse : Document.parse text with
  | error fault =>
      rw [hparse] at h
      cases h
  | ok document => exact ⟨document, rfl⟩

theorem ne_document {text : Text} (h : (Document.parse text).isOk = false)
    (document : Document) : Document.parse text ≠ .ok document := by
  intro hparse
  rw [hparse] at h
  cases h

/-- The entries of several texts have their definitions as nodes, in order. -/
theorem nodes_entriesOf (texts : List Text) :
    Entry.nodes (entriesOf texts) = texts.flatMap definitionsOf :=
  Entry.nodes_map_node _

theorem entriesOf_cons (text : Text) (rest : List Text) :
    entriesOf (text :: rest) = (definitionsOf text).map .node ++ entriesOf rest := by
  rw [entriesOf, List.flatMap_cons, List.map_append, entriesOf]

/-- Texts that can be read are one document together. -/
theorem readAll_texts (h : ∀ text ∈ texts, ∃ document, Document.parse text = .ok document) :
    (Source.readAll (texts.map .text)).map Document.concat = .ok ⟨entriesOf texts, texts⟩ := by
  have hall : ∃ documents, Source.readAll (texts.map .text) = .ok documents
      ∧ Document.concat documents = ⟨entriesOf texts, texts⟩ := by
    induction texts with
    | nil => exact ⟨[], rfl, rfl⟩
    | cons text rest ih =>
        obtain ⟨document, hparse⟩ := h text (List.mem_cons_self ..)
        obtain ⟨documents, hread, hconcat⟩ := ih fun other hother =>
          h other (List.mem_cons_of_mem _ hother)
        refine ⟨document :: documents, ?_, ?_⟩
        · rw [List.map_cons, Source.readAll, Source.read, hparse, hread]
          rfl
        · obtain ⟨hentries, hsources⟩ := Document.mk.inj hconcat
          rw [Document.concat, List.flatMap_cons, List.flatMap_cons, hentries, hsources,
            entriesOf_cons, parse_eq_definitionsOf hparse]
          rfl
  obtain ⟨documents, hread, hconcat⟩ := hall
  rw [hread, ← hconcat]
  rfl

/-- What is read from texts is well formed and holds no comments. -/
theorem readable_entriesOf (h : ∀ text ∈ texts, ∃ document, Document.parse text = .ok document) :
    Entry.Readable (entriesOf texts) := by
  refine ⟨by rw [nodes_entriesOf, entriesOf], fun d hd => ?_⟩
  rw [nodes_entriesOf] at hd
  obtain ⟨text, htext, hd⟩ := List.mem_flatMap.mp hd
  obtain ⟨document, hparse⟩ := h text htext
  rw [definitionsOf_eq hparse] at hd
  obtain ⟨hw, hu⟩ := (Document.parse_yields hparse).2.2 d hd
  exact ⟨hw.bare, hu⟩

/-- Texts that can be read are stitched as their entries are. -/
theorem stitchSources_texts
    (h : ∀ text ∈ texts, ∃ document, Document.parse text = .ok document) :
    o.stitchSources (texts.map .text)
      = ((o.stitch (entriesOf texts)).mapError StitchError.operation).map fun s => (s, texts) := by
  have hread := readAll_texts h
  cases hall : Source.readAll (texts.map .text) with
  | error fault =>
      rw [hall] at hread
      cases hread
  | ok documents =>
      rw [hall] at hread
      rw [Options.stitchSources, hall]
      show (((o.stitch (Document.concat documents).entries).mapError _).bind fun s =>
        .ok (s, (Document.concat documents).sources)) = _
      rw [Except.ok.inj hread]
      cases o.stitch (entriesOf texts) <;> rfl

/-- The text of what is stitched is its printed form. -/
theorem stitchText_texts (h : ∀ text ∈ texts, ∃ document, Document.parse text = .ok document)
    (hs : o.stitch (entriesOf texts) = .ok s) : o.stitchText (texts.map .text) = .ok s.print := by
  rw [Options.stitchText, stitchSources_texts h, hs]
  rfl

end

/-! ## The result is read back -/

namespace Stitched

variable {s : Stitched}

/-- The definitions of a result as they are read back. -/
def bareNodes (s : Stitched) : List Definition :=
  (Entry.nodes s.entries).map Definition.bare

/-- What is read back is the schema declaration and what is behind it. -/
theorem bareNodes_eq (s : Stitched) :
    s.bareNodes = (Definition.schema s.schema).bare :: s.bareTail := by
  rw [bareNodes, entries, List.cons_append, Entry.nodes_node, Entry.nodes_append]
  rfl

/-- What is read back has no descriptions. -/
theorem bare_bareNodes (s : Stitched) : s.bareNodes.map Definition.bare = s.bareNodes := by
  rw [bareNodes, List.map_map]
  exact List.map_congr_left fun d _ => d.bare_bare

/-- A result whose schema declaration is well formed, too. -/
structure Readable (s : Stitched) : Prop extends s.Settled where
  schema : (Definition.schema s.schema).WellFormed
  undescribed : s.schema.description = none

theorem Readable.bare_schema (h : s.Readable) :
    (Definition.schema s.schema).bare = .schema s.schema := by
  show Definition.schema { s.schema with description := none } = .schema s.schema
  rw [← h.undescribed]

/-- A result is printed like its bare form but for comments. -/
theorem Readable.spells_print (h : s.Readable) :
    Spells s.print (s.bareNodes.flatMap Definition.tokens) := by
  rw [print_eq, bareNodes_eq, List.flatMap_cons, h.bare_schema]
  refine Spells.append ?_ h.spells_tail s.isBounded_tail
  exact h.schema.spells .nil

/-- What is read back of a readable result is well formed and holds no comments. -/
theorem Readable.bareNodes (h : s.Readable) :
    ∀ d ∈ s.bareNodes, d.WellFormed ∧ d.Uncommented := by
  rw [bareNodes_eq, h.bare_schema]
  refine List.forall_mem_cons.mpr ⟨⟨h.schema, rfl⟩, fun d hd => ?_⟩
  obtain ⟨original, horiginal, rfl⟩ := List.mem_map.mp hd
  rcases List.mem_append.mp horiginal with hm | hr
  · exact ⟨(h.merged original hm).1.bare, (h.merged original hm).1.uncommented⟩
  · exact ⟨(h.rest original hr).bare, (h.rest original hr).uncommented⟩

/-- A printed result is read back iff no definition in it could take the braces of a query
    behind it. -/
theorem Readable.parse_iff (h : s.Readable) :
    Document.parse s.print = .ok ⟨s.bareNodes.map .node, [s.print]⟩ ↔ Compatible s.bareNodes := by
  refine Document.parse_iff h.spells_print ?_ (fun d hd => (h.bareNodes d hd).1)
    fun d hd => (h.bareNodes d hd).2
  rw [bareNodes_eq]
  exact List.cons_ne_nil _ _

end Stitched

/-- Stitching what is readable succeeds with something that is readable. -/
theorem Options.exists_stitched {o : Options} {entries : List (Entry Definition)}
    (hr : o.rootTypes.WellFormed) (h : Entry.Readable entries) :
    ∃ s, o.stitch entries = .ok s ∧ s.Readable := by
  obtain ⟨schema, hschema, hw, hnone⟩ := hr.schema (o.merged entries)
  refine ⟨⟨schema, o.merged entries, o.rest entries⟩, ?_, ?_⟩
  · rw [stitch, hschema]
    rfl
  · exact ⟨⟨o.attached_merged entries, settled_merged h, o.rest_eq_map_node h, settled_rest h⟩, hw,
      hnone⟩

/-- Texts that are documents are stitched into a text that is read back as what was put
    together iff no definition in it could take the braces of a query behind it. -/
theorem Options.parse_stitchText_iff {o : Options} {texts : List Text}
    (hr : o.rootTypes.WellFormed)
    (ht : ∀ text ∈ texts, ∃ document, Document.parse text = .ok document) :
    ∃ s, o.stitchSources (texts.map .text) = .ok (s, texts)
      ∧ o.stitchText (texts.map .text) = .ok s.print
      ∧ (Document.parse s.print = .ok ⟨s.bareNodes.map .node, [s.print]⟩
        ↔ Compatible s.bareNodes) := by
  obtain ⟨s, hs, hreadable⟩ := exists_stitched hr (readable_entriesOf ht)
  refine ⟨s, ?_, stitchText_texts ht hs, hreadable.parse_iff⟩
  rw [stitchSources_texts ht, hs]
  rfl

/-- The customary root types have names and distinct operations. -/
theorem wellFormed_default : RootTypes.default.WellFormed := by
  rw [RootTypes.WellFormed]
  decide

/-- Two texts that may stand in either order. -/
theorem parse_stitchText_pair :
    let texts : List Text := ["type A", "scalar B"]
    RootTypes.default.WellFormed
      ∧ (∀ text ∈ texts, ∃ document, Document.parse text = .ok document)
      ∧ ∃ s, ({} : Options).stitchSources (texts.map .text) = .ok (s, texts)
        ∧ ({} : Options).stitchText (texts.map .text) = .ok s.print
        ∧ (Document.parse s.print = .ok ⟨s.bareNodes.map .node, [s.print]⟩
          ↔ Compatible s.bareNodes) := by
  intro texts
  have hfirst : ∃ document, Document.parse "type A" = .ok document :=
    exists_document (by decide +kernel)
  have hsecond : ∃ document, Document.parse "scalar B" = .ok document :=
    exists_document (by decide +kernel)
  have hdocuments : ∀ text ∈ texts, ∃ document, Document.parse text = .ok document :=
    List.forall_mem_cons.mpr ⟨hfirst, List.forall_mem_singleton.mpr hsecond⟩
  exact ⟨wellFormed_default, hdocuments,
    Options.parse_stitchText_iff (o := {}) wellFormed_default hdocuments⟩

/-- The text in which a query stands behind a type without members. -/
def typeThenQuery : Text :=
  Text.join "\n" [r"schema {", "  query: Query", r"}", "", "type A", "", r"{", "  a", r"}"]

/-- Each of two texts is a document; the type in the first one has no members, and the query
    in the second one has no word.  What they are stitched into is no document. -/
theorem not_parse_stitchText :
    (∃ document, Document.parse "type A" = .ok document)
      ∧ (∃ document, Document.parse "{a}" = .ok document)
      ∧ ∃ text, ({} : Options).stitchText [.text "type A", .text "{a}"] = .ok text
        ∧ ∀ document, Document.parse text ≠ .ok document := by
  have hfirst : (Document.parse "type A").isOk = true := by decide +kernel
  have hsecond : (Document.parse "{a}").isOk = true := by decide +kernel
  have hstitched : ({} : Options).stitchText [.text "type A", .text "{a}"]
      = .ok typeThenQuery := by
    decide +kernel
  have hfails : (Document.parse typeThenQuery).isOk = false := by decide +kernel
  exact ⟨exists_document hfirst, exists_document hsecond, _, hstitched, ne_document hfails⟩

end SchemaStitch
