import SchemaStitch.Proofs.Lexing.LineEnd
import SchemaStitch.Proofs.Places
import SchemaStitch.Proofs.RoundTrip

/-! # Descriptions do not change what is stitched

    Descriptions are printed as comments, so whatever they say, the stitched text has the
    same tokens (`Options.scan_stitch_congr`).  The only part of it that is not printed from
    what was read is the type for queries in the schema declaration, which the options name
    when no root type is there.  It is printed as it is given, and a name with three quotes
    in a row would open a block string that ends in a description. -/

namespace SchemaStitch

open SchemaStitch.Parser Lexer

/-! ## The schema declaration -/

/-- The type that serves queries if none of the root types is there. -/
def RootTypes.queryType (roots : RootTypes) : Text :=
  (roots.type? "query").getD "Query"

/-- A name holds no quotes. -/
theorem quote_notMem_of_isName {name : Text} (h : isName name = true) : '"' ∉ name :=
  fun hm => absurd (isNameContinue_of_isName h _ hm) (by decide)

/-- An empty part takes its separator along. -/
theorem Text.joinPresent_around {separator first second : Text} (hf : first ≠ [])
    (hs : second ≠ []) :
    Text.joinPresent separator [first, [], second] = first ++ (separator ++ second) := by
  have hfilter : [first, [], second].filter (fun part => !part.isEmpty) = [first, second] := by
    simp [hf, hs]
  rw [joinPresent, hfilter, join, List.intercalate_cons_cons, List.intercalate_singleton,
    List.append_assoc]

/-- A printed root operation has three quotes in a row only if its type has. -/
theorem RootOperation.unfenced_print {root : RootOperation} (h : root.type.Unfenced) :
    root.print.Unfenced := by
  have hkeyword : '"' ∉ root.operation.keyword ++ ": " := by cases root.operation <;> decide
  exact h.append hkeyword

/-- The declaration of operations up to its closing brace. -/
def SchemaBlock.front (schema : SchemaBlock) : Text :=
  "schema" ++ (" " ++ (['{', '\n']
    ++ (Text.join "\n" (schema.operations.map RootOperation.print)).indent))

/-- A fresh schema declaration is what stands before its closing brace, and that brace on a line
    of its own. -/
theorem SchemaBlock.print_eq_front {operations : List RootOperation} (h : operations ≠ []) :
    SchemaBlock.print ⟨none, [], operations⟩
      = SchemaBlock.front ⟨none, [], operations⟩ ++ ['\n', '}'] := by
  have hitems : ¬(operations.map RootOperation.print).isEmpty = true := by
    rw [List.isEmpty_map, List.isEmpty_iff]
    exact h
  rw [SchemaBlock.print, SchemaBlock.printBare, printBlock, if_neg hitems]
  show [] ++ Text.joinPresent " " ["schema", [], _] = (_ ++ (_ ++ (_ ++ Text.indent _))) ++ _
  rw [List.nil_append, Text.joinPresent_around (by decide) (by simp)]
  simp only [List.append_assoc]

/-- Three quotes in a row in a schema declaration come from the types that it lists. -/
theorem SchemaBlock.unfenced_front {schema : SchemaBlock}
    (h : ∀ root ∈ schema.operations, root.type.Unfenced) : schema.front.Unfenced := by
  have hitems : (Text.join "\n" (schema.operations.map RootOperation.print)).Unfenced := by
    refine Text.unfenced_join fun part hpart => ?_
    obtain ⟨root, hroot, rfl⟩ := List.mem_map.mp hpart
    exact RootOperation.unfenced_print (h root hroot)
  exact ((hitems.indent.append (by decide)).append (by decide)).append (by decide)

namespace RootTypes

variable {roots : RootTypes} {present : List Text}

/-- The types that are listed are there. -/
theorem type_mem_of_operations {operations : List RootOperation}
    (h : roots.operations present = .ok operations) :
    ∀ root ∈ operations, root.type ∈ present := by
  induction roots generalizing operations with
  | nil =>
      rw [← Except.ok.inj h]
      exact fun _ hroot => by cases hroot
  | cons root rest ih =>
      obtain ⟨word, type⟩ := root
      rw [RootTypes.operations] at h
      split at h
      · next hpresent =>
          split at h
          · cases h
          · obtain ⟨others, hrest, h⟩ := bind_eq_ok.mp h
            rw [← Except.ok.inj h]
            exact List.forall_mem_cons.mpr ⟨List.contains_iff_mem.mp hpresent, ih hrest⟩
      · exact ih h

/-- The declaration lists types that are there, or the type for queries. -/
theorem schema_eq_ok {entries : List (Entry Definition)} {schema : SchemaBlock}
    (h : roots.schema entries = .ok schema) :
    ∃ operations, schema = ⟨none, [], operations⟩ ∧ operations ≠ [] ∧ ∀ root ∈ operations,
      root.type ∈ (Entry.nodes entries).filterMap Definition.name?
        ∨ root.type = roots.queryType := by
  obtain ⟨operations, hoperations, h⟩ := bind_eq_ok.mp h
  refine ⟨_, (Except.ok.inj h).symm, ?_⟩
  cases operations with
  | nil =>
      refine ⟨List.cons_ne_nil _ _, fun root hroot => .inr ?_⟩
      rw [List.mem_singleton.mp hroot]
      rfl
  | cons first rest =>
      refine ⟨List.cons_ne_nil _ _, fun root hroot => .inl ?_⟩
      exact type_mem_of_operations hoperations root hroot

end RootTypes

/-! ## Comments and separators -/

namespace Stitched

variable {s t : Stitched}

/-- Nothing is printed behind the schema declaration where nothing is read there. -/
theorem Settled.tail_eq_nil (h : s.Settled) (hb : s.bareTail = []) : s.tail = [] := by
  obtain ⟨hmerged, hrest⟩ := List.append_eq_nil_iff.mp (List.map_eq_nil_iff.mp hb)
  have hpassing := h.passing
  rw [hrest, List.map_nil] at hpassing
  have hnone : s.merged = [] := by
    by_contra hne
    exact h.attached.nodes_ne_nil hne hmerged
  rw [tail, hnone, hpassing]
  rfl

/-- What is printed behind the schema declaration starts with a blank line. -/
theorem tail_eq_cons (h : s.bareTail ≠ []) : ∃ rest, s.tail = '\n' :: '\n' :: rest := by
  rw [tail]
  cases hmerged : s.merged with
  | nil =>
      cases hrest : s.rest with
      | nil =>
          rw [bareTail, hmerged, hrest] at h
          exact absurd rfl h
      | cons entry rest => exact ⟨_, rfl⟩
  | cons entry rest =>
      rw [printEntriesAfter_eq _ (List.cons_ne_nil _ _)]
      exact ⟨_, rfl⟩

/-- What stands behind the schema declaration starts alike where it is alike but for
    comments. -/
theorem Settled.sameStart (hs : s.Settled) (ht : t.Settled) (h : s.bareTail = t.bareTail) :
    SameStart (['\n', '}'] ++ s.tail) (['\n', '}'] ++ t.tail) := by
  by_cases hb : s.bareTail = []
  · rw [hs.tail_eq_nil hb, ht.tail_eq_nil (h ▸ hb)]
    exact ⟨rfl⟩
  · obtain ⟨first, hfirst⟩ := tail_eq_cons hb
    obtain ⟨second, hsecond⟩ := tail_eq_cons (h ▸ hb)
    rw [hfirst, hsecond]
    exact ⟨rfl⟩

/-- From the closing brace on, a settled result has the tokens of its bare definitions. -/
theorem Settled.scan_tail (h : s.Settled) :
    scan (['\n', '}'] ++ s.tail)
      = (.punctuator .closeBrace :: s.bareTail.flatMap Definition.tokens).map .ok ++ scan [] := by
  have hbrace : Spells ['\n', '}'] [.punctuator .closeBrace] :=
    .ignored rfl (.token (.punctuator .closeBrace) (fun he => by cases he) .nil)
  have hspells := hbrace.append h.spells_tail s.isBounded_tail
  have hscan := hspells.scan_append isBounded_nil
  rw [List.append_nil] at hscan
  exact hscan

end Stitched

/-- Results that are alike but for comments are printed with the same tokens. -/
theorem Stitched.scan_print_congr {s t : Stitched} (hs : s.Settled) (ht : t.Settled)
    (hf : ∃ front, front.Unfenced ∧ s.schema.print = front ++ ['\n', '}'])
    (hschema : s.schema = t.schema) (hb : s.bareTail = t.bareTail) :
    scan s.print = scan t.print := by
  obtain ⟨front, hunfenced, hfront⟩ := hf
  have htails : scan (['\n', '}'] ++ s.tail) = scan (['\n', '}'] ++ t.tail) := by
    rw [hs.scan_tail, ht.scan_tail, hb]
  rw [print_eq, print_eq, ← hschema, hfront, List.append_assoc, List.append_assoc]
  exact scan_append_congr (hs.sameStart ht hb) htails hunfenced

/-! ## Documents that differ in descriptions -/

/-- The definitions of a document without comments and without descriptions. -/
def Document.bareDefinitions (document : Document) : List Definition :=
  document.definitions.map Definition.bare

/-- A document that was read from a text, except that its definitions and their members may
    have any descriptions. -/
structure Document.Redescribed (document : Document) : Prop where
  nodes : document.entries = document.definitions.map .node
  uncommented : ∀ d ∈ document.definitions, d.Uncommented
  read : ∃ text original, Document.parse text = .ok original
    ∧ document.bareDefinitions = original.bareDefinitions

/-- Two documents that were read and differ in descriptions only. -/
structure Document.SameButDescriptions (document other : Document) : Prop where
  left : document.Redescribed
  right : other.Redescribed
  bare : document.bareDefinitions = other.bareDefinitions

section

variable {document : Document} {documents others : List Document}

/-- A document that is read is one of these. -/
theorem redescribed_of_parse {text : Text} (h : Document.parse text = .ok document) :
    document.Redescribed := by
  obtain ⟨-, hdocument, hall⟩ := Document.parse_yields h
  refine ⟨?_, fun d hd => (hall d hd).2, text, document, h, rfl⟩
  rw [hdocument]
  exact congrArg (List.map Entry.node) (Entry.nodes_map_node _).symm

/-- A definition of a re-described document is well formed but for its descriptions. -/
theorem Document.Redescribed.wellFormed (h : document.Redescribed) {d : Definition}
    (hd : d ∈ document.definitions) : d.bare.WellFormed := by
  obtain ⟨text, original, hparse, hbare⟩ := h.read
  have hmem : d.bare ∈ original.bareDefinitions := hbare ▸ List.mem_map_of_mem hd
  obtain ⟨known, hknown, heq⟩ := List.mem_map.mp hmem
  rw [← heq]
  exact ((Document.parse_yields hparse).2.2 known hknown).1.bare

theorem nodes_concat (documents : List Document) :
    Entry.nodes (Document.concat documents).entries = documents.flatMap Document.definitions := by
  induction documents with
  | nil => rfl
  | cons document rest ih =>
      rw [Document.concat, List.flatMap_cons, Entry.nodes_append, List.flatMap_cons]
      exact congrArg _ ih

/-- Re-described documents can be stitched as if they had been read. -/
theorem readable_concat (h : ∀ document ∈ documents, document.Redescribed) :
    Entry.Readable (Document.concat documents).entries := by
  refine ⟨?_, fun d hd => ?_⟩
  · rw [nodes_concat, Document.concat, List.map_flatMap]
    exact List.flatMap_congr fun document hdocument => (h document hdocument).nodes
  · rw [nodes_concat] at hd
    obtain ⟨document, hdocument, hd⟩ := List.mem_flatMap.mp hd
    exact ⟨(h document hdocument).wellFormed hd, (h document hdocument).uncommented d hd⟩

/-- Documents that differ in descriptions only have the same bare definitions. -/
theorem bare_concat (h : List.Forall₂ Document.SameButDescriptions documents others) :
    (Entry.nodes (Document.concat documents).entries).map Definition.bare
      = (Entry.nodes (Document.concat others).entries).map Definition.bare := by
  rw [nodes_concat, nodes_concat, List.map_flatMap, List.map_flatMap]
  induction h with
  | nil => rfl
  | cons hfirst _ ih =>
      rw [List.flatMap_cons, List.flatMap_cons, ih]
      exact congrArg (· ++ _) hfirst.bare

theorem readAll_documents (documents : List Document) :
    Source.readAll (documents.map .document) = .ok documents := by
  induction documents with
  | nil => rfl
  | cons document rest ih =>
      rw [List.map_cons, Source.readAll, ih]
      rfl

/-- Documents at hand are stitched without being read. -/
theorem stitchText_documents (o : Options) (documents : List Document) :
    o.stitchText (documents.map .document)
      = ((o.stitch (Document.concat documents).entries).mapError StitchError.operation).map
          Stitched.print := by
  rw [Options.stitchText, Options.stitchSources, readAll_documents]
  show Except.map _ (((o.stitch (Document.concat documents).entries).mapError _).bind fun s =>
    .ok (s, (Document.concat documents).sources)) = _
  cases o.stitch (Document.concat documents).entries <;> rfl

end

/-! ## Stitching -/

namespace Options

variable {o : Options} {entries others : List (Entry Definition)}

/-- What is merged depends on the bare forms of the definitions alone. -/
theorem bare_merged_congr
    (h : (Entry.nodes entries).map Definition.bare = (Entry.nodes others).map Definition.bare) :
    (Entry.nodes (o.merged entries)).map Definition.bare
      = (Entry.nodes (o.merged others)).map Definition.bare := by
  rw [bare_merged, h, ← bare_merged]

/-- The names of merged definitions are names to the lexer. -/
theorem isName_of_mem_names (h : Entry.Readable entries) {name : Text}
    (hn : name ∈ (Entry.nodes (o.merged entries)).filterMap Definition.name?) :
    isName name = true := by
  obtain ⟨d, hd, hname⟩ := List.mem_filterMap.mp hn
  rw [nodes_merged] at hd
  obtain ⟨block, hblock, rfl⟩ := List.mem_map.mp hd
  rw [← Option.some.inj hname]
  exact (settled_dedupeGroup o (settled_group h hblock)).wellFormed.name

/-- The schema declaration opens no block string. -/
theorem exists_front (hq : o.rootTypes.queryType.Unfenced) (hr : Entry.Readable entries)
    {schema : SchemaBlock} (h : o.rootTypes.schema (o.merged entries) = .ok schema) :
    ∃ front, front.Unfenced ∧ schema.print = front ++ ['\n', '}'] := by
  obtain ⟨operations, rfl, hne, htypes⟩ := RootTypes.schema_eq_ok h
  refine ⟨_, SchemaBlock.unfenced_front fun root hroot => ?_, SchemaBlock.print_eq_front hne⟩
  rcases htypes root hroot with hpresent | hquery
  · exact Text.unfenced_of_notMem (quote_notMem_of_isName (isName_of_mem_names hr hpresent))
  · rw [hquery]
    exact hq

/-- What is stitched from readable sources is settled. -/
theorem settled_stitched (h : Entry.Readable entries) (schema : SchemaBlock) :
    Stitched.Settled ⟨schema, o.merged entries, o.rest entries⟩ :=
  ⟨o.attached_merged entries, settled_merged h, o.rest_eq_map_node h, settled_rest h⟩

/-- What is alike but for descriptions is stitched into texts with the same tokens, or it is
    refused with the same fault. -/
theorem scan_stitch_congr (hq : o.rootTypes.queryType.Unfenced) (hr : Entry.Readable entries)
    (hr' : Entry.Readable others)
    (h : (Entry.nodes entries).map Definition.bare = (Entry.nodes others).map Definition.bare) :
    (∃ fault, o.stitch entries = .error fault ∧ o.stitch others = .error fault)
      ∨ ∃ s t, o.stitch entries = .ok s ∧ o.stitch others = .ok t
        ∧ scan s.print = scan t.print := by
  have hschema : o.rootTypes.schema (o.merged entries) = o.rootTypes.schema (o.merged others) :=
    schema_congr (bare_merged_congr h)
  cases hfirst : o.rootTypes.schema (o.merged entries) with
  | error fault =>
      left
      refine ⟨fault, ?_, ?_⟩
      · rw [stitch, hfirst]
        rfl
      · rw [stitch, ← hschema, hfirst]
        rfl
  | ok schema =>
      right
      have hs : o.stitch entries = .ok ⟨schema, o.merged entries, o.rest entries⟩ := by
        rw [stitch, hfirst]
        rfl
      have ht : o.stitch others = .ok ⟨schema, o.merged others, o.rest others⟩ := by
        rw [stitch, ← hschema, hfirst]
        rfl
      refine ⟨_, _, hs, ht, ?_⟩
      -- both start with the same schema declaration, and behind it only comments differ
      have hbare := (bareTail_stitch hs).trans ((congrArg o.stitchBare h).trans
        (bareTail_stitch ht).symm)
      exact Stitched.scan_print_congr (settled_stitched hr schema) (settled_stitched hr' schema)
        (exists_front hq hr hfirst) rfl hbare

end Options

theorem Document.redescribed_of_forall₂ {documents others : List Document}
    (h : List.Forall₂ Document.SameButDescriptions documents others) :
    (∀ document ∈ documents, document.Redescribed) ∧ ∀ document ∈ others, document.Redescribed := by
  induction h with
  | nil => exact ⟨fun _ hd => (by cases hd), fun _ hd => (by cases hd)⟩
  | cons hfirst hrest ih =>
      exact ⟨List.forall_mem_cons.mpr ⟨hfirst.left, ih.1⟩,
        List.forall_mem_cons.mpr ⟨hfirst.right, ih.2⟩⟩

/-- Two stitchings fail with the same fault, or they yield texts with the same tokens, which
    are read alike. -/
def StitchedAlike (first second : Except StitchError Text) : Prop :=
  match first, second with
  | .ok text, .ok other => scan text = scan other ∧ Document.ReadAlike text other
  | .error fault, .error other => fault = other
  | _, _ => False

/-- Documents that differ in descriptions only are stitched alike, unless the options give a
    type for queries that opens a block string. -/
theorem Options.stitchText_redescribed {o : Options} {documents others : List Document}
    (hq : o.rootTypes.queryType.Unfenced)
    (h : List.Forall₂ Document.SameButDescriptions documents others) :
    StitchedAlike (o.stitchText (documents.map .document))
      (o.stitchText (others.map .document)) := by
  obtain ⟨hleft, hright⟩ := Document.redescribed_of_forall₂ h
  rw [stitchText_documents, stitchText_documents]
  rcases scan_stitch_congr hq (readable_concat hleft) (readable_concat hright) (bare_concat h)
    with ⟨fault, h1, h2⟩ | ⟨s, t, h1, h2, hscan⟩
  · rw [h1, h2]
    rfl
  · rw [h1, h2]
    exact ⟨hscan, Document.parse_congr hscan⟩

/-- Texts with the same bare definitions are documents that differ in descriptions only. -/
theorem sameButDescriptions_of_parse {first second : Text} {document other : Document}
    (hf : Document.parse first = .ok document) (hs : Document.parse second = .ok other)
    (h : (definitionsOf first).map Definition.bare = (definitionsOf second).map Definition.bare) :
    document.SameButDescriptions other := by
  refine ⟨redescribed_of_parse hf, redescribed_of_parse hs, ?_⟩
  rw [definitionsOf_eq hf, definitionsOf_eq hs] at h
  exact h

/-- A description that would end one text and start another, and none. -/
theorem stitchText_redescribed_scalar :
    RootTypes.default.queryType.Unfenced
      ∧ ∃ document other, Document.parse r#""} scalar B #" scalar A"# = .ok document
        ∧ Document.parse "scalar A" = .ok other
        ∧ List.Forall₂ Document.SameButDescriptions [document] [other]
        ∧ StitchedAlike (({} : Options).stitchText ([document].map .document))
            (({} : Options).stitchText ([other].map .document)) := by
  have hfirst : (Document.parse r#""} scalar B #" scalar A"#).isOk = true := by decide +kernel
  have hsecond : (Document.parse "scalar A").isOk = true := by decide +kernel
  have hleft : definitionsOf r#""} scalar B #" scalar A"#
      = [.type (.scalar ⟨some ⟨r"} scalar B #", false⟩, "A", []⟩)] := rfl
  have hright : definitionsOf "scalar A" = [.type (.scalar ⟨none, "A", []⟩)] := rfl
  have hbare : (definitionsOf r#""} scalar B #" scalar A"#).map Definition.bare
      = (definitionsOf "scalar A").map Definition.bare := by
    rw [hleft, hright]
    rfl
  have hquery : RootTypes.default.queryType.Unfenced :=
    Text.unfenced_of_notMem (by decide +kernel)
  obtain ⟨document, hdocument⟩ := exists_document hfirst
  obtain ⟨other, hother⟩ := exists_document hsecond
  have hsame : List.Forall₂ Document.SameButDescriptions [document] [other] :=
    .cons (sameButDescriptions_of_parse hdocument hother hbare) .nil
  exact ⟨hquery, document, other, hdocument, hother, hsame,
    Options.stitchText_redescribed (o := {}) hquery hsame⟩

/-- The name of a type for queries that closes the declaration of operations and opens a block
    string. -/
def openingName : Text :=
  Text.join "\n" [r"Q }", r#"scalar S @d(a: """"#]

/-- What a document with a description is stitched into under this name. -/
def swallowingText (description : Text) : Text :=
  Text.join "\n" [r"schema {", r"  query: Q }", r#"  scalar S @d(a: """"#, r"}", "",
    r#"# """"# ++ description, "scalar A"]

/-- Two documents differ in a description only.  The type for queries opens a block string
    that ends in the descriptions, and what one of them says behind it is a definition. -/
theorem not_stitchText_redescribed :
    ∃ o : Options, o.rootTypes = ([("query", openingName)] : RootTypes)
      ∧ ∃ document other, document.SameButDescriptions other
        ∧ ∃ first second, o.stitchText [.document document] = .ok first
          ∧ o.stitchText [.document other] = .ok second
          ∧ (definitionsOf first).filterMap Definition.name? = ["S", "A"]
          ∧ (definitionsOf second).filterMap Definition.name? = ["S", "Evil", "A"] := by
  -- both documents describe one scalar; the name of the query type opens a block string that
  -- the comment for the description closes again
  have hfirst : (Document.parse r#""\"\"\")" scalar A"#).isOk = true := by decide +kernel
  have hsecond : (Document.parse r#""\"\"\") scalar Evil" scalar A"#).isOk = true := by
    decide +kernel
  have hleft : definitionsOf r#""\"\"\")" scalar A"#
      = [.type (.scalar ⟨some ⟨r#"""")"#, false⟩, "A", []⟩)] := rfl
  have hright : definitionsOf r#""\"\"\") scalar Evil" scalar A"#
      = [.type (.scalar ⟨some ⟨r#"""") scalar Evil"#, false⟩, "A", []⟩)] := rfl
  obtain ⟨document, hdocument⟩ := exists_document hfirst
  obtain ⟨other, hother⟩ := exists_document hsecond
  have hsame : document.SameButDescriptions other := by
    refine sameButDescriptions_of_parse hdocument hother ?_
    rw [hleft, hright]
    rfl
  have hdocument' := parse_eq_definitionsOf hdocument
  have hother' := parse_eq_definitionsOf hother
  rw [hleft] at hdocument'
  rw [hright] at hother'
  refine ⟨{ rootTypes := [("query", openingName)] }, rfl, document, other,
    hsame, swallowingText ")", swallowingText ") scalar Evil", ?_, ?_, ?_, ?_⟩
  · rw [hdocument']
    decide +kernel
  · rw [hother']
    decide +kernel
  · decide +kernel
  · decide +kernel

end SchemaStitch
