import SchemaStitch.Proofs.Reordering

/-! # What cannot be stitched

    Stitching can fail in two ways.  A source may have no document: it is of no known kind, or
    its text cannot be parsed.  And a root type that is there may be given for a word that names
    no operation.  Sources are looked at before root types, both in order, and what is refused
    first decides the error (`Source.readAll_eq_error`, `RootTypes.operations_eq_error`).  If
    nothing is refused, there is a text (`Options.stitchText_outcome`): neither comments nor
    missing bodies nor missing names stand in the way, and every definition that is printed can
    be printed. -/

namespace SchemaStitch

/-! ## Sources without a document -/

namespace Source

variable {sources : List Source} {error : SourceError}

/-- Why a source has no document: its text cannot be parsed, or it is neither a text nor a
    document. -/
def refusal? : Source → Option SourceError
  | .text content => match Document.parse content with
      | .error error => some (.malformed error)
      | .ok _ => none
  | .document _ => none
  | .other kind => some (.unsupported kind)

/-- The definitions of a source; one without a document has none. -/
def definitions : Source → List Definition
  | .text content => definitionsOf content
  | .document known => known.definitions
  | .other _ => []

theorem read_eq_error (source : Source) :
    source.read = .error error ↔ source.refusal? = some error := by
  cases source with
  | text content =>
      rw [read, refusal?]
      cases Document.parse content with
      | error fault =>
          show Except.error (SourceError.malformed fault) = _ ↔ _
          rw [Except.error.injEq, Option.some_inj]
      | ok document => exact ⟨fun h => (by cases h), fun h => (by cases h)⟩
  | document known => exact ⟨fun h => (by cases h), fun h => (by cases h)⟩
  | other kind =>
      rw [read, refusal?, Except.error.injEq, Option.some_inj]

/-- The definitions of a source are those of its document. -/
theorem definitions_of_read {source : Source} {document : Document}
    (h : source.read = .ok document) : source.definitions = document.definitions := by
  cases source with
  | text content =>
      have hparse : Document.parse content = .ok document := mapError_eq_ok.mp h
      exact definitionsOf_eq hparse
  | document known =>
      obtain rfl := Except.ok.inj h
      rfl
  | other kind => cases h

/-- The first source without a document decides the error. -/
theorem readAll_eq_error :
    readAll sources = .error error ↔ sources.findSome? refusal? = some error := by
  induction sources with
  | nil => exact ⟨fun h => (by cases h), fun h => (by cases h)⟩
  | cons source rest ih =>
      rw [readAll, List.findSome?_cons, bind_eq_error, read_eq_error]
      cases hrefusal : source.refusal? with
      | some fault =>
          -- what stands behind a refused source is not read
          have hread := (read_eq_error source).mpr hrefusal
          constructor
          · rintro (h | ⟨document, hdocument, -⟩)
            · exact h
            · rw [hread] at hdocument
              cases hdocument
          · intro h
            exact .inl h
      | none =>
          cases hread : source.read with
          | error fault =>
              rw [(read_eq_error source).mp hread] at hrefusal
              cases hrefusal
          | ok document =>
              rw [← ih]
              constructor
              · rintro (h | ⟨document, -, h⟩)
                · cases h
                · rcases bind_eq_error.mp h with h | ⟨documents, -, h⟩
                  · exact h
                  · cases h
              · intro h
                exact .inr ⟨document, rfl, bind_eq_error.mpr (.inl h)⟩

/-- If no source is refused, all of them have documents, and these have the definitions of the
    sources. -/
theorem readAll_of_refusal? (h : sources.findSome? refusal? = none) :
    ∃ documents, readAll sources = .ok documents
      ∧ Entry.nodes (Document.concat documents).entries = sources.flatMap definitions := by
  cases hread : readAll sources with
  | error fault =>
      rw [readAll_eq_error.mp hread] at h
      cases h
  | ok documents =>
      refine ⟨documents, rfl, ?_⟩
      have hall := readAll_eq_ok.mp hread
      clear hread h
      induction hall with
      | nil => rfl
      | @cons source document rest behind hdocument _ ih =>
          show Entry.nodes (document.entries ++ (Document.concat behind).entries) = _
          rw [Entry.nodes_append, ih, List.flatMap_cons, definitions_of_read hdocument]
          rfl

end Source

/-! ## Unknown operations -/

namespace RootTypes

variable {roots : RootTypes} {present others : List Text} {error : UnknownOperation}

/-- The word that a root type is given for, if the type is there and the word names no
    operation. -/
def unknown? (present : List Text) (root : Text × Text) : Option UnknownOperation :=
  if present.contains root.2 && (OperationKind.ofKeyword? root.1).isNone then some ⟨root.1⟩
  else none

/-- The first unknown operation whose type is there decides the error. -/
theorem operations_eq_error :
    roots.operations present = .error error ↔ roots.findSome? (unknown? present) = some error := by
  induction roots with
  | nil => exact ⟨fun h => (by cases h), fun h => (by cases h)⟩
  | cons root rest ih =>
      obtain ⟨word, type⟩ := root
      rw [operations, List.findSome?_cons]
      -- only a type that is there needs a known word
      by_cases hp : type ∈ present
      · rw [if_pos (List.contains_iff_mem.mpr hp)]
        cases hword : OperationKind.ofKeyword? word with
        | none =>
            have hunknown : unknown? present (word, type) = some ⟨word⟩ := by
              rw [unknown?, List.contains_iff_mem.mpr hp, hword]
              rfl
            rw [hunknown]
            show Except.error (UnknownOperation.mk word) = _ ↔ _
            rw [Except.error.injEq, Option.some_inj]
        | some operation =>
            have hknown : unknown? present (word, type) = none := by
              rw [unknown?, hword, Bool.and_comm]
              rfl
            rw [hknown, ← ih]
            constructor
            · intro h
              rcases bind_eq_error.mp h with h | ⟨operations, -, h⟩
              · exact h
              · cases h
            · intro h
              exact bind_eq_error.mpr (.inl h)
      · -- a type that is not there is passed over, whatever its word is
        have hknown : unknown? present (word, type) = none := by
          rw [unknown?, Bool.eq_false_iff.mpr (mt List.contains_iff_mem.mp hp)]
          rfl
        rw [if_neg fun hc => hp (List.contains_iff_mem.mp hc), hknown]
        exact ih

/-- Of the names that are there, only the root types matter. -/
theorem findSome?_unknown?_congr (h : ∀ name ∈ roots.names, name ∈ present ↔ name ∈ others) :
    roots.findSome? (unknown? present) = roots.findSome? (unknown? others) := by
  induction roots with
  | nil => rfl
  | cons root rest ih =>
      have hcontains : present.contains root.2 = others.contains root.2 := by
        rw [Bool.eq_iff_iff, List.contains_iff_mem, List.contains_iff_mem]
        exact h root.2 (List.mem_cons_self ..)
      have hroot : unknown? present root = unknown? others root := by
        rw [unknown?, unknown?, hcontains]
      have hrest := ih fun name hname => h name (List.mem_cons_of_mem _ hname)
      rw [List.findSome?_cons, List.findSome?_cons, hroot, hrest]

theorem schema_eq_error {entries : List (Entry Definition)} :
    roots.schema entries = .error error
      ↔ roots.findSome? (unknown? ((Entry.nodes entries).filterMap Definition.name?))
        = some error := by
  rw [schema, bind_eq_error, operations_eq_error]
  constructor
  · rintro (h | ⟨operations, -, h⟩)
    · exact h
    · cases h
  · intro h
    exact .inl h

end RootTypes

/-! ## What can be printed -/

/-- Comments stand among the members that a definition defines, and nowhere else in it. -/
def Definition.Printable (d : Definition) : Prop :=
  d.block? = none → d.Uncommented

namespace Definition

variable {d : Definition}

theorem Printable.withCommentedMembers (h : d.Printable) : d.withCommentedMembers.Printable := by
  intro hnone
  cases d with
  | type t =>
      cases t with
      | block b => cases hnone
      | scalar s => exact h hnone
      | union u => exact h hnone
  | _ => exact h hnone

theorem printable_schema (s : SchemaBlock) : (Definition.schema s).Printable := by
  intro _
  rfl

end Definition

namespace Options

variable {o : Options} {entries : List (Entry Definition)} {s : Stitched}

/-- The types that are there are those for which some definition is an object type. -/
theorem mem_names_merged {name : Text} (hn : name ∈ o.rootTypes.names) :
    name ∈ (Entry.nodes (o.merged entries)).filterMap Definition.name?
      ↔ name ∈ objectNames (Entry.nodes entries) := by
  have hnames : (Entry.nodes (o.merged entries)).filterMap Definition.name?
      = (o.groups entries).map Block.name := by
    calc (Entry.nodes (o.merged entries)).filterMap Definition.name?
        = ((Entry.nodes (o.merged entries)).map Definition.name?).filterMap id := by
          rw [List.filterMap_map]
          rfl
      _ = (o.groups entries).map Block.name := by
          rw [o.names_merged entries, List.filterMap_map]
          exact List.filterMap_some
  rw [hnames, ← o.groups_nodes entries]
  exact mem_names_groups hn

/-- Stitching entries fails iff an unknown operation is given for the name of an object type. -/
theorem stitch_eq_error {error : UnknownOperation} :
    o.stitch entries = .error error
      ↔ o.rootTypes.findSome? (RootTypes.unknown? (objectNames (Entry.nodes entries)))
        = some error := by
  have hnames : ∀ name ∈ o.rootTypes.names,
      name ∈ (Entry.nodes (o.merged entries)).filterMap Definition.name?
        ↔ name ∈ objectNames (Entry.nodes entries) := by
    intro name hname
    exact mem_names_merged hname
  rw [← RootTypes.findSome?_unknown?_congr hnames, ← RootTypes.schema_eq_error, stitch,
    bind_eq_error]
  constructor
  · rintro (h | ⟨schema, -, h⟩)
    · exact h
    · cases h
  · intro h
    exact .inl h

theorem printable_stitch (hs : o.stitch entries = .ok s)
    (h : ∀ d ∈ Entry.nodes entries, d.Printable) : ∀ d ∈ Entry.nodes s.entries, d.Printable := by
  obtain ⟨-, hmerged, hrest⟩ := stitch_eq_ok hs
  have hnodes : Entry.nodes s.entries
      = .schema s.schema :: ((o.groups entries).map o.mergedDefinition
        ++ ((Entry.nodes entries).filter fun d => o.passes (.node d)).map
            Definition.withCommentedMembers) := by
    rw [← nodes_merged, ← nodes_rest, ← hmerged, ← hrest, ← Entry.nodes_append]
    rfl
  intro d hd
  rw [hnodes] at hd
  rcases List.mem_cons.mp hd with rfl | hd
  · exact Definition.printable_schema _
  · rcases List.mem_append.mp hd with hd | hd
    · -- a group is a type with members, so comments may stand among them
      obtain ⟨block, -, rfl⟩ := List.mem_map.mp hd
      intro hnone
      cases hnone
    · obtain ⟨original, horiginal, rfl⟩ := List.mem_map.mp hd
      exact (h original (List.mem_of_mem_filter horiginal)).withCommentedMembers

end Options

/-- Documents that were read are stitched as one. -/
theorem Options.stitchText_of_readAll {o : Options} {sources : List Source}
    {documents : List Document} (h : Source.readAll sources = .ok documents) :
    o.stitchText sources
      = ((o.stitch (Document.concat documents).entries).mapError StitchError.operation).map
          Stitched.print := by
  rw [stitchText, stitchSources, h]
  show (((o.stitch (Document.concat documents).entries).mapError StitchError.operation)
    >>= fun stitched => pure (stitched, (Document.concat documents).sources)).map _ = _
  cases o.stitch (Document.concat documents).entries with
  | error fault => rfl
  | ok s => rfl

/-- The first source without a document decides the error. -/
theorem Options.stitchText_of_refusal? {o : Options} {sources : List Source} {error : SourceError}
    (h : sources.findSome? Source.refusal? = some error) :
    o.stitchText sources = .error (.source error) := by
  rw [stitchText, stitchSources, Source.readAll_eq_error.mpr h]
  rfl

/-- No source that was stitched is refused. -/
theorem Options.refusal?_of_stitchText {o : Options} {sources : List Source} {text : Text}
    (h : o.stitchText sources = .ok text) {source : Source} (hs : source ∈ sources) :
    source.refusal? = none := by
  cases hrefused : sources.findSome? Source.refusal? with
  | none => exact List.findSome?_eq_none_iff.mp hrefused source hs
  | some error =>
      rw [stitchText_of_refusal? hrefused] at h
      cases h

/-! ## Outcomes -/

/-- How stitching sources ends.  What they are stitched into is `s`, if there is anything. -/
structure Options.EndsAsInputs (o : Options) (sources : List Source) : Prop where
  /-- The first source without a document decides the error. -/
  source : ∀ error, sources.findSome? Source.refusal? = some error →
    o.stitchText sources = .error (.source error)
  /-- If there is none, the first word that names no operation does, of those that are given for
      the name of an object type in some source. -/
  operation : sources.findSome? Source.refusal? = none →
    ∀ error, o.rootTypes.findSome?
        (RootTypes.unknown? (objectNames (sources.flatMap Source.definitions))) = some error →
      o.stitchText sources = .error (.operation error)
  /-- If there is no such word either, there is a text. -/
  text : sources.findSome? Source.refusal? = none →
    o.rootTypes.findSome?
        (RootTypes.unknown? (objectNames (sources.flatMap Source.definitions))) = none →
      ∃ s : Stitched, o.stitchText sources = .ok s.print
        ∧ ∀ d ∈ Entry.nodes s.entries, d.Printable

namespace Source

variable {sources : List Source}

/-- What is read from a text has no comments. -/
theorem printable_definitions
    (h : ∀ document, .document document ∈ sources → ∀ d ∈ document.definitions, d.Printable) :
    ∀ d ∈ sources.flatMap definitions, d.Printable := by
  intro d hd
  obtain ⟨source, hsource, hd⟩ := List.mem_flatMap.mp hd
  cases source with
  | text content =>
      intro _
      exact uncommented_definitionsOf content d hd
  | document known => exact h known hsource d hd
  | other kind => cases hd

end Source

/-- Stitching fails for a source without a document, or else for an operation that is not known,
    and for nothing else, whatever the options are and wherever there are comments. -/
theorem Options.stitchText_outcome (o : Options) {sources : List Source}
    (h : ∀ document, .document document ∈ sources → ∀ d ∈ document.definitions, d.Printable) :
    o.EndsAsInputs sources where
  source := fun _ hrefused => stitchText_of_refusal? hrefused
  operation := by
    intro hnone error hunknown
    obtain ⟨documents, hread, hdefinitions⟩ := Source.readAll_of_refusal? hnone
    rw [← hdefinitions] at hunknown
    rw [stitchText_of_readAll hread, stitch_eq_error.mpr hunknown]
    rfl
  text := by
    intro hnone hknown
    obtain ⟨documents, hread, hdefinitions⟩ := Source.readAll_of_refusal? hnone
    -- the documents can be stitched, as there is no operation to be refused
    cases hs : o.stitch (Document.concat documents).entries with
    | error fault =>
        rw [← hdefinitions, stitch_eq_error.mp hs] at hknown
        cases hknown
    | ok s =>
        refine ⟨s, ?_, printable_stitch hs ?_⟩
        · rw [stitchText_of_readAll hread, hs]
          rfl
        · rw [hdefinitions]
          exact Source.printable_definitions h

/-- A document with comments everywhere where they may stand: among definitions, among members,
    and alone in a body. -/
def remarked : Document where
  entries := [.comment "a",
    .node (.type (.block ⟨.object, none, "Query", [], [],
      [.comment "b", .node (.field ⟨none, "f", [], .named "Int" false, []⟩), .comment "c"]⟩)),
    .node (.type (.block ⟨.enum, none, "E", [], [], [.comment "d"]⟩)),
    .node (.extendType (.block ⟨.object, none, "Query", [], [],
      [.node (.field ⟨none, "g", [], .named "Int" false, []⟩)]⟩)),
    .comment "e"]
  sources := []

theorem stitchText_outcome_remarked :
    let o : Options := { rootTypes := [("drop", "N"), ("watch", "Query"), ("change", "M")] }
    let sources : List Source := [.text "type M", .document remarked]
    (∀ document, .document document ∈ sources → ∀ d ∈ document.definitions, d.Printable)
      ∧ o.stitchText sources = .error (.operation ⟨"watch"⟩) := by
  intro o sources
  have hprintable : ∀ document, .document document ∈ sources →
      ∀ d ∈ document.definitions, d.Printable := by
    intro document hdocument
    obtain rfl : document = remarked := by simpa [sources] using hdocument
    refine List.forall_mem_cons.mpr ⟨fun h => (by cases h), ?_⟩
    refine List.forall_mem_cons.mpr ⟨fun h => (by cases h), ?_⟩
    exact List.forall_mem_singleton.mpr fun _ => rfl
  have hend := Options.stitchText_outcome o hprintable
  exact ⟨hprintable, hend.operation (by decide +kernel +zetaReduce) _
    (by decide +kernel +zetaReduce)⟩

end SchemaStitch
