import SchemaStitch.Validation
import SchemaStitch.Proofs.Increment
import SchemaStitch.Proofs.Repeats

/-! # Checking what was stitched

    The text that definitions are stitched into is read again before it is checked, so what
    is checked are bare definitions, with the members of gathered types side by side.  Its
    conflicts can be told from what is stitched (`Options.conflicts_stitchText`).

    Dropping repeated members while stitching anticipates what checking does anyway
    (`Options.map_dedupe_stitchBare`), and what is dropped makes no conflict.  So the schema
    is the same either way, and so are the reasons why there is none
    (`Options.ofText_keeping_dropping`). -/

namespace SchemaStitch

open SchemaStitch.Groups

/-! ## What checking a document comes to -/

section

variable {sources others : List Text} {definitions : List Definition} {document : Document}
  {found : List Conflict}

/-- Where nothing contradicts itself, checking ends with a schema, or with broken rules or a
    fault in building, of which only the latter may show where it was read. -/
theorem Schema.ofDefinitions_sources (sources others : List Text) (definitions : List Definition) :
    Schema.ofDefinitions sources definitions = Schema.ofDefinitions others definitions
      ∨ ∃ fault site, fault.site? = some site
        ∧ Schema.ofDefinitions sources definitions = .error (.ofBuildFault sources fault)
        ∧ Schema.ofDefinitions others definitions = .error (.ofBuildFault others fault) := by
  rw [ofDefinitions, ofDefinitions]
  cases Rules.messages definitions with
  | error error => exact .inl rfl
  | ok messages =>
      cases messages with
      | cons message rest => exact .inl rfl
      | nil =>
          cases Schema.build definitions with
          | ok schema => exact .inl rfl
          | error fault =>
              cases hsite : fault.site? with
              | some site => exact .inr ⟨fault, site, hsite, rfl, rfl⟩
              | none =>
                  -- without a place there is no excerpt
                  have hplain : ∀ texts, ValidationError.ofBuildFault texts fault = .build fault := by
                    intro texts
                    rw [ValidationError.ofBuildFault, hsite]
                    rfl
                  refine .inl ?_
                  show Except.error (ValidationError.ofBuildFault sources fault)
                    = .error (ValidationError.ofBuildFault others fault)
                  rw [hplain, hplain]

theorem ValidationError.ofBuildFault_ne_conflicts (fault : BuildFault) :
    ValidationError.ofBuildFault sources fault ≠ .conflicts found := by
  rw [ofBuildFault]
  split
  · exact fun h => by cases h
  · exact fun h => by cases h

/-- There are conflicts before any schema is built or not at all. -/
theorem Schema.ofDefinitions_ne_conflicts :
    Schema.ofDefinitions sources definitions ≠ .error (.conflicts found) := by
  rw [ofDefinitions]
  cases Rules.messages definitions with
  | error error => exact fun h => by cases h
  | ok messages =>
      cases messages with
      | cons message rest => exact fun h => by cases h
      | nil =>
          cases Schema.build definitions with
          | ok schema => exact fun h => by cases h
          | error fault =>
              exact fun h => ValidationError.ofBuildFault_ne_conflicts fault (Except.error.inj h)

/-- A document without conflicts is built into a schema, without its repeats. -/
theorem Document.validate_of_conflicts_eq_nil (h : document.conflicts = []) :
    document.validate = Schema.ofDefinitions document.sources document.dedupe.definitions := by
  rw [validate, h]
  rfl

/-- A document is not valid because of conflicts iff it has some. -/
theorem Document.validate_eq_conflicts :
    document.validate = .error (.conflicts found) ↔ found = document.conflicts ∧ found ≠ [] := by
  cases hconflicts : document.conflicts with
  | nil =>
      rw [validate_of_conflicts_eq_nil hconflicts]
      constructor
      · exact fun h => absurd h Schema.ofDefinitions_ne_conflicts
      · rintro ⟨rfl, h⟩
        exact absurd rfl h
  | cons conflict rest =>
      rw [validate, hconflicts]
      constructor
      · intro h
        injection h with h
        injection h with h
        exact ⟨h.symm, h ▸ List.cons_ne_nil _ _⟩
      · rintro ⟨rfl, -⟩
        rfl

/-- A text that can be read is checked as what it is read as. -/
theorem Schema.ofText_of_parse {text : Text} (h : Document.parse text = .ok document) :
    Schema.ofText text = document.validate.mapError .invalid := by
  rw [ofText, h]
  rfl

theorem CheckError.mapError_invalid_inj {α : Type} {result : Except ValidationError α}
    {error : ValidationError} :
    result.mapError CheckError.invalid = .error (.invalid error) ↔ result = .error error := by
  cases result with
  | ok value => exact ⟨fun h => (by cases h), fun h => by cases h⟩
  | error other =>
      constructor
      · intro h
        injection h with h
        injection h with h
        rw [h]
      · rintro ⟨⟩
        rfl

end

/-! ## Conflicts -/

namespace Options

variable {o : Options} {blocks : List Block} {definitions : List Definition} {texts : List Text}

/-- The members that the gathered types of a name declare, one type after the other. -/
def declared (o : Options) (definitions : List Definition) (name : Text) : List Member :=
  memberNodes ((definitions.filterMap o.gathered?).filter fun b => b.name = name)

/-- The conflicts among definitions: first those among all gathered types of a name, the names
    in the order of the groups, then those within each type that passes through. -/
def conflicts (o : Options) (definitions : List Definition) : List Conflict :=
  ((order o.rootTypes.names (definitions.filterMap o.gathered?)).flatMap fun name =>
      disagreements name (o.declared definitions name))
    ++ ((definitions.filter fun d => o.passes (.node d)).filterMap Definition.block?).flatMap
      fun block => disagreements block.name (Entry.nodes block.members)

/-- Dropping repeats leaves disagreements alone. -/
theorem disagreements_distinct (o : Options) (type : Text) (members : List Member) :
    disagreements type (o.distinct members) = disagreements type members := by
  rw [distinct]
  split
  · exact disagreements_firsts type members
  · rfl

/-- Gathered types conflict as their members do, whether repeated ones are dropped or not. -/
theorem conflicts_groupOf (h : ∀ b ∈ blocks, b.Plain) (name : Text) :
    (o.groupOf blocks name).toList.flatMap Block.conflicts
      = disagreements name (memberNodes (blocks.filter fun b => b.name = name)) := by
  have hplain : ∀ b ∈ blocks.filter fun b => b.name = name, b.Plain :=
    fun b hb => h b (List.mem_of_mem_filter hb)
  cases hgroup : combined (blocks.filter fun b => b.name = name) with
  | none =>
      rw [groupOf, hgroup, combined_eq_none.mp hgroup]
      rfl
  | some group =>
      have hname : group.name = name :=
        name_of_combined (fun b hb => of_decide_eq_true (List.mem_filter.mp hb).2) hgroup
      rw [groupOf, hgroup, Option.map_some, Option.toList_some, List.flatMap_singleton,
        o.dedupeGroup_eq (members_combined hplain hgroup), Block.conflicts_eq, hname,
        Entry.nodes_map_node, disagreements_distinct]

/-- The conflicts of stitched types are those among the members of each name, in the order of
    groups. -/
theorem flatMap_conflicts_stitchBlocks (h : ∀ b ∈ blocks, b.Plain) :
    (o.stitchBlocks blocks).flatMap Block.conflicts
      = (order o.rootTypes.names blocks).flatMap fun name =>
          disagreements name (memberNodes (blocks.filter fun b => b.name = name)) := by
  rw [stitchBlocks_eq, List.filterMap_eq_flatMap_toList, List.flatMap_assoc]
  exact List.flatMap_congr fun name _ => conflicts_groupOf h name

theorem memberNodes_bare (blocks : List Block) :
    memberNodes (blocks.map Block.bare) = (memberNodes blocks).map Member.withoutDescription := by
  rw [memberNodes, List.flatMap_map, memberNodes, List.map_flatMap]
  refine List.flatMap_congr fun block _ => ?_
  rw [Block.bare_members, Entry.nodes_map_node]
  rfl

/-- The members of the bare types of a name are those declared, without descriptions. -/
theorem memberNodes_gathered (o : Options) (definitions : List Definition) (name : Text) :
    memberNodes (((definitions.map Definition.bare).filterMap o.gathered?).filter
        fun b => b.name = name)
      = (o.declared definitions name).map Member.withoutDescription := by
  have hfilter : ((definitions.filterMap o.gathered?).map Block.bare).filter (fun b => b.name = name)
      = ((definitions.filterMap o.gathered?).filter fun b => b.name = name).map Block.bare :=
    List.filter_map
  rw [filterMap_gathered_bare, hfilter, memberNodes_bare, declared]

/-- Gathered types have the same names without descriptions. -/
theorem names_gathered (o : Options) (definitions : List Definition) :
    ((definitions.map Definition.bare).filterMap o.gathered?).map Block.name
      = (definitions.filterMap o.gathered?).map Block.name := by
  rw [filterMap_gathered_bare, List.map_map]
  rfl

/-- The conflicts of the bare result are those among what is stitched. -/
theorem conflicts_stitchBare (o : Options) (definitions : List Definition) :
    ((o.stitchBare (definitions.map Definition.bare)).filterMap Definition.block?).flatMap
        Block.conflicts
      = o.conflicts definitions := by
  have hgroups : ((o.stitchBlocks ((definitions.map Definition.bare).filterMap o.gathered?)).map
        fun block => Definition.type (.block block)).filterMap Definition.block?
      = o.stitchBlocks ((definitions.map Definition.bare).filterMap o.gathered?) := by
    rw [List.filterMap_map]
    exact List.filterMap_some
  have hpassing : (((definitions.filter fun d => o.passes (.node d)).map
        Definition.bare).filterMap Definition.block?)
      = ((definitions.filter fun d => o.passes (.node d)).filterMap Definition.block?).map
          Block.bare := by
    rw [List.filterMap_map, List.map_filterMap]
    exact List.filterMap_congr fun d _ => d.block?_bare
  rw [stitchBare, List.filterMap_append, hgroups, filter_passes_bare, hpassing,
    List.flatMap_append, flatMap_conflicts_stitchBlocks plain_gathered, order, names_gathered,
    conflicts, List.flatMap_map]
  refine congrArg₂ (· ++ ·) ?_ (List.flatMap_congr fun block _ =>
    block.conflicts_bare.trans block.conflicts_eq)
  refine List.flatMap_congr fun name _ => ?_
  rw [memberNodes_gathered, disagreements_withoutDescription]

/-- The options, but repeated members are kept. -/
def keeping (o : Options) : Options :=
  { o with dedupe := false }

/-- The options, but repeated members are dropped. -/
def dropping (o : Options) : Options :=
  { o with dedupe := true }

/-- The definitions behind the schema declaration that a schema is built from.  They have no
    repeated members. -/
def checkedTail (o : Options) (definitions : List Definition) : List Definition :=
  (o.dropping.stitchBlocks ((definitions.map Definition.bare).filterMap o.gathered?)).map
      (fun block => .type (.block block))
    ++ ((definitions.filter fun d => o.passes (.node d)).map Definition.bare).map
      (Definition.mapMembers Member.dedupe)

/-- Repeats that were dropped before are not dropped again. -/
theorem dropping_distinct (o : Options) (members : List Member) :
    o.dropping.distinct (o.distinct members) = o.dropping.distinct members := by
  show firsts Member.key [] (o.distinct members) = firsts Member.key [] members
  rw [distinct]
  split
  · exact firsts_firsts fun _ h => by cases h
  · rfl

/-- Repeats that were dropped from a group before are not dropped again. -/
theorem dropping_dedupeGroup {block : Block} (h : block.Plain) :
    o.dropping.dedupeGroup (o.dedupeGroup block) = o.dropping.dedupeGroup block := by
  have hgroup := o.dedupeGroup_eq h
  have hmembers : (o.dedupeGroup block).members
      = (o.distinct (Entry.nodes block.members)).map .node := by
    rw [hgroup]
  rw [o.dropping.dedupeGroup_eq hmembers, dropping_distinct, o.dropping.dedupeGroup_eq h, hgroup]

theorem plain_of_mem_gather {names : List Text} {block : Block} (h : ∀ b ∈ blocks, b.Plain)
    (hb : block ∈ (gather names blocks).blocks) : block.Plain := by
  have hmembers := members_combined (fun b hmem => h b (List.mem_of_mem_filter hmem))
    (combined_of_mem_gather hb)
  rw [Block.Plain, hmembers, Entry.nodes_map_node]

/-- Dropping repeated members from the groups again yields the same, whether they were kept
    before or not. -/
theorem map_dropping_stitchBlocks (h : ∀ b ∈ blocks, b.Plain) :
    (o.stitchBlocks blocks).map o.dropping.dedupeGroup = o.dropping.stitchBlocks blocks := by
  rw [stitchBlocks, List.map_map]
  exact List.map_congr_left fun block hb => dropping_dedupeGroup (plain_of_mem_gather h hb)

/-- Without repeated members, the bare result does not tell whether they were dropped
    before. -/
theorem map_dedupe_stitchBare (o : Options) (definitions : List Definition) :
    (o.stitchBare (definitions.map Definition.bare)).map (Definition.mapMembers Member.dedupe)
      = o.checkedTail definitions := by
  have hgroups (blocks : List Block) :
      (blocks.map fun block => Definition.type (.block block)).map
          (Definition.mapMembers Member.dedupe)
        = (blocks.map o.dropping.dedupeGroup).map fun block => .type (.block block) := by
    rw [List.map_map, List.map_map]
    rfl
  rw [stitchBare, List.map_append, hgroups, map_dropping_stitchBlocks plain_gathered,
    filter_passes_bare, checkedTail]

/-! ## What is checked -/

/-- What the text that texts are stitched into is read as when it is checked. -/
structure ReadBack (o : Options) (texts : List Text) (sdl : Text) (document : Document) :
    Prop where
  stitched : o.stitchText (texts.map .text) = .ok sdl
  parsed : Document.parse sdl = .ok document
  sources : document.sources = [sdl]
  conflicts : document.conflicts = o.conflicts (texts.flatMap definitionsOf)
  checked : ∃ schema, o.rootTypes.schema (o.merged (entriesOf texts)) = .ok schema
    ∧ document.dedupe.definitions
      = .schema schema :: o.checkedTail (texts.flatMap definitionsOf)

/-- A stitched text can be read back. -/
theorem exists_readBack (hr : o.rootTypes.WellFormed)
    (h : ∀ text ∈ texts, ∃ document, Document.parse text = .ok document
      ∧ ∀ d ∈ document.definitions, d.kind ≠ .executable) :
    ∃ sdl document, o.ReadBack texts sdl document := by
  obtain ⟨s, hs, hstitched, hparsed, hbare⟩ := exists_portion hr h
  refine ⟨_, _, hstitched, hparsed, rfl, ?_, s.schema, (stitch_eq_ok hs).1, ?_⟩
  · rw [Document.conflicts, Document.definitions, Entry.nodes_map_node, hbare, bareOf,
      List.filterMap_cons_none rfl]
    exact conflicts_stitchBare o _
  · rw [Document.definitions_dedupe, Document.definitions, Entry.nodes_map_node, hbare, bareOf,
      List.map_cons, map_dedupe_stitchBare]
    rfl

/-- The conflicts found in the text that texts are stitched into are those among all their
    definitions, and checking the text reports them iff there are any. -/
theorem conflicts_stitchText (hr : o.rootTypes.WellFormed)
    (h : ∀ text ∈ texts, ∃ document, Document.parse text = .ok document
      ∧ ∀ d ∈ document.definitions, d.kind ≠ .executable) :
    ∃ sdl document, o.stitchText (texts.map .text) = .ok sdl
      ∧ Document.parse sdl = .ok document
      ∧ document.conflicts = o.conflicts (texts.flatMap definitionsOf)
      ∧ ∀ found, Schema.ofText sdl = .error (.invalid (.conflicts found))
        ↔ found = o.conflicts (texts.flatMap definitionsOf) ∧ found ≠ [] := by
  obtain ⟨sdl, document, hread⟩ := exists_readBack hr h
  refine ⟨sdl, document, hread.stitched, hread.parsed, hread.conflicts, fun found => ?_⟩
  rw [Schema.ofText_of_parse hread.parsed, CheckError.mapError_invalid_inj,
    Document.validate_eq_conflicts, hread.conflicts]

/-- The schema declaration does not depend on whether repeats are dropped. -/
theorem schema_keeping_dropping (o : Options) (entries : List (Entry Definition)) :
    o.rootTypes.schema (o.keeping.merged entries) = o.rootTypes.schema (o.dropping.merged entries) := by
  refine schema_of_names ?_
  rw [names_merged, names_merged]
  rfl

/-- Whether repeated members are dropped while stitching makes no difference once the text is
    checked: there is the same schema, or none for the same reason.  If that is an argument of
    a directive that cannot be evaluated, it is shown where it stands in either text. -/
theorem ofText_keeping_dropping (hr : o.rootTypes.WellFormed)
    (h : ∀ text ∈ texts, ∃ document, Document.parse text = .ok document
      ∧ ∀ d ∈ document.definitions, d.kind ≠ .executable) :
    ∃ kept dropped, o.keeping.stitchText (texts.map .text) = .ok kept
      ∧ o.dropping.stitchText (texts.map .text) = .ok dropped
      ∧ (Schema.ofText kept = Schema.ofText dropped
        ∨ ∃ fault site, fault.site? = some site
          ∧ Schema.ofText kept = .error (.invalid (.ofBuildFault [kept] fault))
          ∧ Schema.ofText dropped = .error (.invalid (.ofBuildFault [dropped] fault))) := by
  obtain ⟨kept, first, hkept⟩ := exists_readBack (o := o.keeping) hr h
  obtain ⟨dropped, second, hdropped⟩ := exists_readBack (o := o.dropping) hr h
  refine ⟨kept, dropped, hkept.stitched, hdropped.stitched, ?_⟩
  -- both texts tell the same conflicts, and without repeats they have the same definitions
  have hconflicts : first.conflicts = second.conflicts :=
    hkept.conflicts.trans hdropped.conflicts.symm
  have hdefinitions : first.dedupe.definitions = second.dedupe.definitions := by
    obtain ⟨schema, hschema, hfirst⟩ := hkept.checked
    obtain ⟨other, hother, hsecond⟩ := hdropped.checked
    have hsame : Except.ok schema = .ok other :=
      hschema.symm.trans ((schema_keeping_dropping o _).trans hother)
    rw [hfirst, hsecond, Except.ok.inj hsame]
    rfl
  rw [Schema.ofText_of_parse hkept.parsed, Schema.ofText_of_parse hdropped.parsed]
  by_cases hnone : first.conflicts = []
  · -- both go on to build a schema, and of the same definitions
    rw [Document.validate_of_conflicts_eq_nil hnone,
      Document.validate_of_conflicts_eq_nil (hconflicts ▸ hnone), hdefinitions, hkept.sources,
      hdropped.sources]
    rcases Schema.ofDefinitions_sources [kept] [dropped] second.dedupe.definitions with
      heq | ⟨fault, site, hsite, hfirst, hsecond⟩
    · exact .inl (congrArg _ heq)
    · refine .inr ⟨fault, site, hsite, ?_, ?_⟩
      · rw [hfirst]
        rfl
      · rw [hsecond]
        rfl
  -- both are refused for these conflicts
  · refine .inl (congrArg _ ?_)
    rw [Document.validate_eq_conflicts.mpr ⟨rfl, hnone⟩,
      Document.validate_eq_conflicts.mpr ⟨rfl, hconflicts ▸ hnone⟩, hconflicts]

end Options

/-- Two types of one name that do not agree on a field. -/
theorem conflicts_stitchText_twoTypes :
    let texts : List Text := ["type Query {a: Int}", "type Query {a: ID b: Int}"]
    let found : List Conflict := ({} : Options).conflicts (texts.flatMap definitionsOf)
    RootTypes.default.WellFormed
      ∧ (∀ text ∈ texts, ∃ document, Document.parse text = .ok document
          ∧ ∀ d ∈ document.definitions, d.kind ≠ .executable)
      ∧ found = [⟨"Query", "a", ["a: Int", "a: ID"]⟩]
      ∧ ∃ sdl document, ({} : Options).stitchText (texts.map .text) = .ok sdl
        ∧ Document.parse sdl = .ok document
        ∧ document.conflicts = found
        ∧ ∀ reported, Schema.ofText sdl = .error (.invalid (.conflicts reported))
          ↔ reported = found ∧ reported ≠ [] := by
  intro texts found
  have hfirst : ∃ document, Document.parse "type Query {a: Int}" = .ok document
      ∧ ∀ d ∈ document.definitions, d.kind ≠ .executable :=
    exists_typeSystemDocument (by decide +kernel)
  have hsecond : ∃ document, Document.parse "type Query {a: ID b: Int}" = .ok document
      ∧ ∀ d ∈ document.definitions, d.kind ≠ .executable :=
    exists_typeSystemDocument (by decide +kernel)
  have hall : ∀ text ∈ texts, ∃ document, Document.parse text = .ok document
      ∧ ∀ d ∈ document.definitions, d.kind ≠ .executable := by
    intro text htext
    rcases List.mem_cons.mp htext with rfl | htext
    · exact hfirst
    · rw [List.mem_singleton.mp htext]
      exact hsecond
  exact ⟨wellFormed_default, hall, by decide +kernel +zetaReduce,
    Options.conflicts_stitchText wellFormed_default hall⟩

/-- A field that comes twice. -/
theorem ofText_keeping_dropping_twice :
    let texts : List Text := ["type Query {a: Int a: Int}"]
    RootTypes.default.WellFormed
      ∧ (∀ text ∈ texts, ∃ document, Document.parse text = .ok document
          ∧ ∀ d ∈ document.definitions, d.kind ≠ .executable)
      ∧ ∃ kept dropped, ({} : Options).keeping.stitchText (texts.map .text) = .ok kept
          ∧ ({} : Options).dropping.stitchText (texts.map .text) = .ok dropped
          ∧ (Schema.ofText kept = Schema.ofText dropped
            ∨ ∃ fault site, fault.site? = some site
              ∧ Schema.ofText kept = .error (.invalid (.ofBuildFault [kept] fault))
              ∧ Schema.ofText dropped = .error (.invalid (.ofBuildFault [dropped] fault))) := by
  intro texts
  have hall : ∀ text ∈ texts, ∃ document, Document.parse text = .ok document
      ∧ ∀ d ∈ document.definitions, d.kind ≠ .executable := by
    intro text htext
    rw [List.mem_singleton.mp htext]
    exact exists_typeSystemDocument (by decide +kernel)
  exact ⟨wellFormed_default, hall,
    Options.ofText_keeping_dropping (o := {}) wellFormed_default hall⟩

/-- The place of an argument that cannot be evaluated is told by the line it stands in, and that
    line depends on repeated members before it. -/
theorem not_ofText_keeping_dropping :
    ¬ ∀ (o : Options) (texts : List Text), o.rootTypes.WellFormed
      → (∀ text ∈ texts, ∃ document, Document.parse text = .ok document
          ∧ ∀ d ∈ document.definitions, d.kind ≠ .executable)
      → ∃ kept dropped, o.keeping.stitchText (texts.map .text) = .ok kept
          ∧ o.dropping.stitchText (texts.map .text) = .ok dropped
          ∧ (Schema.ofText kept).mapError CheckError.message
            = (Schema.ofText dropped).mapError CheckError.message := by
  intro hsame
  obtain ⟨kept, dropped, hkept, hdropped, heq⟩ := hsame {}
    ["type Query { a: Int a: Int b: Int @deprecated(reason: 5) }"]
    wellFormed_default (fun text htext => by
      rw [List.mem_singleton.mp htext]
      exact exists_typeSystemDocument (by decide +kernel))
  have hfirst : ({} : Options).keeping.stitchText
      [.text "type Query { a: Int a: Int b: Int @deprecated(reason: 5) }"]
      = .ok (Text.join "\n" [r"schema {", "  query: Query", r"}", "",
        r"type Query {", "  a: Int", "  a: Int", "  b: Int @deprecated(reason: 5)", r"}"]) := by
    decide +kernel
  have hsecond : ({} : Options).dropping.stitchText
      [.text "type Query { a: Int a: Int b: Int @deprecated(reason: 5) }"]
      = .ok (Text.join "\n" [r"schema {", "  query: Query", r"}", "",
        r"type Query {", "  a: Int", "  b: Int @deprecated(reason: 5)", r"}"]) := by
    decide +kernel
  rw [← Except.ok.inj (hfirst.symm.trans hkept), ← Except.ok.inj (hsecond.symm.trans hdropped)] at heq
  revert heq
  decide +kernel

end SchemaStitch
