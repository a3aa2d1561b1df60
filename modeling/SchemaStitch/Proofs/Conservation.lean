import SchemaStitch.Proofs.Increment

/-! # Nothing is lost in stitching

    Stitching sorts definitions: schema declarations are dropped, object types that take part
    are gathered by name, and the rest passes through.  Where repeated members are kept,
    nothing else is lost, doubled or moved (`Options.stitch_conserves`): what passes through
    keeps its order and changes only in the descriptions of its members, there is one group
    for each name that was gathered, and a group holds the members of all types of its name
    (`Block.Collects`).

    Whether a group has a place is known before anything belongs to it, so the order of the
    groups is the one of `Groups.order` without the names that no type has. -/

namespace SchemaStitch

/-! ## What may change -/

/-- The definition without the comments among its members. -/
def Definition.withoutComments (definition : Definition) : Definition :=
  definition.mapMembers fun members => (Entry.nodes members).map .node

/-- The definition without the descriptions of its members. -/
def Definition.withoutMemberDescriptions (definition : Definition) : Definition :=
  definition.mapMembers (List.map (Entry.map Member.withoutDescription))

/-- A group that holds the members of some types in order, without their descriptions.  All
    else it has from the first of them. -/
structure Block.Collects (group : Block) (parts : List Block) : Prop where
  heading : ∃ first, parts.head? = some first ∧ group.kind = first.kind
    ∧ group.name = first.name ∧ group.interfaces = first.interfaces
    ∧ group.directives = first.directives
  members : Entry.nodes group.members = (memberNodes parts).map Member.withoutDescription

/-- Comments for the descriptions of members are all that is new in a definition that had no
    comments. -/
theorem Definition.Uncommented.withCommentedMembers {d : Definition} (h : d.Uncommented) :
    d.withCommentedMembers.withoutComments = d.withoutMemberDescriptions := by
  cases d with
  | type t =>
      cases t with
      | block b =>
          have hmembers : b.members = (Entry.nodes b.members).map .node := h
          have hentries : (Entry.nodes (Entry.commented b.members)).map Entry.node
              = b.members.map (Entry.map Member.withoutDescription) := by
            rw [Entry.nodes_commented, hmembers, Entry.nodes_map_node, List.map_map, List.map_map]
            rfl
          show Definition.type (.block { b with
            members := (Entry.nodes (Entry.commented b.members)).map .node }) = _
          rw [hentries]
          rfl
      | _ => rfl
  | _ => rfl

/-! ## The schema declaration -/

namespace RootTypes

variable {roots : RootTypes}

/-- Root types are given for known operations only. -/
def Known (roots : RootTypes) : Prop :=
  ∀ root ∈ roots, (OperationKind.ofKeyword? root.1).isSome = true

theorem Known.operations (h : roots.Known) (present : List Text) :
    ∃ operations, roots.operations present = .ok operations := by
  induction roots with
  | nil => exact ⟨[], rfl⟩
  | cons root rest ih =>
      obtain ⟨word, type⟩ := root
      obtain ⟨operation, hoperation⟩ :=
        Option.isSome_iff_exists.mp (h (word, type) (List.mem_cons_self ..))
      obtain ⟨others, hothers⟩ := ih fun other hother => h other (List.mem_cons_of_mem _ hother)
      rw [RootTypes.operations, hothers, hoperation]
      split
      · exact ⟨⟨operation, type⟩ :: others, rfl⟩
      · exact ⟨others, rfl⟩

/-- For known operations a schema declaration can be made. -/
theorem Known.schema (h : roots.Known) (entries : List (Entry Definition)) :
    ∃ schema, roots.schema entries = .ok schema := by
  obtain ⟨operations, hoperations⟩ := h.operations ((Entry.nodes entries).filterMap Definition.name?)
  rw [RootTypes.schema, hoperations]
  exact ⟨_, rfl⟩

theorem known_default : RootTypes.default.Known := by
  rw [Known]
  decide

end RootTypes

/-- With root types for known operations only, entries of all kinds can be stitched. -/
theorem Options.exists_stitch_entries {o : Options} (ho : o.rootTypes.Known)
    (entries : List (Entry Definition)) : ∃ s, o.stitch entries = .ok s := by
  obtain ⟨schema, hschema⟩ := ho.schema (o.merged entries)
  refine ⟨⟨schema, o.merged entries, o.rest entries⟩, ?_⟩
  rw [stitch, hschema]
  rfl

/-! ## The groups -/

namespace Options

variable {o : Options} {definitions : List Definition} {group : Block}

theorem contributions_map_node (o : Options) (definitions : List Definition) :
    o.contributions (definitions.map .node) = definitions.filterMap o.gathered? := by
  rw [contributions, Entry.nodes_map_node]

/-- Where repeated members are kept, a group holds the members of all types of its name. -/
theorem collects_of_mem_groups (h : group ∈ o.groups (definitions.map .node)) :
    group.Collects ((definitions.filterMap o.gathered?).filter fun b => b.name = group.name) := by
  have hcombined := Groups.combined_of_mem_gather h
  rw [contributions_map_node, List.filter_map] at hcombined
  -- the name of a type does not depend on the comments among its members
  have hname : (fun b : Block => decide (b.name = group.name)) ∘ Block.withCommentedMembers
      = fun b => decide (b.name = group.name) := rfl
  rw [hname] at hcombined
  generalize (definitions.filterMap o.gathered?).filter (fun b => b.name = group.name) = parts
    at hcombined
  cases parts with
  | nil => cases hcombined
  | cons first rest =>
      obtain rfl := Option.some.inj hcombined
      refine ⟨⟨first, rfl, rfl, rfl, rfl, rfl⟩, ?_⟩
      show Entry.nodes (first.withCommentedMembers.members
        ++ (rest.map Block.withCommentedMembers).flatMap Block.members) = _
      rw [← List.flatMap_cons, ← List.map_cons, Groups.nodes_flatMap_members, List.flatMap_map,
        memberNodes, List.map_flatMap]
      exact List.flatMap_congr fun b _ => Entry.nodes_commented b.members

/-- The names of the groups: those that a type has, in the order of their places. -/
theorem names_groups (o : Options) (definitions : List Definition) :
    (o.groups (definitions.map .node)).map Block.name
      = (Groups.order o.rootTypes.names (definitions.filterMap o.gathered?)).filter
          fun name => name ∈ (definitions.filterMap o.gathered?).map Block.name := by
  have hbare := names_stitchBlocks o
    ((o.contributions (definitions.map .node)).map Block.withCommentedMembers)
  have hnames : ((definitions.filterMap o.gathered?).map Block.withCommentedMembers).map Block.name
      = (definitions.filterMap o.gathered?).map Block.name := by
    rw [List.map_map]
    rfl
  rw [contributions_map_node, Groups.order, hnames] at hbare
  rw [Groups.order, ← hbare, stitchBlocks, List.map_map, groups, contributions_map_node,
    Groups.gather]
  exact List.map_congr_left fun block _ => (o.name_dedupeGroup block).symm

end Options

/-- A result that keeps all of the definitions that it was stitched from, but for schema
    declarations. -/
structure Options.Conserves (o : Options) (definitions : List Definition) (s : Stitched) :
    Prop where
  /-- What is neither gathered nor a schema declaration passes through in order, and only the
      descriptions of its members go. -/
  rest : s.rest.map (Entry.map Definition.withoutComments)
    = ((definitions.filter fun d => (o.gathered? d).isNone && !d.isSchema).map
        Definition.withoutMemberDescriptions).map .node
  /-- There is one group for each gathered name: the root types first, in the order of the
      options, and any other name where it comes first. -/
  names : s.mergedNames
    = ((firsts id [] (o.rootTypes.names
          ++ (definitions.filterMap o.gathered?).map Block.name)).filter
        fun name => name ∈ (definitions.filterMap o.gathered?).map Block.name).map some
  /-- A group holds the members of all gathered types of its name. -/
  groups : ∀ d ∈ Entry.nodes s.merged, ∃ group, d = .type (.block group)
    ∧ group.Collects ((definitions.filterMap o.gathered?).filter fun b => b.name = group.name)

/-- Where repeated members are kept, stitching definitions loses, doubles and moves nothing but
    schema declarations. -/
theorem Options.stitch_conserves {o : Options} {definitions : List Definition}
    (hd : o.dedupe = false) (ho : o.rootTypes.Known) (hu : ∀ d ∈ definitions, d.Uncommented) :
    ∃ s, o.stitch (definitions.map .node) = .ok s ∧ o.Conserves definitions s := by
  obtain ⟨schema, hschema⟩ := ho.schema (o.merged (definitions.map .node))
  refine ⟨⟨schema, o.merged (definitions.map .node), o.rest (definitions.map .node)⟩, ?_, ?_, ?_, ?_⟩
  · rw [stitch, hschema]
    rfl
  · -- the comments among members are taken out again, so what is left is the original
    show (o.rest (definitions.map .node)).map (Entry.map Definition.withoutComments) = _
    rw [rest, List.filter_map, List.map_map, List.map_map, List.map_map]
    refine List.map_congr_left fun d hmem => ?_
    show Entry.node d.withCommentedMembers.withoutComments = Entry.node d.withoutMemberDescriptions
    rw [(hu d (List.mem_of_mem_filter hmem)).withCommentedMembers]
  · show (Entry.nodes (o.merged (definitions.map .node))).map Definition.name? = _
    rw [names_merged, names_groups, Groups.order]
  · intro d hmem
    have hmerged : d ∈ (o.groups (definitions.map .node)).map o.mergedDefinition :=
      nodes_merged o (definitions.map .node) ▸ hmem
    obtain ⟨group, hgroup, rfl⟩ := List.mem_map.mp hmerged
    obtain ⟨heading, members⟩ := collects_of_mem_groups hgroup
    -- nothing is dropped from a group, and its own description is no part of what it collects
    have hsame : o.dedupeGroup group = group := by
      rw [dedupeGroup, hd]
      rfl
    refine ⟨{ group with description := none }, ?_, ⟨heading, members⟩⟩
    rw [mergedDefinition, hsame]
    rfl

theorem uncommented_definitionsOf (text : Text) : ∀ d ∈ definitionsOf text, d.Uncommented := by
  rw [definitionsOf]
  split
  · next document hparse => exact fun d hd => ((Document.parse_yields hparse).2.2 d hd).2
  · exact fun _ hd => by cases hd

/-- Two types of one name around another definition. -/
theorem stitch_conserves_twoTypes :
    let definitions := definitionsOf "type Query {a: Int} scalar A type Query {b: Int}"
    ({} : Options).dedupe = false ∧ RootTypes.default.Known
      ∧ definitions.length = 3
      ∧ (∀ d ∈ definitions, d.Uncommented)
      ∧ ∃ s, ({} : Options).stitch (definitions.map .node) = .ok s
        ∧ ({} : Options).Conserves definitions s := by
  intro definitions
  have hknown : RootTypes.default.Known := by
    rw [RootTypes.Known]
    decide
  have hu : ∀ d ∈ definitions, d.Uncommented := uncommented_definitionsOf _
  exact ⟨rfl, hknown, by decide +kernel +zetaReduce, hu,
    Options.stitch_conserves (o := {}) rfl hknown hu⟩

end SchemaStitch
