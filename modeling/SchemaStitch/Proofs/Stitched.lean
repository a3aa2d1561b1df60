import SchemaStitch.Proofs.Groups
import SchemaStitch.Proofs.Results

/-! # What stitching yields

    Given definitions that are well formed and hold no comments, and options that are well
    formed too, stitching succeeds.  What it yields is settled: it is printed like its bare
    form but for comments (`Options.settled_merged`, `Options.settled_rest`,
    `Stitched.Settled.spells_tail`).  The bare form of the result depends on the bare form of what
    is stitched only (`Options.bare_merged`, `Options.bare_rest`). -/

namespace SchemaStitch

/-! ## The schema declaration -/

/-- Every operation for which a root type is given is known, and the type has a name. -/
def RootTypes.WellFormed (roots : RootTypes) : Prop :=
  ∀ root ∈ roots, (OperationKind.ofKeyword? root.1).isSome = true ∧ isName root.2 = true

namespace RootTypes

variable {roots : RootTypes}

/-- A type for an operation is one of the root types. -/
theorem type?_eq_some {operation type : Text} (h : roots.type? operation = some type) :
    ∃ root ∈ roots, root.2 = type := by
  obtain ⟨root, hfind, rfl⟩ := Option.map_eq_some_iff.mp h
  exact ⟨root, List.mem_of_find?_eq_some hfind, rfl⟩

/-- Known operations are listed with types that are root types. -/
theorem WellFormed.operations (h : roots.WellFormed) (present : List Text) :
    ∃ operations, roots.operations present = .ok operations
      ∧ ∀ root ∈ operations, isName root.type = true := by
  induction roots with
  | nil => exact ⟨[], rfl, fun _ h => by cases h⟩
  | cons root rest ih =>
      obtain ⟨word, type⟩ := root
      obtain ⟨hword, hname⟩ := h (word, type) (List.mem_cons_self ..)
      obtain ⟨others, hothers, hnames⟩ := ih fun other hother => h other (List.mem_cons_of_mem _ hother)
      obtain ⟨operation, hoperation⟩ := Option.isSome_iff_exists.mp hword
      rw [RootTypes.operations, hothers, hoperation]
      split
      · refine ⟨⟨operation, type⟩ :: others, rfl, ?_⟩
        exact List.forall_mem_cons.mpr ⟨hname, hnames⟩
      · exact ⟨others, rfl, hnames⟩

/-- The schema declaration can be made, and it is not empty. -/
theorem WellFormed.schema (h : roots.WellFormed) (entries : List (Entry Definition)) :
    ∃ schema, roots.schema entries = .ok schema ∧ (Definition.schema schema).WellFormed
      ∧ schema.description = none := by
  obtain ⟨operations, hoperations, hnames⟩ :=
    h.operations ((Entry.nodes entries).filterMap Definition.name?)
  have hquery : isName ((roots.type? "query").getD "Query") = true := by
    cases htype : roots.type? "query" with
    | none => rfl
    | some type =>
        obtain ⟨root, hroot, rfl⟩ := type?_eq_some htype
        exact (h root hroot).2
  rw [RootTypes.schema, hoperations]
  refine ⟨_, rfl, ⟨⟨fun _ h => (by cases h), fun _ h => (by cases h), ?_⟩, ?_⟩, rfl⟩
  · intro root hroot
    split at hroot
    · rw [List.mem_singleton.mp hroot]
      exact hquery
    · exact hnames root hroot
  · show (if operations.isEmpty = true then _ else operations) ≠ []
    split
    · exact List.cons_ne_nil _ _
    · next hne => exact fun heq => hne (List.isEmpty_iff.mpr heq)

end RootTypes

/-! ## Gathered types -/

/-- An object type is a type with members, of the kind of objects. -/
theorem Definition.object?_eq_some {d : Definition} {b : Block} (h : d.object? = some b) :
    d = .type (.block b) ∧ b.kind = .object := by
  cases d with
  | type t =>
      cases t with
      | block b' =>
          obtain ⟨hkind, heq⟩ := Option.ite_none_right_eq_some.mp h
          obtain rfl := Option.some.inj heq
          exact ⟨rfl, hkind⟩
      | _ => cases h
  | _ => cases h

/-- What is gathered is an object type. -/
theorem Definition.gathered?_eq_some {all : Bool} {names : List Text} {d : Definition} {b : Block}
    (h : d.gathered? all names = some b) : d = .type (.block b) ∧ b.kind = .object :=
  object?_eq_some (Option.filter_eq_some_iff.mp h).1

/-- There are no comments among entries nor in their definitions, and these are well formed
    but for descriptions. -/
structure Entry.Readable (entries : List (Entry Definition)) : Prop where
  nodes : entries = (Entry.nodes entries).map .node
  definitions : ∀ d ∈ Entry.nodes entries, d.bare.WellFormed ∧ d.Uncommented

namespace Options

variable {o : Options} {entries : List (Entry Definition)} {block : Block}

/-- What a readable source contributes is settled once its members are commented. -/
theorem settled_contribution (h : Entry.Readable entries)
    (hb : block ∈ (o.contributions entries).map Block.withCommentedMembers) :
    block.Settled ∧ block.kind = .object := by
  obtain ⟨original, horiginal, rfl⟩ := List.mem_map.mp hb
  obtain ⟨d, hd, hgathered⟩ := List.mem_filterMap.mp horiginal
  obtain ⟨rfl, hkind⟩ := Definition.gathered?_eq_some hgathered
  obtain ⟨hw, hu⟩ := h.definitions _ hd
  have hattached : Entry.Attached original.members := by
    rw [show original.members = _ from hu]
    exact Entry.attached_map_node _
  exact ⟨Block.settled_withCommentedMembers hw hattached, hkind⟩

/-- A group of what readable sources contribute is settled. -/
theorem settled_group (h : Entry.Readable entries) (hb : block ∈ o.groups entries) : block.Settled := by
  have hall : ∀ b ∈ ((o.contributions entries).map Block.withCommentedMembers).filter
      fun b => b.name = block.name, b.Settled ∧ b.kind = .object :=
    fun b hmem => settled_contribution h (List.mem_of_mem_filter hmem)
  exact (Groups.settled_of_combined hall (Groups.combined_of_mem_gather hb)).1

/-- A settled group stays so without its repeats. -/
theorem settled_dedupeGroup (o : Options) (h : block.Settled) : (o.dedupeGroup block).Settled := by
  rw [dedupeGroup]
  split
  · refine ⟨⟨h.wellFormed.description, h.wellFormed.name, h.wellFormed.interfaces,
      h.wellFormed.implements, h.wellFormed.directives, ?_⟩, Member.attached_dedupe h.attached, ?_⟩
    · intro member hm
      rw [Member.nodes_dedupe] at hm
      exact h.wellFormed.members member (mem_of_mem_firsts hm)
    · intro member hm
      rw [Member.nodes_dedupe] at hm
      exact h.undocumented member (mem_of_mem_firsts hm)
  · exact h

/-- The definition that a group is printed as. -/
def mergedDefinition (o : Options) (block : Block) : Definition :=
  (Definition.type (.block (o.dedupeGroup block))).withoutDescription

/-- The merged entries are the commented groups, with repeats dropped where that is asked for. -/
theorem merged_eq (o : Options) (entries : List (Entry Definition)) :
    o.merged entries = Entry.commented (((o.groups entries).map fun block =>
      Definition.type (.block (o.dedupeGroup block))).map .node) := by
  rw [merged, List.map_map]
  rfl

/-- Each group is merged into one definition. -/
theorem nodes_merged (o : Options) (entries : List (Entry Definition)) :
    Entry.nodes (o.merged entries) = (o.groups entries).map o.mergedDefinition := by
  rw [merged_eq, Entry.nodes_commented, Entry.nodes_map_node, List.map_map]
  rfl

/-- Every gathered type has a name. -/
theorem names_merged (o : Options) (entries : List (Entry Definition)) :
    (Entry.nodes (o.merged entries)).map Definition.name?
      = ((o.groups entries).map Block.name).map some := by
  rw [nodes_merged, List.map_map, List.map_map]
  refine List.map_congr_left fun block _ => ?_
  show some (o.dedupeGroup block).name = some block.name
  rw [dedupeGroup]
  split <;> rfl

/-- The comments among merged entries stand in front of something. -/
theorem attached_merged (o : Options) (entries : List (Entry Definition)) :
    Entry.Attached (o.merged entries) := by
  rw [merged_eq]
  exact Entry.attached_commented (Entry.attached_map_node _)

/-- Gathered types are settled and have no descriptions. -/
theorem settled_merged (h : Entry.Readable entries) :
    ∀ d ∈ Entry.nodes (o.merged entries), d.Settled ∧ d.withoutDescription = d := by
  intro d hd
  rw [nodes_merged] at hd
  obtain ⟨block, hblock, rfl⟩ := List.mem_map.mp hd
  have hsettled := settled_dedupeGroup o (settled_group h hblock)
  exact ⟨(Definition.settled_block hsettled).withoutDescription, rfl⟩

/-! ## What passes through -/

/-- What passes through keeps its order, its members commented. -/
theorem nodes_rest (o : Options) (entries : List (Entry Definition)) :
    Entry.nodes (o.rest entries)
      = ((Entry.nodes entries).filter fun d => o.passes (.node d)).map
          Definition.withCommentedMembers := by
  induction entries with
  | nil => rfl
  | cons entry rest ih =>
      rw [Options.rest] at ih ⊢
      cases entry with
      | comment line => exact ih
      | node d =>
          rw [Entry.nodes_node]
          by_cases hp : o.passes (.node d) = true
          · rw [List.filter_cons_of_pos hp,
              List.filter_cons_of_pos (p := fun d => o.passes (.node d)) hp, List.map_cons,
              List.map_cons, ← ih]
            rfl
          · rw [List.filter_cons_of_neg hp,
              List.filter_cons_of_neg (p := fun d => o.passes (.node d)) hp, ih]

/-- What passes through from readable sources is settled. -/
theorem settled_rest (h : Entry.Readable entries) :
    ∀ d ∈ Entry.nodes (o.rest entries), d.Settled := by
  intro d hd
  rw [nodes_rest] at hd
  obtain ⟨original, horiginal, rfl⟩ := List.mem_map.mp hd
  obtain ⟨hw, hu⟩ := h.definitions original (List.mem_of_mem_filter horiginal)
  exact Definition.settled_withCommentedMembers hw hu

/-- No comments stand between the definitions that pass through from readable sources. -/
theorem rest_eq_map_node (o : Options) {entries : List (Entry Definition)}
    (h : Entry.Readable entries) : o.rest entries = (Entry.nodes (o.rest entries)).map .node := by
  have hfilter : (entries.filter o.passes).map (Entry.map Definition.withCommentedMembers)
      = (((Entry.nodes entries).filter fun d => o.passes (.node d)).map
          Definition.withCommentedMembers).map .node := by
    rw [h.nodes, Entry.nodes_map_node, List.filter_map, List.map_map, List.map_map]
    rfl
  rw [nodes_rest]
  exact hfilter

end Options

/-! ## The printed result -/

/-- What passes through is printed with the comments for its description. -/
theorem Definition.Settled.spells_documented {d : Definition} (h : d.Settled) :
    Spells (printEntries (Entry.withComments (Entry.documented (.node d)))) d.bare.tokens := by
  have hall := spells_printEntries (Entry.attached_withComments_node d) fun e he => by
    rw [Entry.nodes_withComments] at he
    rw [List.mem_singleton.mp he]
    exact ⟨h.wellFormed, h.withoutDescription.attached⟩
  rw [Entry.nodes_withComments, List.flatMap_singleton] at hall
  rw [h.tokens]
  exact hall

/-- Joining sets a separator before every part but the first. -/
theorem Text.join_eq_append_flatMap (separator part : Text) (rest : List Text) :
    Text.join separator (part :: rest) = part ++ rest.flatMap (separator ++ ·) := by
  induction rest generalizing part with
  | nil => simp [Text.join]
  | cons next others ih =>
      rw [Text.join, List.intercalate_cons_cons, ← Text.join, ih, List.flatMap_cons,
        List.append_assoc, List.append_assoc]

namespace Stitched

variable {s : Stitched}

/-- What is printed behind the schema declaration. -/
def tail (s : Stitched) : Text :=
  printEntriesAfter "\n\n" s.merged
    ++ s.rest.flatMap fun entry => ("\n\n" : Text) ++ printEntries (Entry.withComments entry.documented)

/-- The printed result is the schema declaration and what is behind it. -/
theorem print_eq (s : Stitched) : s.print = s.schema.print ++ s.tail := by
  rw [print, blocks, Text.join_eq_append_flatMap, List.flatMap_map, tail, ← List.append_assoc]
  rfl

/-- A result that is printed like its bare form but for comments. -/
structure Settled (s : Stitched) : Prop where
  attached : Entry.Attached s.merged
  merged : ∀ d ∈ Entry.nodes s.merged, d.Settled ∧ d.withoutDescription = d
  passing : s.rest = (Entry.nodes s.rest).map .node
  rest : ∀ d ∈ Entry.nodes s.rest, d.Settled

/-- The definitions behind the schema declaration as they are read back. -/
def bareTail (s : Stitched) : List Definition :=
  (Entry.nodes s.merged ++ Entry.nodes s.rest).map Definition.bare

/-- The merged entries of a settled result spell the bare forms of their definitions. -/
theorem Settled.spells_merged (h : s.Settled) :
    Spells (printEntriesAfter "\n\n" s.merged)
      (((Entry.nodes s.merged).map Definition.bare).flatMap Definition.tokens) := by
  have htokens : ((Entry.nodes s.merged).map Definition.bare).flatMap Definition.tokens
      = (Entry.nodes s.merged).flatMap Definition.tokens := by
    rw [List.flatMap_map]
    refine List.flatMap_congr fun d hd => ?_
    obtain ⟨hsettled, hd⟩ := h.merged d hd
    rw [hsettled.tokens, hd]
  rw [htokens]
  cases hm : s.merged with
  | nil => exact .nil
  | cons entry rest =>
      rw [printEntriesAfter_eq _ (List.cons_ne_nil _ _), ← hm]
      refine leads_blankLine _ _ (spells_printEntries h.attached fun d hd => ?_)
      obtain ⟨hsettled, hundescribed⟩ := h.merged d hd
      exact ⟨hundescribed ▸ hsettled.wellFormed, hsettled.attached⟩

/-- Settled definitions, each behind a blank line and its comments, spell their bare forms. -/
theorem spells_passing {definitions : List Definition} (h : ∀ d ∈ definitions, d.Settled) :
    Spells ((definitions.map Entry.node).flatMap fun entry =>
        ("\n\n" : Text) ++ printEntries (Entry.withComments entry.documented))
      ((definitions.map Definition.bare).flatMap Definition.tokens) := by
  induction definitions with
  | nil => exact .nil
  | cons d rest ih =>
      have hrest := ih fun e he => h e (List.mem_cons_of_mem _ he)
      have hfirst := leads_blankLine _ _ (h d (List.mem_cons_self ..)).spells_documented
      refine hfirst.append hrest ?_
      cases rest with
      | nil => exact isBounded_nil
      | cons e others => exact isBounded_cons.mpr rfl

/-- What is behind the schema declaration starts on a line of its own, or is nothing. -/
theorem isBounded_tail (s : Stitched) : IsBounded s.tail := by
  rw [tail]
  cases s.merged with
  | nil =>
      cases s.rest with
      | nil => exact isBounded_nil
      | cons entry rest => exact isBounded_cons.mpr rfl
  | cons entry rest => exact isBounded_cons.mpr rfl

/-- What stands behind the schema declaration spells its bare form. -/
theorem Settled.spells_tail (h : s.Settled) :
    Spells s.tail (s.bareTail.flatMap Definition.tokens) := by
  have hrest := spells_passing h.rest
  rw [← h.passing] at hrest
  rw [bareTail, List.map_append, List.flatMap_append]
  refine h.spells_merged.append hrest ?_
  cases s.rest with
  | nil => exact isBounded_nil
  | cons entry rest => exact isBounded_cons.mpr rfl

end Stitched

/-! ## The bare result -/

/-- Without comments, dropping repeats keeps the first member of each key. -/
theorem Member.dedupe_map_node (members : List Member) :
    Member.dedupe (members.map .node) = (firsts Member.key [] members).map .node := by
  have hfrom : ∀ seen, Member.dedupeFrom seen [] (members.map .node)
      = (firsts Member.key seen members).map .node := by
    induction members with
    | nil => intro seen; rfl
    | cons member rest ih =>
        intro seen
        rw [List.map_cons, Member.dedupeFrom]
        by_cases hs : member.key ∈ seen
        · rw [if_pos (List.contains_iff_mem.mpr hs), firsts_cons_pos hs, ih]
        · rw [if_neg fun hc => hs (List.contains_iff_mem.mp hc), firsts_cons_neg hs, ih]
          rfl
  exact hfrom []

namespace Options

variable {o : Options} {entries others : List (Entry Definition)} {s : Stitched}

/-- Dropping repeated members leaves comments and descriptions alone. -/
theorem bare_dedupeGroup (o : Options) (block : Block) :
    (o.dedupeGroup block).bare = o.dedupeGroup block.bare := by
  rw [dedupeGroup, dedupeGroup]
  split
  · have hkey : (fun member : Member => member.withoutDescription.key) = Member.key :=
      funext Member.key_withoutDescription
    have hmembers : (Entry.nodes (Member.dedupe block.members)).map Member.withoutDescription
        = firsts Member.key [] block.bareMembers := by
      rw [Member.nodes_dedupe, Block.bareMembers, firsts_map, hkey]
    rw [Block.bare_members, Member.dedupe_map_node, ← hmembers, List.map_map]
    rfl
  · rfl

/-- Bare types gathered and without repeated members. -/
def stitchBlocks (o : Options) (blocks : List Block) : List Block :=
  (Groups.gather o.rootTypes.names blocks).blocks.map o.dedupeGroup

/-- What bare definitions are stitched into, but for the schema declaration. -/
def stitchBare (o : Options) (definitions : List Definition) : List Definition :=
  (o.stitchBlocks (definitions.filterMap o.gathered?)).map (fun block => .type (.block block))
    ++ definitions.filter fun d => o.passes (.node d)

theorem filterMap_gathered_bare (o : Options) (definitions : List Definition) :
    (definitions.map Definition.bare).filterMap o.gathered?
      = (definitions.filterMap o.gathered?).map Block.bare := by
  rw [List.filterMap_map, List.map_filterMap]
  exact List.filterMap_congr fun d _ => Definition.gathered?_bare _ _ d

/-- What sources contribute is the same of their bare forms. -/
theorem bare_contributions (o : Options) (entries : List (Entry Definition)) :
    (o.contributions entries).map Block.bare
      = ((Entry.nodes entries).map Definition.bare).filterMap o.gathered? := by
  rw [contributions, filterMap_gathered_bare]

/-- Gathered types are bare where they come from bare definitions. -/
theorem bare_merged (o : Options) (entries : List (Entry Definition)) :
    (Entry.nodes (o.merged entries)).map Definition.bare
      = (o.stitchBlocks (((Entry.nodes entries).map Definition.bare).filterMap o.gathered?)).map
          fun block => .type (.block block) := by
  have hgroups : (o.groups entries).map Block.bare
      = (Groups.gather o.rootTypes.names ((o.contributions entries).map Block.bare)).blocks := by
    have hbare : ((o.contributions entries).map Block.withCommentedMembers).map Block.bare
        = (o.contributions entries).map Block.bare := by
      rw [List.map_map]
      exact List.map_congr_left fun block _ => block.bare_withCommentedMembers
    rw [← hbare, Groups.gather_bare]
    rfl
  rw [nodes_merged, List.map_map, ← bare_contributions, stitchBlocks, ← hgroups, List.map_map,
    List.map_map]
  refine List.map_congr_left fun block _ => ?_
  show (mergedDefinition o block).bare = .type (.block (o.dedupeGroup block.bare))
  rw [← bare_dedupeGroup]
  rfl

/-- Whether a definition passes through does not depend on its descriptions and comments. -/
theorem passes_bare (o : Options) (d : Definition) :
    o.passes (.node d.bare) = o.passes (.node d) := by
  show ((o.gathered? d.bare).isNone && !d.bare.isSchema) = ((o.gathered? d).isNone && !d.isSchema)
  rw [gathered?, Definition.gathered?_bare, Definition.isSchema_bare, Option.isNone_map, gathered?]

/-- The bare forms of what passes through are what passes of the bare forms. -/
theorem filter_passes_bare (o : Options) (definitions : List Definition) :
    (definitions.map Definition.bare).filter (fun d => o.passes (.node d))
      = (definitions.filter fun d => o.passes (.node d)).map Definition.bare := by
  rw [List.filter_map]
  exact congrArg _ (List.filter_congr fun d _ => o.passes_bare d)

/-- The bare forms of what passes through come from the bare forms of the sources. -/
theorem bare_rest (o : Options) (entries : List (Entry Definition)) :
    (Entry.nodes (o.rest entries)).map Definition.bare
      = ((Entry.nodes entries).map Definition.bare).filter fun d => o.passes (.node d) := by
  rw [nodes_rest, List.map_map, filter_passes_bare]
  exact List.map_congr_left fun d _ => d.bare_withCommentedMembers

/-- A result is made of a schema declaration, the merged entries and what passes through. -/
theorem stitch_eq_ok (hs : o.stitch entries = .ok s) :
    o.rootTypes.schema (o.merged entries) = .ok s.schema ∧ s.merged = o.merged entries
      ∧ s.rest = o.rest entries := by
  obtain ⟨schema, hschema, hs⟩ := bind_eq_ok.mp hs
  obtain rfl := Except.ok.inj hs
  exact ⟨hschema, rfl, rfl⟩

/-- The bare form of the result depends on the bare form of what is stitched. -/
theorem bareTail_stitch (hs : o.stitch entries = .ok s) :
    s.bareTail = o.stitchBare ((Entry.nodes entries).map Definition.bare) := by
  obtain ⟨-, hmerged, hrest⟩ := stitch_eq_ok hs
  rw [Stitched.bareTail, hmerged, hrest, List.map_append, bare_merged, bare_rest, stitchBare]

theorem names_bare (definitions : List Definition) :
    (definitions.map Definition.bare).map Definition.name? = definitions.map Definition.name? := by
  rw [List.map_map]
  exact List.map_congr_left fun d _ => d.name?_bare

/-- The schema declaration depends on the names of the gathered types only. -/
theorem schema_of_names
    (h : (Entry.nodes entries).map Definition.name? = (Entry.nodes others).map Definition.name?) :
    o.rootTypes.schema entries = o.rootTypes.schema others := by
  have hnames (definitions : List Definition) : definitions.filterMap Definition.name?
      = (definitions.map Definition.name?).filterMap id := by
    rw [List.filterMap_map]
    rfl
  rw [RootTypes.schema, RootTypes.schema, hnames, h, ← hnames]

/-- The schema declaration depends on the bare forms of the definitions alone. -/
theorem schema_congr
    (h : (Entry.nodes entries).map Definition.bare = (Entry.nodes others).map Definition.bare) :
    o.rootTypes.schema entries = o.rootTypes.schema others := by
  refine schema_of_names ?_
  rw [← names_bare, h, names_bare]

end Options

end SchemaStitch
