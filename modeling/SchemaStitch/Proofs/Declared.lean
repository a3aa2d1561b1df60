import Mathlib.Data.List.Nodup
import SchemaStitch.Proofs.Printed

/-! # The schema declaration

    Which types are gathered, which definitions are dropped and which operations are listed
    are three decisions made in three places.  They agree: what is printed starts with the
    only schema declaration in it, the declaration lists a root type iff some definition was
    an object type of that name, and each type that is listed for this reason is printed once,
    before everything else (`Options.stitch_declares`).

    The declaration depends on the options only by their root types, and on the definitions
    only by the set of names of object types (`RootTypes.declaration_congr`). -/

namespace SchemaStitch

/-- The names of the object types among definitions. -/
def objectNames (definitions : List Definition) : List Text :=
  (definitions.filterMap Definition.object?).map Block.name

/-- The names of object types are those of the object types among the definitions. -/
theorem mem_objectNames {definitions : List Definition} {name : Text} :
    name ∈ objectNames definitions
      ↔ ∃ d ∈ definitions, ∃ b, d.object? = some b ∧ b.name = name := by
  rw [objectNames, List.mem_map]
  constructor
  · rintro ⟨b, hb, hname⟩
    obtain ⟨d, hd, hobject⟩ := List.mem_filterMap.mp hb
    exact ⟨d, hd, b, hobject, hname⟩
  · rintro ⟨d, hd, b, hobject, hname⟩
    exact ⟨b, List.mem_filterMap.mpr ⟨d, hd, hobject⟩, hname⟩

/-- Schema declarations are no object types, so leaving them out or moving definitions around
    keeps the names of object types. -/
theorem mem_objectNames_congr {definitions others : List Definition}
    (h : (others.filter fun d => !d.isSchema).Perm (definitions.filter fun d => !d.isSchema))
    (name : Text) : name ∈ objectNames others ↔ name ∈ objectNames definitions := by
  have hkept (definitions : List Definition) :
      name ∈ objectNames definitions
        ↔ name ∈ objectNames (definitions.filter fun d => !d.isSchema) := by
    rw [mem_objectNames, mem_objectNames]
    constructor
    · rintro ⟨d, hd, b, hobject, hname⟩
      obtain ⟨rfl, -⟩ := Definition.object?_eq_some hobject
      exact ⟨_, List.mem_filter.mpr ⟨hd, rfl⟩, b, hobject, hname⟩
    · rintro ⟨d, hd, hrest⟩
      exact ⟨d, List.mem_of_mem_filter hd, hrest⟩
  have hperm := ((h.filterMap Definition.object?).map Block.name).mem_iff (a := name)
  rw [hkept others, hkept definitions]
  exact hperm

/-! ## What is listed -/

namespace RootTypes

variable {roots : RootTypes} {present others : List Text}

/-- The root operations whose types are among given names, in the order of the root types. -/
def listed (present : List Text) (roots : RootTypes) : List RootOperation :=
  roots.filterMap fun root =>
    if root.2 ∈ present then (OperationKind.ofKeyword? root.1).map fun operation =>
      ⟨operation, root.2⟩
    else none

/-- The schema declaration for given names: the root operations with these types, or the query
    operation alone if there are none. -/
def declaration (present : List Text) (roots : RootTypes) : SchemaBlock where
  description := none
  directives := []
  operations :=
    if roots.listed present = [] then [⟨.query, (roots.type? "query").getD "Query"⟩]
    else roots.listed present

/-- A listed root is one of the root types, and its type is present. -/
theorem type_mem_of_listed {root : RootOperation} (h : root ∈ roots.listed present) :
    root.type ∈ roots.names ∧ root.type ∈ present := by
  obtain ⟨⟨word, type⟩, hmem, hlisted⟩ := List.mem_filterMap.mp h
  obtain ⟨hpresent, hlisted⟩ := Option.ite_none_right_eq_some.mp hlisted
  obtain ⟨operation, -, rfl⟩ := Option.map_eq_some_iff.mp hlisted
  exact ⟨List.mem_map.mpr ⟨_, hmem, rfl⟩, hpresent⟩

/-- A root type that is there is listed for some operation. -/
theorem Known.exists_listed (h : roots.Known) {name : Text} (hn : name ∈ roots.names)
    (hp : name ∈ present) : ∃ root ∈ roots.listed present, root.type = name := by
  obtain ⟨root, hroot, rfl⟩ := List.mem_map.mp hn
  obtain ⟨operation, hoperation⟩ := Option.isSome_iff_exists.mp (h root hroot)
  refine ⟨⟨operation, root.2⟩, List.mem_filterMap.mpr ⟨root, hroot, ?_⟩, rfl⟩
  rw [if_pos hp, hoperation]
  rfl

/-- For known operations, exactly the types that are there are listed. -/
theorem Known.operations_eq (h : roots.Known) (present : List Text) :
    roots.operations present = .ok (roots.listed present) := by
  induction roots with
  | nil => rfl
  | cons root rest ih =>
      obtain ⟨word, type⟩ := root
      -- the operation is known, whether its type is there or not
      obtain ⟨operation, hoperation⟩ :=
        Option.isSome_iff_exists.mp (h (word, type) (List.mem_cons_self ..))
      have hrest := ih fun other hother => h other (List.mem_cons_of_mem _ hother)
      rw [RootTypes.operations, hrest, hoperation]
      by_cases hp : type ∈ present
      · have hlisted : listed present ((word, type) :: rest)
            = ⟨operation, type⟩ :: listed present rest := by
          refine List.filterMap_cons_some ?_
          rw [if_pos hp, hoperation]
          rfl
        rw [if_pos (List.contains_iff_mem.mpr hp), hlisted]
        rfl
      · have hlisted : listed present ((word, type) :: rest) = listed present rest :=
          List.filterMap_cons_none (if_neg hp)
        rw [if_neg fun hc => hp (List.contains_iff_mem.mp hc), hlisted]

/-- With known operations there is always a schema declaration. -/
theorem Known.schema_eq (h : roots.Known) (entries : List (Entry Definition)) :
    roots.schema entries
      = .ok (roots.declaration ((Entry.nodes entries).filterMap Definition.name?)) := by
  rw [RootTypes.schema, h.operations_eq, declaration]
  show Except.ok (SchemaBlock.mk none [] _) = _
  simp only [List.isEmpty_iff]

/-- Of the names that are there, only the root types matter. -/
theorem declaration_congr (h : ∀ name ∈ roots.names, name ∈ present ↔ name ∈ others) :
    roots.declaration present = roots.declaration others := by
  have hlisted : roots.listed present = roots.listed others := by
    refine List.filterMap_congr fun root hroot => ?_
    simp only [h root.2 (List.mem_map.mpr ⟨root, hroot, rfl⟩)]
  rw [declaration, declaration, hlisted]

end RootTypes

/-! ## What is gathered -/

namespace Options

variable {o : Options} {definitions : List Definition} {s : Stitched}

/-- Every object type with the name of a root type is gathered. -/
theorem gathered?_of_root {d : Definition} {b : Block} (h : d.object? = some b)
    (hn : b.name ∈ o.rootTypes.names) : o.gathered? d = some b := by
  rw [gathered?, Definition.gathered?, h, Option.filter_some,
    if_pos (Bool.or_eq_true_iff.mpr (.inr (List.contains_iff_mem.mpr hn)))]

/-- A root type is gathered if it is defined at all. -/
theorem mem_names_gathered {name : Text} (hn : name ∈ o.rootTypes.names) :
    name ∈ (definitions.filterMap o.gathered?).map Block.name ↔ name ∈ objectNames definitions := by
  rw [mem_objectNames, List.mem_map]
  constructor
  · rintro ⟨b, hb, hname⟩
    obtain ⟨d, hd, hgathered⟩ := List.mem_filterMap.mp hb
    exact ⟨d, hd, b, (Option.filter_eq_some_iff.mp hgathered).1, hname⟩
  · rintro ⟨d, hd, b, hobject, rfl⟩
    exact ⟨b, List.mem_filterMap.mpr ⟨d, hd, gathered?_of_root hobject hn⟩, rfl⟩

/-- There is a group for a root type exactly if it is defined. -/
theorem mem_names_groups {name : Text} (hn : name ∈ o.rootTypes.names) :
    name ∈ (o.groups (definitions.map .node)).map Block.name ↔ name ∈ objectNames definitions := by
  rw [names_groups, List.mem_filter, mem_order, decide_eq_true_eq, mem_names_gathered hn]
  exact ⟨fun h => h.2, fun h => ⟨.inl hn, h⟩⟩

/-- There is one group for each name. -/
theorem nodup_names_groups (o : Options) (definitions : List Definition) :
    ((o.groups (definitions.map .node)).map Block.name).Nodup := by
  rw [names_groups]
  exact (nodup_order _ _).filter _

/-- The groups of root types come before all others. -/
theorem exists_root_groups (o : Options) (definitions : List Definition) :
    ∃ front behind, o.groups (definitions.map .node) = front ++ behind
      ∧ (∀ b ∈ front, b.name ∈ o.rootTypes.names) ∧ ∀ b ∈ behind, b.name ∉ o.rootTypes.names := by
  have hnames := o.names_groups definitions
  rw [Groups.order, firsts_append, List.filter_append, List.map_id, List.append_nil] at hnames
  obtain ⟨front, behind, hgroups, hfront, hbehind⟩ := List.map_eq_append_iff.mp hnames
  refine ⟨front, behind, hgroups, ?_, ?_⟩
  · intro b hb
    have hmem : b.name ∈ front.map Block.name := List.mem_map_of_mem hb
    rw [hfront] at hmem
    exact mem_firsts.mp (List.mem_of_mem_filter hmem)
  · intro b hb hroot
    have hmem : b.name ∈ behind.map Block.name := List.mem_map_of_mem hb
    rw [hbehind] at hmem
    -- names behind the root types are kept only if they are none of them
    have hkept : b.name ∈ (firsts id o.rootTypes.names
        ((definitions.filterMap o.gathered?).map Block.name)).map id := by
      rw [List.map_id]
      exact List.mem_of_mem_filter hmem
    exact (mem_map_firsts.mp hkept).2 hroot

/-- A group is printed as an object type of its name. -/
theorem exists_object_mergedDefinition {block : Block}
    (h : block ∈ o.groups (definitions.map .node)) :
    ∃ b, (o.mergedDefinition block).object? = some b ∧ b.name = block.name := by
  obtain ⟨⟨first, hfirst, hkind, -⟩, -⟩ := collects_of_mem_groups h
  obtain ⟨d, -, hd⟩ := List.mem_filterMap.mp (List.mem_of_mem_filter (List.mem_of_mem_head? hfirst))
  have hobject : (o.dedupeGroup block).kind = .object := by
    rw [kind_dedupeGroup, hkind, (Definition.gathered?_eq_some hd).2]
  refine ⟨{ o.dedupeGroup block with description := none }, ?_, o.name_dedupeGroup block⟩
  show (if (o.dedupeGroup block).kind = .object then _ else none) = _
  rw [if_pos hobject]

/-- What passes through is printed as no object type with the name of a root type. -/
theorem name_notMem_of_mem_passed {d : Definition} (h : d ∈ o.passed definitions) {b : Block}
    (hb : d.object? = some b) : b.name ∉ o.rootTypes.names := by
  obtain ⟨original, -, hpasses, rfl⟩ := mem_passed.mp h
  cases original with
  | type t =>
      cases t with
      | block original =>
          obtain ⟨hkind, hb⟩ := Option.ite_none_right_eq_some.mp hb
          obtain rfl := Option.some.inj hb
          intro hroot
          have hobject : (Definition.type (.block original)).object? = some original := if_pos hkind
          have hnone := gathered?_eq_none hpasses
          rw [gathered?_of_root hobject hroot] at hnone
          cases hnone
      | _ => cases hb
  | _ => cases hb

/-- No schema declaration passes through. -/
theorem isSchema_of_mem_passed {d : Definition} (h : d ∈ o.passed definitions) :
    d.isSchema = false := by
  obtain ⟨original, -, hpasses, rfl⟩ := mem_passed.mp h
  obtain ⟨-, hschema⟩ := Bool.and_eq_true_iff.mp hpasses
  cases original with
  | schema s => cases hschema
  | type t => cases t <;> rfl
  | _ => rfl

/-- The names of printed object types: those of the groups, then those of what passes
    through. -/
theorem objectNames_printed (h : o.stitch (definitions.map .node) = .ok s) :
    objectNames (Entry.nodes s.printed) = (o.groups (definitions.map .node)).map Block.name
      ++ objectNames (o.passed definitions) := by
  have hgroups : objectNames ((o.groups (definitions.map .node)).map o.mergedDefinition)
      = (o.groups (definitions.map .node)).map Block.name := by
    rw [objectNames, List.filterMap_map, List.map_filterMap]
    refine List.filterMap_eq_map_iff_forall_eq_some.mpr fun block hblock => ?_
    obtain ⟨b, hb, hname⟩ := exists_object_mergedDefinition hblock
    show (o.mergedDefinition block).object?.map Block.name = some block.name
    rw [hb, Option.map_some, hname]
  rw [nodes_printed h, ← hgroups, objectNames, objectNames, objectNames, ← List.map_append,
    ← List.filterMap_append]
  rfl

/-- An object type with the name of a root type is printed once: what passes through has no such
    name. -/
theorem count_objectNames_printed (h : o.stitch (definitions.map .node) = .ok s) {name : Text}
    (hroot : name ∈ o.rootTypes.names) (hpresent : name ∈ objectNames definitions) :
    (objectNames (Entry.nodes s.printed)).count name = 1 := by
  have hnone : name ∉ objectNames (o.passed definitions) := by
    intro hmem
    obtain ⟨d, hd, b, hb, rfl⟩ := mem_objectNames.mp hmem
    exact name_notMem_of_mem_passed hd hb hroot
  rw [objectNames_printed h, List.count_append, List.count_eq_zero.mpr hnone]
  exact List.count_eq_one_of_mem (o.nodup_names_groups definitions)
    ((mem_names_groups hroot).mpr hpresent)

/-- The printed definitions that are no schema declaration: the object types with the names of
    root types, which definitions have too, and behind them no other of such a name. -/
theorem exists_root_printed (h : o.stitch (definitions.map .node) = .ok s) :
    ∃ front behind, Entry.nodes s.printed = .schema s.schema :: (front ++ behind)
      ∧ (∀ d ∈ front, ∃ b, d.object? = some b ∧ b.name ∈ o.rootTypes.names
          ∧ b.name ∈ objectNames definitions)
      ∧ ∀ d ∈ behind, ∀ b, d.object? = some b → b.name ∉ o.rootTypes.names := by
  -- groups of root types stand in front; no other object type has the name of one
  obtain ⟨front, behind, hgroups, hfront, hbehind⟩ := o.exists_root_groups definitions
  have hobject (block : Block) (hblock : block ∈ front ++ behind) :
      ∃ b, (o.mergedDefinition block).object? = some b ∧ b.name = block.name :=
    exists_object_mergedDefinition (hgroups ▸ hblock)
  refine ⟨front.map o.mergedDefinition, behind.map o.mergedDefinition ++ o.passed definitions,
    ?_, ?_, ?_⟩
  · rw [nodes_printed h, hgroups, List.map_append, List.append_assoc]
  · intro d hd
    obtain ⟨block, hblock, rfl⟩ := List.mem_map.mp hd
    have hmem : block ∈ front ++ behind := List.mem_append_left _ hblock
    obtain ⟨b, hb, hname⟩ := hobject block hmem
    have hroot := hfront block hblock
    refine ⟨b, hb, hname ▸ hroot, ?_⟩
    rw [hname, ← mem_names_groups hroot, hgroups]
    exact List.mem_map_of_mem hmem
  · intro d hd b hb
    rcases List.mem_append.mp hd with hd | hd
    · obtain ⟨block, hblock, rfl⟩ := List.mem_map.mp hd
      obtain ⟨same, hsame, hname⟩ := hobject block (List.mem_append_right _ hblock)
      obtain rfl := Option.some.inj (hb.symm.trans hsame)
      exact hname ▸ hbehind block hblock
    · exact name_notMem_of_mem_passed hd hb

end Options

/-! ## What is printed -/

/-- A printed result with one schema declaration that fits the types around it. -/
structure Stitched.Declares (s : Stitched) (roots : RootTypes) (definitions : List Definition) :
    Prop where
  /-- What is printed is a sequence of entries. -/
  printed : s.print = printEntries s.printed
  /-- It starts with the schema declaration, and no other one is in it. -/
  starts : ∃ rest, s.printed = .node (.schema s.schema) :: rest
    ∧ ∀ d ∈ Entry.nodes rest, d.isSchema = false
  /-- The declaration lists the root types that are object types of definitions, or the query
      operation alone. -/
  lists : s.schema = roots.declaration (objectNames definitions)
  /-- A type that is listed because it is there is defined once, -/
  once : ∀ root ∈ roots.listed (objectNames definitions),
    (objectNames (Entry.nodes s.printed)).count root.type = 1
  /-- and before all other definitions. -/
  ahead : ∃ front behind, Entry.nodes s.printed = .schema s.schema :: (front ++ behind)
    ∧ (∀ d ∈ front, ∃ b, d.object? = some b
        ∧ ∃ root ∈ roots.listed (objectNames definitions), root.type = b.name)
    ∧ ∀ d ∈ behind, ∀ b, d.object? = some b →
        ∀ root ∈ roots.listed (objectNames definitions), root.type ≠ b.name

namespace Options

variable {o : Options} {definitions : List Definition} {s : Stitched}

/-- The schema declaration lists the root types among the definitions. -/
theorem schema_stitch (ho : o.rootTypes.Known) (h : o.stitch (definitions.map .node) = .ok s) :
    s.schema = o.rootTypes.declaration (objectNames definitions) := by
  obtain ⟨hschema, -, -⟩ := stitch_eq_ok h
  have hnames : (Entry.nodes (o.merged (definitions.map .node))).filterMap Definition.name?
      = (o.groups (definitions.map .node)).map Block.name := by
    have hsome := o.names_merged (definitions.map .node)
    calc (Entry.nodes (o.merged (definitions.map .node))).filterMap Definition.name?
        = ((Entry.nodes (o.merged (definitions.map .node))).map Definition.name?).filterMap id := by
          rw [List.filterMap_map]
          rfl
      _ = (o.groups (definitions.map .node)).map Block.name := by
          rw [hsome, List.filterMap_map]
          exact List.filterMap_some
  rw [ho.schema_eq, hnames] at hschema
  rw [← Except.ok.inj hschema]
  exact RootTypes.declaration_congr fun name hname => mem_names_groups hname

theorem declares_stitch (ho : o.rootTypes.Known) (h : o.stitch (definitions.map .node) = .ok s) :
    s.Declares o.rootTypes definitions where
  printed := print_stitch h
  starts := by
    refine ⟨_, rfl, fun d hd => ?_⟩
    have hall : d ∈ (o.groups (definitions.map .node)).map o.mergedDefinition
        ++ o.passed definitions := by
      rw [← (List.cons.inj (nodes_printed h)).2]
      exact hd
    rcases List.mem_append.mp hall with hd | hd
    · obtain ⟨block, -, rfl⟩ := List.mem_map.mp hd
      rfl
    · exact isSchema_of_mem_passed hd
  lists := schema_stitch ho h
  once := by
    intro root hroot
    obtain ⟨hname, hpresent⟩ := RootTypes.type_mem_of_listed hroot
    exact count_objectNames_printed h hname hpresent
  ahead := by
    obtain ⟨front, behind, hprinted, hfront, hbehind⟩ := exists_root_printed h
    refine ⟨front, behind, hprinted, ?_, ?_⟩
    · intro d hd
      obtain ⟨b, hb, hroot, hpresent⟩ := hfront d hd
      exact ⟨b, hb, ho.exists_listed hroot hpresent⟩
    · intro d hd b hb root hlisted heq
      exact hbehind d hd b hb (heq ▸ (RootTypes.type_mem_of_listed hlisted).1)

/-- With known operations, stitching succeeds. -/
theorem exists_stitch (ho : o.rootTypes.Known) (definitions : List Definition) :
    ∃ s, o.stitch (definitions.map .node) = .ok s :=
  exists_stitch_entries ho (definitions.map .node)

/-- What definitions are stitched into starts with its only schema declaration, which lists
    exactly the root types that are there.  Neither the order of the definitions nor schema
    declarations among them nor the other options change it. -/
theorem stitch_declares (ho : o.rootTypes.Known) (definitions : List Definition) :
    ∃ s, o.stitch (definitions.map .node) = .ok s ∧ s.Declares o.rootTypes definitions
      ∧ ∀ (other : Options) (others : List Definition), other.rootTypes = o.rootTypes →
        (others.filter fun d => !d.isSchema).Perm (definitions.filter fun d => !d.isSchema) →
          ∃ t, other.stitch (others.map .node) = .ok t ∧ t.schema = s.schema := by
  obtain ⟨s, hs⟩ := exists_stitch ho definitions
  refine ⟨s, hs, declares_stitch ho hs, ?_⟩
  intro other others hroots hperm
  have hknown : other.rootTypes.Known := hroots ▸ ho
  obtain ⟨t, ht⟩ := exists_stitch hknown others
  refine ⟨t, ht, ?_⟩
  rw [schema_stitch hknown ht, schema_stitch ho hs, hroots]
  exact RootTypes.declaration_congr fun name _ => mem_objectNames_congr hperm name

end Options

/-- Two operations have one type and no type is given for queries.  One text holds a schema
    declaration and two types of this name. -/
theorem stitch_declares_shared :
    let roots : RootTypes := [("mutation", "M"), ("subscription", "M")]
    let definitions := definitionsOf "schema {query: Q} type A type M type M"
    roots.Known
      ∧ ∃ s, ({ rootTypes := roots } : Options).stitch (definitions.map .node) = .ok s
        ∧ s.Declares roots definitions
        ∧ s.schema.operations = [⟨.mutation, "M"⟩, ⟨.subscription, "M"⟩] := by
  intro roots definitions
  have hknown : roots.Known := by
    rw [RootTypes.Known]
    decide +zetaReduce
  obtain ⟨s, hs, hdeclares, -⟩ := Options.stitch_declares (o := { rootTypes := roots }) hknown
    definitions
  refine ⟨hknown, s, hs, hdeclares, ?_⟩
  rw [hdeclares.lists]
  decide +kernel +zetaReduce

end SchemaStitch
