import Mathlib.Data.List.Perm.Basic
import Mathlib.Data.Option.Basic
import SchemaStitch.Proofs.Declared
import SchemaStitch.Proofs.Sources

/-! # Sources in another order

    Stitching goes over the sources in order: the first type of a name opens its group, and the
    members of later ones go behind.  In another order the same sources yield the same things in
    another order.  Which names are gathered and what belongs to a name does not depend on it, so
    the groups have the same names and hold the same members (`Options.names_groups_perm`,
    `Block.Collects.perm`); a repeated member may be dropped at another place, but it says what the
    one that stays says (`Member.SameButOrder.dedupe`).  The groups of root types do not even change
    places (`Options.root_names_groups`). -/

namespace SchemaStitch

open SchemaStitch.Groups

/-! ## Reading in another order -/

/-- Sources in another order are read as documents in another order. -/
theorem Source.readAll_perm {sources others : List Source} {documents : List Document}
    (hp : others.Perm sources) (h : readAll sources = .ok documents) :
    ∃ moved, readAll others = .ok moved ∧ moved.Perm documents := by
  obtain ⟨moved, hmoved, hperm⟩ := List.perm_comp_forall₂ hp (readAll_eq_ok.mp h)
  exact ⟨moved, readAll_eq_ok.mpr hmoved, hperm⟩

theorem Entry.nodes_perm {α : Type} {entries others : List (Entry α)} (h : others.Perm entries) :
    (nodes others).Perm (nodes entries) :=
  h.filterMap node?

/-! ## Members in another order -/

/-- Entries with the same members in another order.  Where repeated members are dropped, what the
    members say is the same, and each of them says it alone. -/
structure Member.SameButOrder (dropped : Bool) (entries others : List (Entry Member)) : Prop where
  members : dropped = false → (Entry.nodes others).Perm (Entry.nodes entries)
  keys : dropped = true →
    ∀ k, k ∈ (Entry.nodes others).map Member.key ↔ k ∈ (Entry.nodes entries).map Member.key
  nodup : dropped = true → ((Entry.nodes entries).map Member.key).Nodup
    ∧ ((Entry.nodes others).map Member.key).Nodup

/-- Repeated members may be dropped after their order has changed. -/
theorem Member.SameButOrder.dedupe {entries others : List (Entry Member)}
    (h : (Entry.nodes others).Perm (Entry.nodes entries)) :
    Member.SameButOrder true (Member.dedupe entries) (Member.dedupe others) where
  members := fun hfalse => Bool.noConfusion hfalse
  keys := by
    intro _ k
    rw [nodes_dedupe, nodes_dedupe, mem_map_firsts, mem_map_firsts, (h.map key).mem_iff]
  nodup := by
    intro _
    rw [nodes_dedupe, nodes_dedupe]
    exact ⟨nodup_map_firsts, nodup_map_firsts⟩

/-- A group that is gathered from the same types in another order holds the same members. -/
theorem Block.Collects.perm {group other : Block} {parts moved : List Block}
    (h : group.Collects parts) (ho : other.Collects moved) (hp : moved.Perm parts) :
    (Entry.nodes other.members).Perm (Entry.nodes group.members) := by
  rw [h.members, ho.members]
  exact (hp.flatMap_right fun block => Entry.nodes block.members).map Member.withoutDescription

/-! ## Groups in another order -/

namespace Options

variable {o : Options} {definitions others : List Definition} {group : Block} {name : Text}

/-- Comments among the definitions take no part in gathering. -/
theorem groups_nodes (o : Options) (entries : List (Entry Definition)) :
    o.groups ((Entry.nodes entries).map .node) = o.groups entries := by
  rw [groups, contributions_map_node]
  rfl

/-- In another order, the same types are gathered. -/
theorem gathered_perm (hp : others.Perm definitions) :
    (others.filterMap o.gathered?).Perm (definitions.filterMap o.gathered?) :=
  hp.filterMap o.gathered?

/-- There is a group for each name of a gathered type. -/
theorem mem_names_groups_iff :
    name ∈ (o.groups (definitions.map .node)).map Block.name
      ↔ name ∈ (definitions.filterMap o.gathered?).map Block.name := by
  rw [names_groups, List.mem_filter, mem_order, decide_eq_true_eq]
  constructor
  · rintro ⟨-, hname⟩
    exact hname
  · intro hname
    exact ⟨.inr hname, hname⟩

/-- In another order, groups have the same names. -/
theorem names_groups_perm (hp : others.Perm definitions) :
    ((o.groups (others.map .node)).map Block.name).Perm
      ((o.groups (definitions.map .node)).map Block.name) := by
  refine (List.perm_ext_iff_of_nodup (o.nodup_names_groups others)
    (o.nodup_names_groups definitions)).mpr fun name => ?_
  rw [mem_names_groups_iff, mem_names_groups_iff]
  exact ((gathered_perm hp).map Block.name).mem_iff

/-- The groups of root types stand in the order of the options. -/
theorem root_names_groups (o : Options) (definitions : List Definition) :
    ((o.groups (definitions.map .node)).map Block.name).filter (fun name => name ∈ o.rootTypes.names)
      = (firsts id [] o.rootTypes.names).filter fun name =>
          name ∈ (definitions.filterMap o.gathered?).map Block.name := by
  -- names behind the root types are those that are none of them
  have hbehind : ((firsts id o.rootTypes.names ((definitions.filterMap o.gathered?).map
      Block.name)).filter fun name => name ∈ o.rootTypes.names) = [] := by
    rw [List.filter_eq_nil_iff]
    intro name hname hroot
    have hkept : name ∈ (firsts id o.rootTypes.names ((definitions.filterMap o.gathered?).map
        Block.name)).map id := by
      rwa [List.map_id]
    exact (mem_map_firsts.mp hkept).2 (of_decide_eq_true hroot)
  have hroots : (firsts id [] o.rootTypes.names).filter (fun name => name ∈ o.rootTypes.names)
      = firsts id [] o.rootTypes.names :=
    List.filter_eq_self.mpr fun name hname => decide_eq_true (mem_firsts.mp hname)
  rw [names_groups, Groups.order, firsts_append, List.map_id, List.append_nil, List.filter_comm,
    List.filter_append, hbehind, hroots, List.append_nil]

/-- The groups of root types keep their order, whatever the order of sources. -/
theorem root_names_groups_perm (hp : others.Perm definitions) :
    ((o.groups (others.map .node)).map Block.name).filter (fun name => name ∈ o.rootTypes.names)
      = ((o.groups (definitions.map .node)).map Block.name).filter
          fun name => name ∈ o.rootTypes.names := by
  rw [root_names_groups, root_names_groups]
  refine List.filter_congr fun name _ => decide_eq_decide.mpr ?_
  exact ((gathered_perm hp).map Block.name).mem_iff

/-- To a group belongs a group of its name that holds the same members. -/
theorem exists_group_perm (hp : others.Perm definitions)
    (h : group ∈ o.groups (definitions.map .node)) :
    ∃ other ∈ o.groups (others.map .node), other.name = group.name
      ∧ Member.SameButOrder o.dedupe (o.dedupeGroup group).members
          (o.dedupeGroup other).members := by
  have hname : group.name ∈ (o.groups (others.map .node)).map Block.name :=
    (names_groups_perm hp).mem_iff.mpr (List.mem_map_of_mem h)
  obtain ⟨other, hother, heq⟩ := List.mem_map.mp hname
  refine ⟨other, hother, heq, ?_⟩
  -- both groups are gathered from the same types of this name
  have hparts := (gathered_perm (o := o) hp).filter fun b => b.name = group.name
  have hcollects := collects_of_mem_groups hother
  rw [heq] at hcollects
  have hmembers := (collects_of_mem_groups h).perm hcollects hparts
  by_cases hd : o.dedupe = true
  · rw [dedupeGroup, dedupeGroup, if_pos hd, if_pos hd, hd]
    exact .dedupe hmembers
  · rw [dedupeGroup, dedupeGroup, if_neg hd, if_neg hd]
    exact ⟨fun _ => hmembers, fun hdropped => absurd hdropped hd,
      fun hdropped => absurd hdropped hd⟩

end Options

/-! ## Results in another order -/

/-- Results with the same definitions in another order. -/
structure Options.SameButOrder (o : Options) (s t : Stitched) : Prop where
  /-- The groups have the same names, each name once. -/
  names : t.mergedNames.Perm s.mergedNames
  nodup : s.mergedNames.Nodup
  /-- The groups of root types are in the same order. -/
  roots : (t.mergedNames.filter fun name => name ∈ o.rootTypes.names.map some)
    = s.mergedNames.filter fun name => name ∈ o.rootTypes.names.map some
  /-- Groups of one name have the same members. -/
  groups : ∀ d ∈ Entry.nodes s.merged, ∃ block other, d = .type (.block block)
    ∧ .type (.block other) ∈ Entry.nodes t.merged ∧ other.name = block.name
    ∧ Member.SameButOrder o.dedupe block.members other.members
  /-- The same passes through. -/
  rest : t.rest.Perm s.rest

namespace Options

variable {o : Options} {entries others : List (Entry Definition)} {s t : Stitched}

/-- The merged names are those of the groups. -/
theorem mergedNames_stitch (hs : o.stitch entries = .ok s) :
    s.mergedNames = ((o.groups ((Entry.nodes entries).map .node)).map Block.name).map some := by
  obtain ⟨-, hmerged, -⟩ := stitch_eq_ok hs
  rw [Stitched.mergedNames, hmerged, names_merged, groups_nodes]

theorem nodes_merged_stitch (hs : o.stitch entries = .ok s) :
    Entry.nodes s.merged
      = (o.groups ((Entry.nodes entries).map .node)).map o.mergedDefinition := by
  obtain ⟨-, hmerged, -⟩ := stitch_eq_ok hs
  rw [hmerged, nodes_merged, groups_nodes]

/-- The names of root types among the names of groups. -/
theorem filter_map_some (names roots : List Text) :
    ((names.map some).filter fun name => name ∈ roots.map some)
      = (names.filter fun name => name ∈ roots).map some := by
  rw [List.filter_map]
  refine congrArg (List.map some) (List.filter_congr fun name _ => decide_eq_decide.mpr ?_)
  exact List.mem_map_of_injective (Option.some_injective Text)

/-- What is stitched from entries in another order is the same but for that. -/
theorem sameButOrder_stitch (hp : others.Perm entries) (hs : o.stitch entries = .ok s)
    (ht : o.stitch others = .ok t) : o.SameButOrder s t where
  names := by
    rw [mergedNames_stitch hs, mergedNames_stitch ht]
    exact (names_groups_perm (Entry.nodes_perm hp)).map some
  nodup := by
    rw [mergedNames_stitch hs]
    exact (o.nodup_names_groups _).map (Option.some_injective Text)
  roots := by
    rw [mergedNames_stitch hs, mergedNames_stitch ht, filter_map_some, filter_map_some,
      root_names_groups_perm (Entry.nodes_perm hp)]
  groups := by
    intro d hd
    rw [nodes_merged_stitch hs] at hd
    obtain ⟨group, hgroup, rfl⟩ := List.mem_map.mp hd
    -- a group and the group of its name in the other order have the same members but for order
    obtain ⟨other, hother, hname, hsame⟩ := exists_group_perm (Entry.nodes_perm hp) hgroup
    refine ⟨{ o.dedupeGroup group with description := none },
      { o.dedupeGroup other with description := none }, rfl, ?_, ?_, hsame⟩
    · rw [nodes_merged_stitch ht]
      exact List.mem_map_of_mem hother
    · show (o.dedupeGroup other).name = (o.dedupeGroup group).name
      rw [name_dedupeGroup, name_dedupeGroup, hname]
  rest := by
    obtain ⟨-, -, hrest⟩ := stitch_eq_ok hs
    obtain ⟨-, -, hrest'⟩ := stitch_eq_ok ht
    rw [hrest, hrest']
    exact (hp.filter o.passes).map _

/-- In another order, sources that can all be read are stitched into the same groups with the same
    members, and the same passes through.  Groups of root types keep their places. -/
theorem stitchSources_perm {sources moved : List Source} (ho : o.rootTypes.Known)
    (h : ∀ source ∈ sources, ∃ document, source.read = .ok document)
    (hp : moved.Perm sources) :
    ∃ (s t : Stitched) (texts others : List Text),
      o.stitchSources sources = .ok (s, texts) ∧ o.stitchSources moved = .ok (t, others)
        ∧ o.SameButOrder s t := by
  obtain ⟨documents, hdocuments⟩ := Source.exists_readAll h
  obtain ⟨shuffled, hshuffled, hperm⟩ := Source.readAll_perm hp hdocuments
  obtain ⟨s, hs, hstitched⟩ := exists_stitchSources ho hdocuments
  obtain ⟨t, ht, hreordered⟩ := exists_stitchSources ho hshuffled
  have hentries : (Document.concat shuffled).entries.Perm (Document.concat documents).entries :=
    hperm.flatMap_right Document.entries
  exact ⟨s, t, _, _, hstitched, hreordered, sameButOrder_stitch hentries hs ht⟩

end Options

/-- Two texts that have a field in common, in either order. -/
theorem stitchSources_perm_overlapping :
    let o : Options := { dedupe := true }
    let first : Source := .text "type Query {a: Int b: Int} scalar S"
    let second : Source := .text "type Query {b: Int a: Int!}"
    RootTypes.default.Known
      ∧ (∀ source ∈ [first, second], ∃ document, source.read = .ok document)
      ∧ List.Perm [second, first] [first, second]
      ∧ ∃ (s t : Stitched) (texts others : List Text),
        o.stitchSources [first, second] = .ok (s, texts)
          ∧ o.stitchSources [second, first] = .ok (t, others) ∧ o.SameButOrder s t := by
  intro o first second
  have hread : ∀ source ∈ [first, second], ∃ document, source.read = .ok document := by
    have hfirst : (Document.parse "type Query {a: Int b: Int} scalar S").isOk = true := by
      decide +kernel
    have hsecond : (Document.parse "type Query {b: Int a: Int!}").isOk = true := by
      decide +kernel
    obtain ⟨document, -, hfirst⟩ := Source.exists_read_text hfirst
    obtain ⟨other, -, hsecond⟩ := Source.exists_read_text hsecond
    exact List.forall_mem_cons.mpr
      ⟨⟨document, hfirst⟩, List.forall_mem_singleton.mpr ⟨other, hsecond⟩⟩
  have hswap : List.Perm [second, first] [first, second] := .swap ..
  exact ⟨RootTypes.known_default, hread, hswap,
    Options.stitchSources_perm (o := o) RootTypes.known_default hread hswap⟩

end SchemaStitch
