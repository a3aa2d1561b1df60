import Mathlib.Tactic.Choose
import SchemaStitch.Proofs.Contents
import SchemaStitch.Proofs.RoundTrip

/-! # Stitching step by step

    Texts may be stitched together in portions, and the results again.  Members are dropped
    from a portion only if they come again there, a group keeps the place and the heading of
    its first type, and the schema declarations of the portions are dropped, so the bare
    result is the one of stitching all texts at once (`Options.stitchBare_results`).  The
    results are read back as what they were printed from, so the texts agree, too, but for
    comments (`Options.stitchText_portions`). -/

namespace SchemaStitch

open SchemaStitch.Parser SchemaStitch.Groups

/-- A type without comments among its members. -/
def Block.Plain (block : Block) : Prop :=
  block.members = (Entry.nodes block.members).map .node

/-- The members of several types. -/
def memberNodes (blocks : List Block) : List Member :=
  blocks.flatMap fun block => Entry.nodes block.members

/-- Plain types hold their members and nothing else. -/
theorem flatMap_members {blocks : List Block} (h : ∀ b ∈ blocks, b.Plain) :
    blocks.flatMap Block.members = (memberNodes blocks).map .node := by
  rw [memberNodes, List.map_flatMap]
  exact List.flatMap_congr h

/-- Types combined into one have the members of all. -/
theorem members_combined {blocks : List Block} {block : Block} (h : ∀ b ∈ blocks, b.Plain)
    (hc : combined blocks = some block) : block.members = (memberNodes blocks).map .node := by
  cases blocks with
  | nil => cases hc
  | cons first rest =>
      obtain rfl := Option.some.inj hc
      exact flatMap_members h

namespace Options

variable {o : Options} {block : Block} {blocks : List Block}

/-! ## Members -/

/-- Members without those that come again, if the options ask for it. -/
def distinct (o : Options) (members : List Member) : List Member :=
  if o.dedupe then firsts Member.key [] members else members

/-- Dropping repeats in parts first makes no difference. -/
theorem distinct_flatMap (o : Options) (parts : List (List Member)) :
    o.distinct (parts.flatMap o.distinct) = o.distinct parts.flatten := by
  by_cases hd : o.dedupe = true
  · have hdistinct : o.distinct = firsts Member.key [] := funext fun members => if_pos hd
    rw [hdistinct, firsts_flatMap_firsts]
  · have hdistinct : o.distinct = id := funext fun members => if_neg hd
    rw [hdistinct, List.flatMap_id]

/-- Dropping repeats in a type keeps its distinct members. -/
theorem dedupeGroup_eq (o : Options) {members : List Member}
    (h : block.members = members.map .node) :
    o.dedupeGroup block = { block with members := (o.distinct members).map .node } := by
  rw [dedupeGroup, distinct]
  split
  · rw [h, Member.dedupe_map_node]
  · rw [← h]

/-- A portion that is stitched alone has the distinct members of its types. -/
theorem members_portion (o : Options) {portion : List Block} (h : ∀ b ∈ portion, b.Plain) :
    ((combined portion).map o.dedupeGroup).toList.flatMap Block.members
      = (o.distinct (memberNodes portion)).map .node := by
  cases hc : combined portion with
  | none =>
      rw [combined_eq_none.mp hc, memberNodes, List.flatMap_nil, distinct, firsts, ite_self]
      rfl
  | some block =>
      rw [Option.map_some, o.dedupeGroup_eq (members_combined h hc), Option.toList_some,
        List.flatMap_singleton]

/-- Portions that are stitched each on its own have the distinct members of each portion. -/
theorem members_portions (o : Options) {portions : List (List Block)}
    (h : ∀ portion ∈ portions, ∀ b ∈ portion, b.Plain) :
    (portions.flatMap fun portion => ((combined portion).map o.dedupeGroup).toList).flatMap
        Block.members
      = (portions.flatMap fun portion => o.distinct (memberNodes portion)).map .node := by
  rw [List.flatMap_assoc, List.map_flatMap]
  exact List.flatMap_congr fun portion hp => o.members_portion (h portion hp)

/-- The distinct members of stitched portions are the distinct members of all. -/
theorem distinct_portions (o : Options) (portions : List (List Block)) :
    o.distinct (portions.flatMap fun portion => o.distinct (memberNodes portion))
      = o.distinct (memberNodes portions.flatten) := by
  have hall : memberNodes portions.flatten = (portions.map memberNodes).flatten := by
    rw [← List.flatMap_id, memberNodes, List.flatMap_assoc, List.flatMap_def]
    rfl
  rw [hall, ← distinct_flatMap, List.flatMap_map]

/-- The groups of a name in all portions make the group of that name. -/
theorem combined_portions (o : Options) {portions : List (List Block)}
    (h : ∀ portion ∈ portions, ∀ b ∈ portion, b.Plain) :
    (combined (portions.flatMap fun portion =>
        ((combined portion).map o.dedupeGroup).toList)).map o.dedupeGroup
      = (combined portions.flatten).map o.dedupeGroup := by
  induction portions with
  | nil => rfl
  | cons portion rest ih =>
      have hrest : ∀ portion ∈ rest, ∀ b ∈ portion, b.Plain :=
        fun other hother => h other (List.mem_cons_of_mem _ hother)
      cases portion with
      | nil => exact ih hrest
      | cons first others =>
          -- the heading is the one of the first type on both sides
          have hmembers := o.members_portions h
          have hplain : ∀ b ∈ ((first :: others) :: rest).flatten, b.Plain := by
            intro b hb
            obtain ⟨portion, hportion, hb⟩ := List.mem_flatten.mp hb
            exact h portion hportion b hb
          have hgroup := o.dedupeGroup_eq
            (members_combined (h _ (List.mem_cons_self ..)) (rfl : combined (first :: others) = _))
          rw [List.flatMap_cons] at hmembers ⊢
          rw [show combined (first :: others) = some _ from rfl, Option.map_some, hgroup] at hmembers ⊢
          show some (o.dedupeGroup _) = some (o.dedupeGroup _)
          rw [o.dedupeGroup_eq hmembers, o.dedupeGroup_eq (flatMap_members hplain),
            distinct_portions]

/-! ## Names and their groups -/

/-- The group of a name among gathered types. -/
def groupOf (o : Options) (blocks : List Block) (name : Text) : Option Block :=
  (combined (blocks.filter fun b => b.name = name)).map o.dedupeGroup

/-- Stitching makes one group for each name, in the order of names. -/
theorem stitchBlocks_eq (o : Options) (blocks : List Block) :
    o.stitchBlocks blocks = (order o.rootTypes.names blocks).filterMap (o.groupOf blocks) := by
  rw [stitchBlocks, blocks_gather, List.map_filterMap]
  rfl

/-- A group keeps its name without its repeats. -/
theorem name_dedupeGroup (o : Options) (block : Block) :
    (o.dedupeGroup block).name = block.name := by
  rw [dedupeGroup]
  split <;> rfl

/-- The group for a name has that name. -/
theorem name_groupOf {name : Text} (h : o.groupOf blocks name = some block) :
    block.name = name := by
  obtain ⟨group, hgroup, rfl⟩ := Option.map_eq_some_iff.mp h
  rw [name_dedupeGroup]
  exact name_of_combined (fun b hb => of_decide_eq_true (List.mem_filter.mp hb).2) hgroup

/-- There is no group for a name that no type has. -/
theorem groupOf_eq_none {name : Text} :
    o.groupOf blocks name = none ↔ name ∉ blocks.map Block.name := by
  rw [groupOf, Option.map_eq_none_iff, combined_eq_none, List.filter_eq_nil_iff, List.mem_map]
  constructor
  · rintro h ⟨b, hb, rfl⟩
    exact h b hb (decide_eq_true rfl)
  · intro h b hb hname
    exact h ⟨b, hb, of_decide_eq_true hname⟩

/-- Where each name has one place, one group is that of a given name. -/
theorem filter_filterMap_groupOf {names : List Text} (hn : names.Nodup) {name : Text}
    (h : o.groupOf blocks name ≠ none → name ∈ names) :
    (names.filterMap (o.groupOf blocks)).filter (fun b => b.name = name)
      = (o.groupOf blocks name).toList := by
  have hother : ∀ others : List Text, name ∉ others →
      (others.filterMap (o.groupOf blocks)).filter (fun b => b.name = name) = [] := by
    intro others hothers
    rw [List.filter_eq_nil_iff]
    intro b hb hname
    obtain ⟨other, hmem, hgroup⟩ := List.mem_filterMap.mp hb
    rw [← of_decide_eq_true hname, name_groupOf hgroup] at hothers
    exact hothers hmem
  -- the name has one place, so no group before or behind it has this name
  by_cases hmem : name ∈ names
  · obtain ⟨before, behind, rfl⟩ := List.append_of_mem hmem
    obtain ⟨-, hnodup, hdisjoint⟩ := List.nodup_append.mp hn
    have hbefore : name ∉ before := fun hb => hdisjoint name hb name (List.mem_cons_self ..) rfl
    rw [List.filterMap_append, List.filter_append, hother before hbefore, List.nil_append]
    cases hgroup : o.groupOf blocks name with
    | none =>
        rw [List.filterMap_cons_none hgroup, hother behind (List.nodup_cons.mp hnodup).1]
        rfl
    | some block =>
        have hone : [block].filter (fun b => b.name = name) = [block] := by
          simp [name_groupOf hgroup]
        rw [List.filterMap_cons_some hgroup, ← List.singleton_append, List.filter_append, hone,
          hother behind (List.nodup_cons.mp hnodup).1]
        rfl
  · rw [hother names hmem, not_ne_iff.mp fun hne => hmem (h hne)]
    rfl

theorem nodup_order (names : List Text) (blocks : List Block) : (order names blocks).Nodup :=
  nodup_firsts

/-- The order lists the root types and the names that types have. -/
theorem mem_order {names : List Text} {name : Text} :
    name ∈ order names blocks ↔ name ∈ names ∨ name ∈ blocks.map Block.name := by
  rw [order, mem_firsts, List.mem_append]

/-- Among stitched types there is one of a name, if any. -/
theorem filter_stitchBlocks (o : Options) (blocks : List Block) (name : Text) :
    (o.stitchBlocks blocks).filter (fun b => b.name = name) = (o.groupOf blocks name).toList := by
  rw [stitchBlocks_eq]
  refine filter_filterMap_groupOf (nodup_order _ _) fun hne => mem_order.mpr (.inr ?_)
  by_contra hmem
  exact hne (groupOf_eq_none.mpr hmem)

/-- The names of gathered types: those of the order that a type has. -/
theorem names_stitchBlocks (o : Options) (blocks : List Block) :
    (o.stitchBlocks blocks).map Block.name
      = (order o.rootTypes.names blocks).filter fun name => name ∈ blocks.map Block.name := by
  rw [stitchBlocks_eq, List.map_filterMap, ← List.filterMap_eq_filter]
  refine List.filterMap_congr fun name _ => ?_
  cases hgroup : o.groupOf blocks name with
  | none =>
      rw [Option.guard, if_neg (by simpa using groupOf_eq_none.mp hgroup)]
      rfl
  | some block =>
      have hmem : name ∈ blocks.map Block.name := by
        by_contra hmem
        rw [groupOf_eq_none.mpr hmem] at hgroup
        cases hgroup
      rw [Option.guard, if_pos (by simpa using hmem), Option.map_some, name_groupOf hgroup]

/-- Behind the names with a place, the names of a portion come first where they come first in
    its groups. -/
theorem firsts_names_stitchBlocks (o : Options) (blocks : List Block) {seen : List Text}
    (hs : ∀ name ∈ o.rootTypes.names, name ∈ seen) :
    firsts id seen ((o.stitchBlocks blocks).map Block.name)
      = firsts id seen (blocks.map Block.name) := by
  have hall : (firsts id (o.rootTypes.names.map id ++ []) (blocks.map Block.name)).filter
      (fun name => name ∈ blocks.map Block.name)
      = firsts id (o.rootTypes.names.map id ++ []) (blocks.map Block.name) :=
    List.filter_eq_self.mpr fun name hname => decide_eq_true (mem_of_mem_firsts hname)
  have hroots : ∀ name ∈ (firsts id [] o.rootTypes.names).filter
      (fun name => name ∈ blocks.map Block.name), id name ∈ seen :=
    fun name hname => hs name (mem_of_mem_firsts (List.mem_of_mem_filter hname))
  have hseen : ∀ name ∈ o.rootTypes.names.map id ++ [], name ∈ seen := by
    intro name hname
    rw [List.map_id, List.append_nil] at hname
    exact hs name hname
  -- names with a place of their own drop out, and the others stand as they first came
  rw [names_stitchBlocks, order, firsts_append, List.filter_append, hall, firsts_append,
    firsts_eq_nil hroots, List.nil_append,
    firsts_firsts fun name hname => List.mem_append_right _ (hseen name hname)]
  refine firsts_congr fun name => ?_
  rw [List.mem_append]
  constructor
  · rintro (hmem | hmem)
    · rw [List.map_id] at hmem
      exact hroots name hmem
    · exact hmem
  · exact .inr

/-- The groups of portions and the types themselves come in one order. -/
theorem firsts_names_portions (o : Options) (portions : List (List Block)) {seen : List Text}
    (hs : ∀ name ∈ o.rootTypes.names, name ∈ seen) :
    firsts id seen ((portions.flatMap o.stitchBlocks).map Block.name)
      = firsts id seen (portions.flatten.map Block.name) := by
  induction portions generalizing seen with
  | nil => rfl
  | cons portion rest ih =>
      rw [List.flatMap_cons, List.flatten_cons, List.map_append, List.map_append, firsts_append,
        firsts_append, firsts_names_stitchBlocks o portion hs,
        ih fun name hname => List.mem_append_right _ (hs name hname)]
      refine congrArg _ (firsts_congr fun name => ?_)
      rw [List.map_id, List.map_id, List.mem_append, List.mem_append, names_stitchBlocks,
        List.mem_filter, mem_order, decide_eq_true_eq]
      constructor
      · rintro (⟨-, hmem⟩ | hmem)
        · exact .inl hmem
        · exact .inr hmem
      · rintro (hmem | hmem)
        · exact .inl ⟨.inr hmem, hmem⟩
        · exact .inr hmem

/-- Gathering the groups of portions is gathering the types themselves. -/
theorem stitchBlocks_portions (o : Options) {portions : List (List Block)}
    (h : ∀ portion ∈ portions, ∀ b ∈ portion, b.Plain) :
    o.stitchBlocks (portions.flatMap o.stitchBlocks) = o.stitchBlocks portions.flatten := by
  have horder : order o.rootTypes.names (portions.flatMap o.stitchBlocks)
      = order o.rootTypes.names portions.flatten := by
    rw [order, order, firsts_append, firsts_append, firsts_names_portions]
    intro name hname
    rw [List.map_id, List.append_nil]
    exact hname
  rw [stitchBlocks_eq, stitchBlocks_eq o portions.flatten, horder]
  refine List.filterMap_congr fun name _ => ?_
  -- what all portions have of one name is the row of the groups of that name
  have hname : (portions.flatMap o.stitchBlocks).filter (fun b => b.name = name)
      = (portions.map fun portion => portion.filter fun b => b.name = name).flatMap
          fun portion => ((combined portion).map o.dedupeGroup).toList := by
    rw [List.filter_flatMap, List.flatMap_map]
    exact List.flatMap_congr fun portion _ => o.filter_stitchBlocks portion name
  have hplain : ∀ portion ∈ portions.map fun portion => portion.filter fun b => b.name = name,
      ∀ b ∈ portion, b.Plain := by
    intro portion hportion b hb
    obtain ⟨original, horiginal, rfl⟩ := List.mem_map.mp hportion
    exact h original horiginal b (List.mem_of_mem_filter hb)
  rw [groupOf, hname, o.combined_portions hplain, groupOf, List.filter_flatten]

/-! ## Portions of definitions -/

theorem kind_dedupeGroup (o : Options) (block : Block) :
    (o.dedupeGroup block).kind = block.kind := by
  rw [dedupeGroup]
  split <;> rfl

/-- An object type is gathered if all are, or if it is a root type. -/
theorem gathered?_object (hk : block.kind = .object)
    (hn : (o.mergeAll || o.rootTypes.names.contains block.name) = true) :
    o.gathered? (.type (.block block)) = some block := by
  show (if block.kind = .object then some block else none).filter _ = some block
  rw [if_pos hk, Option.filter_some]
  exact if_pos hn

/-- What was gathered is gathered again. -/
theorem gathered?_block {definitions : List Definition}
    (h : block ∈ o.stitchBlocks (definitions.filterMap o.gathered?)) :
    o.gathered? (.type (.block block)) = some block := by
  obtain ⟨group, hgroup, rfl⟩ := List.mem_map.mp h
  have hcombined := combined_of_mem_gather hgroup
  -- a group has its kind and its name from the first type in it
  cases hfilter : (definitions.filterMap o.gathered?).filter fun b => b.name = group.name with
  | nil =>
      rw [hfilter] at hcombined
      cases hcombined
  | cons first rest =>
      have hfirst : first ∈ definitions.filterMap o.gathered? := by
        refine List.mem_of_mem_filter (p := fun b => b.name = group.name) ?_
        rw [hfilter]
        exact List.mem_cons_self ..
      rw [hfilter] at hcombined
      obtain rfl := Option.some.inj hcombined
      obtain ⟨d, -, hd⟩ := List.mem_filterMap.mp hfirst
      obtain ⟨hobject, hnames⟩ := Option.filter_eq_some_iff.mp hd
      obtain ⟨-, hkind⟩ := Definition.object?_eq_some hobject
      refine gathered?_object ?_ ?_
      · rw [kind_dedupeGroup]
        exact hkind
      · rw [name_dedupeGroup]
        exact hnames

/-- What passes through is not gathered. -/
theorem gathered?_eq_none {d : Definition} (h : o.passes (.node d) = true) :
    o.gathered? d = none :=
  Option.isNone_iff_eq_none.mp (Bool.and_eq_true_iff.mp h).1

/-- What is gathered again of a stitched document are its groups. -/
theorem filterMap_stitchBare (o : Options) (definitions : List Definition) :
    (o.stitchBare definitions).filterMap o.gathered?
      = o.stitchBlocks (definitions.filterMap o.gathered?) := by
  have hpassing : (definitions.filter fun d => o.passes (.node d)).filterMap o.gathered? = [] :=
    List.filterMap_eq_nil_iff.mpr fun d hd => gathered?_eq_none (List.mem_filter.mp hd).2
  have hgathered : ((o.stitchBlocks (definitions.filterMap o.gathered?)).map fun block =>
      Definition.type (.block block)).filterMap o.gathered?
      = o.stitchBlocks (definitions.filterMap o.gathered?) := by
    rw [List.filterMap_map]
    exact (List.filterMap_congr fun block hb => gathered?_block hb).trans List.filterMap_some
  rw [stitchBare, List.filterMap_append, hgathered, hpassing, List.append_nil]

/-- What passes through once passes again. -/
theorem filter_stitchBare (o : Options) (definitions : List Definition) :
    (o.stitchBare definitions).filter (fun d => o.passes (.node d))
      = definitions.filter fun d => o.passes (.node d) := by
  have hgathered : ((o.stitchBlocks (definitions.filterMap o.gathered?)).map fun block =>
      Definition.type (.block block)).filter (fun d => o.passes (.node d)) = [] := by
    refine List.filter_eq_nil_iff.mpr fun d hd hpasses => ?_
    obtain ⟨block, hblock, rfl⟩ := List.mem_map.mp hd
    cases (gathered?_block hblock).symm.trans (gathered?_eq_none hpasses)
  rw [stitchBare, List.filter_append, hgathered, List.nil_append, List.filter_filter]
  simp

section

variable {ι : Type} {schema : ι → SchemaBlock} {definitions : ι → List Definition}

/-- Gathering from what portions are stitched into is gathering from all of their definitions
    at once. -/
theorem stitchBlocks_results (o : Options) {portions : List ι}
    (h : ∀ i ∈ portions, ∀ b ∈ (definitions i).filterMap o.gathered?, b.Plain) :
    o.stitchBlocks ((portions.flatMap fun i =>
        .schema (schema i) :: o.stitchBare (definitions i)).filterMap o.gathered?)
      = o.stitchBlocks ((portions.flatMap definitions).filterMap o.gathered?) := by
  have hgathered : (portions.flatMap fun i =>
      Definition.schema (schema i) :: o.stitchBare (definitions i)).filterMap o.gathered?
      = (portions.map fun i => (definitions i).filterMap o.gathered?).flatMap o.stitchBlocks := by
    rw [List.filterMap_flatMap, List.flatMap_map]
    exact List.flatMap_congr fun i _ => o.filterMap_stitchBare (definitions i)
  have hplain : ∀ blocks ∈ portions.map fun i => (definitions i).filterMap o.gathered?,
      ∀ b ∈ blocks, b.Plain := by
    intro blocks hblocks b hb
    obtain ⟨i, hi, rfl⟩ := List.mem_map.mp hblocks
    exact h i hi b hb
  rw [hgathered, o.stitchBlocks_portions hplain, List.filterMap_flatMap, List.flatMap_def]

/-- Stitching what portions are stitched into, schema declarations included, is stitching all
    of their definitions at once. -/
theorem stitchBare_results (o : Options) {portions : List ι}
    (h : ∀ i ∈ portions, ∀ b ∈ (definitions i).filterMap o.gathered?, b.Plain) :
    o.stitchBare (portions.flatMap fun i => .schema (schema i) :: o.stitchBare (definitions i))
      = o.stitchBare (portions.flatMap definitions) := by
  have hpassing : (portions.flatMap fun i =>
      Definition.schema (schema i) :: o.stitchBare (definitions i)).filter
        (fun d => o.passes (.node d))
      = (portions.flatMap definitions).filter fun d => o.passes (.node d) := by
    rw [List.filter_flatMap, List.filter_flatMap]
    exact List.flatMap_congr fun i _ => o.filter_stitchBare (definitions i)
  rw [stitchBare, o.stitchBlocks_results h, hpassing, stitchBare]

end

end Options

/-! ## Portions of texts -/

/-- The bare definitions of texts, one text after the other. -/
def bareOf (texts : List Text) : List Definition :=
  (texts.flatMap definitionsOf).map Definition.bare

/-- Types gathered from bare definitions are plain. -/
theorem plain_gathered {o : Options} {definitions : List Definition} :
    ∀ b ∈ (definitions.map Definition.bare).filterMap o.gathered?, b.Plain := by
  intro b hb
  rw [Options.filterMap_gathered_bare] at hb
  obtain ⟨original, -, rfl⟩ := List.mem_map.mp hb
  rw [Block.Plain, Block.bare_members, Entry.nodes_map_node]

/-- A definition of a type system is no shorthand query. -/
theorem isShorthand_bare {d : Definition} (h : d.kind ≠ .executable) :
    d.bare.isShorthand = false := by
  cases d with
  | type t => cases t <;> rfl
  | operation o => exact absurd rfl h
  | _ => rfl

section

variable {o : Options} {texts : List Text} {s : Stitched}

/-- Behind its schema declaration, a stitched text is read as the stitched definitions. -/
theorem bareTail_texts (hs : o.stitch (entriesOf texts) = .ok s) :
    s.bareTail = o.stitchBare (bareOf texts) := by
  rw [Options.bareTail_stitch hs, nodes_entriesOf, bareOf]

/-- What texts without operations and fragments are stitched into is read back. -/
theorem compatible_bareNodes (hs : o.stitch (entriesOf texts) = .ok s)
    (h : ∀ d ∈ texts.flatMap definitionsOf, d.kind ≠ .executable) : Compatible s.bareNodes := by
  refine compatible_of_not_shorthand fun d hd => ?_
  rw [Stitched.bareNodes_eq, bareTail_texts hs] at hd
  rcases List.mem_cons.mp hd with rfl | hd
  · rfl
  · rcases List.mem_append.mp hd with hd | hd
    · obtain ⟨block, -, rfl⟩ := List.mem_map.mp hd
      rfl
    · obtain ⟨original, horiginal, rfl⟩ := List.mem_map.mp (List.mem_of_mem_filter hd)
      exact isShorthand_bare (h original horiginal)

/-- The result for one portion, as it is printed and read back. -/
theorem exists_portion (hr : o.rootTypes.WellFormed)
    (h : ∀ text ∈ texts, ∃ document, Document.parse text = .ok document
      ∧ ∀ d ∈ document.definitions, d.kind ≠ .executable) :
    ∃ s, o.stitch (entriesOf texts) = .ok s
      ∧ o.stitchText (texts.map .text) = .ok s.print
      ∧ Document.parse s.print = .ok ⟨s.bareNodes.map .node, [s.print]⟩
      ∧ s.bareNodes = .schema s.schema :: o.stitchBare (bareOf texts) := by
  have hparse : ∀ text ∈ texts, ∃ document, Document.parse text = .ok document := by
    intro text htext
    obtain ⟨document, hdocument, -⟩ := h text htext
    exact ⟨document, hdocument⟩
  have hkind : ∀ d ∈ texts.flatMap definitionsOf, d.kind ≠ .executable := by
    intro d hd
    obtain ⟨text, htext, hd⟩ := List.mem_flatMap.mp hd
    obtain ⟨document, hdocument, hkind⟩ := h text htext
    rw [definitionsOf_eq hdocument] at hd
    exact hkind d hd
  obtain ⟨s, hs, hreadable⟩ := Options.exists_stitched hr (readable_entriesOf hparse)
  -- without executable definitions no shorthand query is there to be read as a body
  refine ⟨s, hs, stitchText_texts hparse hs,
    hreadable.parse_iff.mpr (compatible_bareNodes hs hkind), ?_⟩
  rw [Stitched.bareNodes_eq, hreadable.bare_schema, bareTail_texts hs]

end

/-- The names of the gathered types decide on the schema declaration, so it is the same for
    bare definitions with the same gathered types. -/
theorem schema_of_stitchBlocks {o : Options} {first second : List Text} {s t : Stitched}
    (hs : o.stitch (entriesOf first) = .ok s) (ht : o.stitch (entriesOf second) = .ok t)
    (h : o.stitchBlocks ((bareOf first).filterMap o.gathered?)
      = o.stitchBlocks ((bareOf second).filterMap o.gathered?)) : s.schema = t.schema := by
  obtain ⟨hsschema, -, -⟩ := Options.stitch_eq_ok hs
  obtain ⟨htschema, -, -⟩ := Options.stitch_eq_ok ht
  have hmerged : (Entry.nodes (o.merged (entriesOf first))).map Definition.bare
      = (Entry.nodes (o.merged (entriesOf second))).map Definition.bare := by
    rw [Options.bare_merged, Options.bare_merged, nodes_entriesOf, nodes_entriesOf, ← bareOf,
      ← bareOf, h]
  rw [Options.schema_congr hmerged, htschema] at hsschema
  exact (Except.ok.inj hsschema).symm

/-- Portions of texts are read text by text. -/
theorem bareOf_flatten (portions : List (List Text)) :
    bareOf portions.flatten = portions.flatMap bareOf := by
  rw [bareOf, ← List.flatMap_id, List.flatMap_assoc, List.map_flatMap]
  rfl

/-- The texts that portions are stitched into define what they are read back as. -/
theorem bareOf_results {o : Options} {portions : List (List Text)} {results : List Text → Stitched}
    (h : ∀ portion ∈ portions,
      Document.parse (results portion).print
          = .ok ⟨(results portion).bareNodes.map .node, [(results portion).print]⟩
        ∧ (results portion).bareNodes
          = .schema (results portion).schema :: o.stitchBare (bareOf portion)) :
    bareOf (portions.map fun portion => (results portion).print)
      = portions.flatMap fun portion =>
          .schema (results portion).schema :: o.stitchBare (bareOf portion) := by
  rw [bareOf, List.flatMap_map, List.map_flatMap]
  refine List.flatMap_congr fun portion hp => ?_
  obtain ⟨hparse, hbare⟩ := h portion hp
  rw [definitionsOf_eq hparse, Document.definitions, Entry.nodes_map_node,
    Stitched.bare_bareNodes, hbare]

/-- Texts without operations and fragments may be stitched together in portions, and the
    results again: but for comments, the text is the one that all texts at once are stitched
    into. -/
theorem Options.stitchText_portions {o : Options} {portions : List (List Text)}
    (hr : o.rootTypes.WellFormed)
    (h : ∀ portion ∈ portions, ∀ text ∈ portion, ∃ document,
      Document.parse text = .ok document ∧ ∀ d ∈ document.definitions, d.kind ≠ .executable) :
    ∃ (parts : List Text) (combined whole : Text),
      List.Forall₂ (fun portion part => o.stitchText (portion.map .text) = .ok part) portions parts
        ∧ o.stitchText (parts.map .text) = .ok combined
        ∧ o.stitchText (portions.flatten.map .text) = .ok whole
        ∧ combined.withoutComments = whole.withoutComments := by
  have hportion := fun portion hp => exists_portion hr (h portion hp)
  have hnonempty : Nonempty Stitched := ⟨⟨none, [], []⟩, [], []⟩
  choose! results hresults using hportion
  let parts := portions.map fun portion => (results portion).print
  have hflat : ∀ text ∈ portions.flatten, ∃ document, Document.parse text = .ok document := by
    intro text htext
    obtain ⟨portion, hp, htext⟩ := List.mem_flatten.mp htext
    obtain ⟨document, hdocument, -⟩ := h portion hp text htext
    exact ⟨document, hdocument⟩
  have hparts : ∀ text ∈ parts, ∃ document, Document.parse text = .ok document := by
    intro text htext
    obtain ⟨portion, hp, rfl⟩ := List.mem_map.mp htext
    exact ⟨_, (hresults portion hp).2.2.1⟩
  obtain ⟨s, hs, hsreadable⟩ := exists_stitched hr (readable_entriesOf hflat)
  obtain ⟨t, ht, htreadable⟩ := exists_stitched hr (readable_entriesOf hparts)
  -- as texts, the results define what they were made of, and schema declarations besides
  have hbare := bareOf_results fun portion hp => (hresults portion hp).2.2
  have hschema : t.schema = s.schema := by
    refine schema_of_stitchBlocks ht hs ?_
    rw [hbare, bareOf_flatten]
    exact o.stitchBlocks_results fun _ _ => plain_gathered
  have htail : t.bareTail = s.bareTail := by
    rw [bareTail_texts ht, bareTail_texts hs, hbare, bareOf_flatten]
    exact o.stitchBare_results fun _ _ => plain_gathered
  refine ⟨parts, t.print, s.print, ?_, stitchText_texts hparts ht, stitchText_texts hflat hs, ?_⟩
  · rw [List.forall₂_map_right_iff, List.forall₂_same]
    exact fun portion hp => (hresults portion hp).2.1
  · rw [Text.withoutComments, Text.withoutComments, htreadable.contentLines_print,
      hsreadable.contentLines_print, hschema, htail]

/-- A text can be checked for being a type system document by reading it. -/
theorem exists_typeSystemDocument {text : Text}
    (h : (Document.parse text).toOption.any (fun document =>
      document.definitions.all fun d => d.kind != .executable) = true) :
    ∃ document, Document.parse text = .ok document
      ∧ ∀ d ∈ document.definitions, d.kind ≠ .executable := by
  cases hparse : Document.parse text with
  | error fault =>
      rw [hparse] at h
      cases h
  | ok document =>
      rw [hparse] at h
      refine ⟨document, rfl, fun d hd => ?_⟩
      exact bne_iff_ne.mp (List.all_eq_true.mp h d hd)

/-- Two types of one name in a portion each. -/
theorem stitchText_twoPortions :
    let portions : List (List Text) := [["type Query {a: Int}"], ["type Query {b: Int}"]]
    RootTypes.default.WellFormed
      ∧ (∀ portion ∈ portions, ∀ text ∈ portion, ∃ document, Document.parse text = .ok document
          ∧ ∀ d ∈ document.definitions, d.kind ≠ .executable)
      ∧ ∃ (parts : List Text) (combined whole : Text),
        List.Forall₂ (fun portion part => ({} : Options).stitchText (portion.map .text) = .ok part)
            portions parts
          ∧ ({} : Options).stitchText (parts.map .text) = .ok combined
          ∧ ({} : Options).stitchText (portions.flatten.map .text) = .ok whole
          ∧ combined.withoutComments = whole.withoutComments := by
  intro portions
  have hfirst : ∃ document, Document.parse "type Query {a: Int}" = .ok document
      ∧ ∀ d ∈ document.definitions, d.kind ≠ .executable :=
    exists_typeSystemDocument (by decide +kernel)
  have hsecond : ∃ document, Document.parse "type Query {b: Int}" = .ok document
      ∧ ∀ d ∈ document.definitions, d.kind ≠ .executable :=
    exists_typeSystemDocument (by decide +kernel)
  have hall : ∀ portion ∈ portions, ∀ text ∈ portion, ∃ document,
      Document.parse text = .ok document
        ∧ ∀ d ∈ document.definitions, d.kind ≠ .executable :=
    List.forall_mem_cons.mpr ⟨List.forall_mem_singleton.mpr hfirst,
      List.forall_mem_singleton.mpr (List.forall_mem_singleton.mpr hsecond)⟩
  exact ⟨wellFormed_default, hall, Options.stitchText_portions (o := {}) wellFormed_default hall⟩

end SchemaStitch
