import SchemaStitch.Proofs.Bare

/-! # Gathering in closed form

    Gathering goes over the object types one by one and keeps a list of groups.  Seen as a
    whole it takes every name where it comes first, behind the names that have a place from
    the start, and puts the members of all types of a name together (`Groups.blocks_gather`).
    From this follow what the groups consist of and that gathering leaves comments and
    descriptions alone (`Groups.gather_bare`). -/

namespace SchemaStitch

namespace Groups

variable {names : List Text} {group : Text → Option Block} {block : Block} {blocks : List Block}

/-- Groups with given names in order, where `group` tells what belongs to a name. -/
def of (names : List Text) (group : Text → Option Block) : Groups :=
  names.map fun name => (name, group name)

/-- The group of a name after a type was added to it. -/
def joined (group : Option Block) (block : Block) : Block :=
  match group with
  | none => block
  | some first => { first with members := first.members ++ block.members }

/-- The first of several types, with the members of all of them. -/
def combined : List Block → Option Block
  | [] => none
  | first :: rest =>
      some { first with members := first.members ++ rest.flatMap Block.members }

/-- Gather types, where some names have a place from the start. -/
def gather (names : List Text) (blocks : List Block) : Groups :=
  blocks.foldl (fun groups block => groups.add block) (ofNames names)

/-- The names of groups: those with a place from the start, then those of the types. -/
def order (names : List Text) (blocks : List Block) : List Text :=
  firsts id [] (names ++ blocks.map Block.name)

/-! ## The groups as a whole -/

/-- Reserving a name gives it a place behind the others, unless it has one. -/
theorem reserve_of (name : Text) :
    (of (firsts id [] names) fun _ => none).reserve name
      = of (firsts id [] (names ++ [name])) fun _ => none := by
  have hany : ((of (firsts id [] names) fun _ => none).any fun group => group.1 == name) = true
      ↔ name ∈ names := by
    rw [of, List.any_map, List.any_eq_true]
    constructor
    · rintro ⟨other, hmem, heq⟩
      rw [← beq_iff_eq.mp heq]
      exact mem_firsts.mp hmem
    · intro h
      exact ⟨name, mem_firsts.mpr h, beq_self_eq_true name⟩
  rw [reserve, firsts_concat]
  by_cases h : name ∈ names
  · rw [if_pos (hany.mpr h), if_pos h]
  · rw [if_neg fun ha => h (hany.mp ha), if_neg h, of, of, List.map_append]
    rfl

/-- Each name has one place, where it comes first. -/
theorem ofNames_eq (names : List Text) :
    ofNames names = of (firsts id [] names) fun _ => none := by
  induction names using List.reverseRecOn with
  | nil => rfl
  | append_singleton names name ih =>
      rw [ofNames] at ih ⊢
      rw [List.foldl_append, List.foldl_cons, List.foldl_nil, ih, reserve_of]

/-- Adding a type changes the group of its name only, and gives it a place if it has none. -/
theorem add_of (hg : ∀ name, name ∉ names → group name = none) (block : Block) :
    (of (firsts id [] names) group).add block
      = of (firsts id [] (names ++ [block.name])) fun name =>
          if name = block.name then some (joined (group name) block) else group name := by
  refine (Keyed.alter_firsts block.name).trans (List.map_congr_left fun name _ => ?_)
  refine congrArg (Prod.mk name) ?_
  beta_reduce
  by_cases heq : name = block.name
  · rw [if_pos heq, if_pos heq, heq]
    by_cases hmem : block.name ∈ names
    · rw [if_pos hmem]
      rfl
    · rw [if_neg hmem, hg _ hmem]
      rfl
  · rw [if_neg heq, if_neg heq]

/-- A further type is joined to what the types before it are combined into. -/
theorem combined_concat (blocks : List Block) (block : Block) :
    combined (blocks ++ [block]) = some (joined (combined blocks) block) := by
  cases blocks with
  | nil =>
      show some { block with members := block.members ++ [] } = some block
      rw [List.append_nil]
  | cons first rest =>
      show some { first with members := first.members ++ (rest ++ [block]).flatMap Block.members }
        = some { first with
            members := (first.members ++ rest.flatMap Block.members) ++ block.members }
      rw [List.flatMap_append, List.flatMap_singleton, List.append_assoc]

/-- Gathering types makes one group for each name: the types of that name, combined in order. -/
theorem gather_eq (names : List Text) (blocks : List Block) :
    gather names blocks
      = of (order names blocks) fun name => combined (blocks.filter fun b => b.name = name) := by
  -- types are added behind the others, so the induction takes the last one off
  induction blocks using List.reverseRecOn with
  | nil =>
      rw [order, List.map_nil, List.append_nil]
      exact ofNames_eq names
  | append_singleton blocks block ih =>
      have hnone : ∀ name, name ∉ names ++ blocks.map Block.name →
          combined (blocks.filter fun b => b.name = name) = none := by
        intro name hname
        rw [List.filter_eq_nil_iff.mpr]
        · rfl
        · intro b hb heq
          refine hname (List.mem_append_right _ (List.mem_map.mpr ⟨b, hb, ?_⟩))
          exact of_decide_eq_true heq
      rw [gather] at ih ⊢
      rw [List.foldl_append, List.foldl_cons, List.foldl_nil, ih, order, add_of hnone, order,
        List.map_append, List.map_singleton, List.append_assoc]
      refine List.map_congr_left fun name _ => congrArg (Prod.mk name) ?_
      beta_reduce
      rw [List.filter_append]
      by_cases heq : name = block.name
      · have hone : [block].filter (fun b => b.name = name) = [block] := by simp [heq]
        rw [if_pos heq, hone, combined_concat]
      · have hone : [block].filter (fun b => b.name = name) = [] := by simp [Ne.symm heq]
        rw [if_neg heq, hone, List.append_nil]

/-- The groups in order: each name where it comes first, with the members of all types of
    that name. -/
theorem blocks_gather (names : List Text) (blocks : List Block) :
    (gather names blocks).blocks
      = (order names blocks).filterMap fun name =>
          combined (blocks.filter fun b => b.name = name) := by
  rw [gather_eq, Groups.blocks, of, List.filterMap_map]
  rfl

/-! ## What groups consist of -/

/-- Types of one name combine into a type of that name. -/
theorem name_of_combined {name : Text} (h : ∀ b ∈ blocks, b.name = name)
    (hc : combined blocks = some block) : block.name = name := by
  cases blocks with
  | nil => cases hc
  | cons first rest =>
      obtain rfl := Option.some.inj hc
      exact h first (List.mem_cons_self ..)

theorem combined_eq_none : combined blocks = none ↔ blocks = [] := by
  cases blocks with
  | nil => exact ⟨fun _ => rfl, fun _ => rfl⟩
  | cons first rest => exact ⟨fun h => (by cases h), fun h => by cases h⟩

/-- A group is made of some of the gathered types. -/
theorem combined_of_mem_gather (h : block ∈ (gather names blocks).blocks) :
    combined (blocks.filter fun b => b.name = block.name) = some block := by
  rw [blocks_gather, List.mem_filterMap] at h
  obtain ⟨name, -, hc⟩ := h
  have hname : block.name = name := by
    refine name_of_combined (fun b hb => ?_) hc
    exact of_decide_eq_true (List.mem_filter.mp hb).2
  rw [hname]
  exact hc

theorem attached_flatMap_members (h : ∀ b ∈ blocks, Entry.Attached b.members) :
    Entry.Attached (blocks.flatMap Block.members) := by
  induction blocks with
  | nil => exact .nil
  | cons first rest ih =>
      rw [List.flatMap_cons]
      exact (h first (List.mem_cons_self ..)).append
        (ih fun b hb => h b (List.mem_cons_of_mem _ hb))

/-- The members of several types are theirs, type by type. -/
theorem nodes_flatMap_members (blocks : List Block) :
    Entry.nodes (blocks.flatMap Block.members) = blocks.flatMap fun b => Entry.nodes b.members := by
  induction blocks with
  | nil => rfl
  | cons first rest ih => rw [List.flatMap_cons, Entry.nodes_append, ih, List.flatMap_cons]

/-- Types of one kind whose members have no descriptions make such a type. -/
theorem settled_of_combined {kind : BlockKind} (h : ∀ b ∈ blocks, b.Settled ∧ b.kind = kind)
    (hc : combined blocks = some block) : block.Settled ∧ block.kind = kind := by
  cases blocks with
  | nil => cases hc
  | cons first rest =>
      obtain rfl := Option.some.inj hc
      obtain ⟨hfirst, hkind⟩ := h first (List.mem_cons_self ..)
      -- every member of the whole is a member of one of the types
      have hnodes (member : Member)
          (hm : member ∈ Entry.nodes (first.members ++ rest.flatMap Block.members)) :
          ∃ b ∈ first :: rest, member ∈ Entry.nodes b.members := by
        rw [← List.flatMap_cons, nodes_flatMap_members] at hm
        exact List.mem_flatMap.mp hm
      refine ⟨⟨⟨hfirst.wellFormed.description, hfirst.wellFormed.name,
        hfirst.wellFormed.interfaces, hfirst.wellFormed.implements,
        hfirst.wellFormed.directives, ?_⟩, ?_, ?_⟩, hkind⟩
      · intro member hm
        obtain ⟨b, hb, hmember⟩ := hnodes member hm
        rw [hkind, ← (h b hb).2]
        exact (h b hb).1.wellFormed.members member hmember
      · exact attached_flatMap_members fun b hb => (h b hb).1.attached
      · intro member hm
        obtain ⟨b, hb, hmember⟩ := hnodes member hm
        exact (h b hb).1.undocumented member hmember

/-! ## Bare groups -/

/-- Types may be made bare before or after they are combined. -/
theorem combined_bare (blocks : List Block) :
    combined (blocks.map Block.bare) = (combined blocks).map Block.bare := by
  cases blocks with
  | nil => rfl
  | cons first rest =>
      have hmembers : first.bare.members ++ (rest.map Block.bare).flatMap Block.members
          = (Entry.nodes (first.members ++ rest.flatMap Block.members)).map
              fun member => .node member.withoutDescription := by
        rw [Entry.nodes_append, nodes_flatMap_members, List.map_append, List.flatMap_map,
          List.map_flatMap]
        rfl
      show some { first.bare with
          members := first.bare.members ++ (rest.map Block.bare).flatMap Block.members } = _
      rw [hmembers]
      rfl

/-- A change of types that keeps their names, and that makes no difference to the types of one
    name together, may be made before or after gathering. -/
theorem gather_map {f : Block → Block} (hname : ∀ b, (f b).name = b.name)
    (hcombined : ∀ blocks, combined (blocks.map f) = (combined blocks).map f) (names : List Text)
    (blocks : List Block) :
    (gather names (blocks.map f)).blocks = (gather names blocks).blocks.map f := by
  have hnames : Block.name ∘ f = Block.name := funext hname
  have hfilter (name : Text) : (blocks.map f).filter (fun b => b.name = name)
      = (blocks.filter fun b => b.name = name).map f := by
    rw [List.filter_map]
    refine congrArg (List.map f) (List.filter_congr fun b _ => ?_)
    rw [Function.comp_apply, hname]
  rw [blocks_gather, blocks_gather, List.map_filterMap, order, List.map_map, hnames]
  refine List.filterMap_congr fun name _ => ?_
  rw [hfilter, hcombined]

/-- Gathering bare types yields bare groups. -/
theorem gather_bare (names : List Text) (blocks : List Block) :
    (gather names (blocks.map Block.bare)).blocks
      = (gather names blocks).blocks.map Block.bare :=
  gather_map (f := Block.bare) (fun _ => rfl) combined_bare names blocks

end Groups

end SchemaStitch
