import SchemaStitch.Proofs.Disagreements

/-! # Conflicts and repeated members

    Two loops decide which members of a type say the same: one gathers the signatures of every
    name, the other drops members whose name and signature it has seen.  They agree.  What is
    dropped takes part in no conflict (`Block.conflicts_withoutRepeats`), and behind it every
    name stands once for each of its signatures (`length_signaturesOf`).  So a name is in
    conflict iff it still stands there more than once, and without conflicts every member has a
    name of its own (`Document.dedupe_reconciled`). -/

namespace SchemaStitch

/-! ## Types in a document -/

namespace Entry

variable {α β : Type}

/-- Changing entries changes their nodes. -/
theorem nodes_map (f : α → β) (entries : List (Entry α)) :
    nodes (entries.map (map f)) = (nodes entries).map f := by
  induction entries with
  | nil => rfl
  | cons entry rest ih =>
      cases entry with
      | comment line => exact ih
      | node value => exact congrArg (f value :: ·) ih

end Entry

namespace Block

/-- The members of a type, without the comments among them. -/
def nodes (block : Block) : List Member :=
  Entry.nodes block.members

/-- The names of the members of a type. -/
def memberNames (block : Block) : List Text :=
  block.nodes.map Member.name

/-- A type without the members that repeat an earlier one. -/
def withoutRepeats (block : Block) : Block :=
  { block with members := Member.dedupe block.members }

/-- Without repeats a type has the first member of each key. -/
theorem nodes_withoutRepeats (block : Block) :
    block.withoutRepeats.nodes = firsts Member.key [] block.nodes :=
  Member.nodes_dedupe block.members

/-- Members that repeat an earlier one take part in no conflict. -/
theorem conflicts_withoutRepeats (block : Block) :
    block.withoutRepeats.conflicts = block.conflicts := by
  rw [conflicts_eq, conflicts_eq]
  show disagreements block.name block.withoutRepeats.nodes = _
  rw [nodes_withoutRepeats, disagreements_firsts]
  rfl

/-- Descriptions take part in no conflict either. -/
theorem conflicts_bare (block : Block) : block.bare.conflicts = block.conflicts := by
  rw [conflicts_eq, conflicts_eq, bare_members, Entry.nodes_map_node]
  exact disagreements_withoutDescription block.name _

end Block

namespace Definition

/-- Changing members leaves it open whether there are any. -/
theorem block?_mapMembers (f : List (Entry Member) → List (Entry Member)) (d : Definition) :
    (d.mapMembers f).block?
      = d.block?.map fun block => { block with members := f block.members } := by
  cases d with
  | type t => cases t <;> rfl
  | _ => rfl

theorem block?_bare (d : Definition) : d.bare.block? = d.block?.map Block.bare := by
  cases d with
  | type t => cases t <;> rfl
  | _ => rfl

end Definition

namespace Document

variable {document : Document}

/-- The types with members that a document defines. -/
def blocks (document : Document) : List Block :=
  document.definitions.filterMap Definition.block?

/-- The document with the members of the types that it defines changed by `f`. -/
def mapMembers (f : List (Entry Member) → List (Entry Member)) (document : Document) : Document :=
  { document with entries := document.entries.map (Entry.map (Definition.mapMembers f)) }

/-- Changing the members of a document changes those of each definition. -/
theorem definitions_mapMembers (f : List (Entry Member) → List (Entry Member))
    (document : Document) :
    (document.mapMembers f).definitions = document.definitions.map (Definition.mapMembers f) :=
  Entry.nodes_map _ document.entries

theorem blocks_mapMembers (f : List (Entry Member) → List (Entry Member)) (document : Document) :
    (document.mapMembers f).blocks
      = document.blocks.map fun block => { block with members := f block.members } := by
  rw [blocks, definitions_mapMembers, blocks, List.filterMap_map, List.map_filterMap]
  exact List.filterMap_congr fun d _ => d.block?_mapMembers f

/-- Repeats are dropped in each definition. -/
theorem definitions_dedupe (document : Document) :
    document.dedupe.definitions
      = document.definitions.map (Definition.mapMembers Member.dedupe) :=
  definitions_mapMembers Member.dedupe document

/-- Repeats are dropped in each type with members. -/
theorem blocks_dedupe (document : Document) :
    document.dedupe.blocks = document.blocks.map Block.withoutRepeats :=
  blocks_mapMembers Member.dedupe document

/-- The conflicts of a document are those of its types, in order. -/
theorem conflicts_eq (document : Document) :
    document.conflicts = document.blocks.flatMap Block.conflicts :=
  rfl

/-- Dropping repeated members neither hides nor makes a conflict. -/
theorem conflicts_dedupe (document : Document) :
    document.dedupe.conflicts = document.conflicts := by
  rw [conflicts_eq, blocks_dedupe, List.flatMap_map]
  exact List.flatMap_congr fun block _ => block.conflicts_withoutRepeats

end Document

/-! ## How often a name is left -/

section

variable {members : List Member} {type name : Text}

/-- Once repeated members are dropped, a name stands once for each of its signatures. -/
theorem length_signaturesOf (members : List Member) (name : Text) :
    (signaturesOf members name).length
      = ((firsts Member.key [] members).map Member.name).count name := by
  have hfilter : (firsts Member.key [] members).filter (fun member => member.name = name)
      = firsts Member.key [] (members.filter fun member => member.name = name) :=
    filter_firsts fun a b hab => congrArg (fun key => decide (key.1 = name)) hab
  -- among members of one name the signature is all that can differ
  have hsignature : firsts Member.key [] (members.filter fun member => member.name = name)
      = firsts Member.signature [] (members.filter fun member => member.name = name) := by
    refine firsts_congr_key (fun a ha b hb => ?_) fun _ _ => by simp
    have hname : a.name = b.name :=
      (of_decide_eq_true (List.mem_filter.mp ha).2).trans
        (of_decide_eq_true (List.mem_filter.mp hb).2).symm
    exact ⟨congrArg Prod.snd, fun hsame => Prod.ext hname hsame⟩
  have hcount : ((firsts Member.key [] members).map Member.name).count name
      = ((firsts Member.key [] members).filter fun member => member.name = name).length := by
    rw [List.count, List.countP_map, List.countP_eq_length_filter]
    exact congrArg List.length (List.filter_congr fun member _ => beq_eq_decide _ _)
  rw [hcount, hfilter, hsignature, signaturesOf, firsts_map, List.length_map]
  rfl

/-- A name is in conflict iff members of it are left that differ. -/
theorem exists_disagreement :
    (∃ conflict ∈ disagreements type members, conflict.member = name)
      ↔ 2 ≤ ((firsts Member.key [] members).map Member.name).count name := by
  rw [← length_signaturesOf, two_le_length_signaturesOf]
  constructor
  · rintro ⟨conflict, hconflict, rfl⟩
    exact (mem_disagreements.mp hconflict).2.2
  · intro hdiffer
    exact ⟨⟨type, name, signaturesOf members name⟩,
      mem_disagreements.mpr ⟨rfl, rfl, hdiffer⟩, rfl⟩

/-- Without conflicts, the names that are left are those declared, each where it comes first. -/
theorem names_firsts_key (h : disagreements type members = []) :
    (firsts Member.key [] members).map Member.name = firsts id [] (members.map Member.name) := by
  rw [firsts_key_eq h, firsts_map]
  rfl

end

/-! ## Agreement -/

/-- The conflicts of a type agree with what is left of its members. -/
structure Block.Reconciled (block : Block) : Prop where
  /-- A member name is in conflict iff it is left more than once. -/
  reported : ∀ name, (∃ conflict ∈ block.conflicts, conflict.member = name)
    ↔ 2 ≤ block.withoutRepeats.memberNames.count name
  /-- A conflict has as many signatures as members of its name are left. -/
  signatures : ∀ conflict ∈ block.conflicts, conflict.type = block.name
    ∧ conflict.signatures.length = block.withoutRepeats.memberNames.count conflict.member

/-- Dropping repeats in a type leaves its conflicts, and one member for each signature that they
    tell. -/
theorem Block.reconciled (block : Block) : block.Reconciled := by
  have hnames : block.withoutRepeats.memberNames
      = (firsts Member.key [] block.nodes).map Member.name := by
    rw [memberNames, nodes_withoutRepeats]
  constructor
  · intro name
    rw [hnames, conflicts_eq]
    exact exists_disagreement
  · intro conflict hconflict
    rw [conflicts_eq] at hconflict
    obtain ⟨htype, hsignatures, -⟩ := mem_disagreements.mp hconflict
    rw [hnames, hsignatures]
    exact ⟨htype, length_signaturesOf _ _⟩

/-- The conflicts of a document agree with what is left of its members. -/
structure Document.Reconciled (document : Document) : Prop where
  conflicts : document.dedupe.conflicts = document.conflicts
  /-- The conflicts are those of the types, one type after the other. -/
  perBlock : document.conflicts = document.blocks.flatMap Block.conflicts
  /-- The types stay where they are. -/
  blocks : document.dedupe.blocks = document.blocks.map Block.withoutRepeats
  each : ∀ block ∈ document.blocks, block.Reconciled
  /-- Without conflicts every name is left once, where it comes first. -/
  settled : document.conflicts = [] → ∀ block ∈ document.blocks,
    block.withoutRepeats.memberNames.Nodup
      ∧ block.withoutRepeats.memberNames
        = (firstPositions block.memberNames).filterMap (block.memberNames[·]?)

/-- Looking for conflicts and dropping repeated members tell the same members apart. -/
theorem Document.dedupe_reconciled (document : Document) : document.Reconciled where
  conflicts := conflicts_dedupe document
  perBlock := conflicts_eq document
  blocks := blocks_dedupe document
  each := fun block _ => block.reconciled
  settled := by
    intro hnone block hblock
    have hblockNone : disagreements block.name block.nodes = [] := by
      have hconflicts := List.flatMap_eq_nil_iff.mp hnone block hblock
      rwa [Block.conflicts_eq] at hconflicts
    rw [Block.memberNames, Block.nodes_withoutRepeats, names_firsts_key hblockNone]
    refine ⟨nodup_firsts, ?_⟩
    rw [firsts_eq_filterMap, List.map_id]
    rfl

/-- A type without conflicts in which a value comes twice. -/
theorem Document.dedupe_reconciled_values :
    let document : Document := ⟨[.node (.type (.block ⟨.enum, none, "E", [], [],
      [.node (.value ⟨none, "A", []⟩), .node (.value ⟨none, "B", []⟩),
        .node (.value ⟨some ⟨"x", false⟩, "A", []⟩)]⟩))], []⟩
    document.conflicts = []
      ∧ document.dedupe.blocks.map Block.memberNames = ([["A", "B"]] : List (List Text))
      ∧ document.Reconciled :=
  ⟨by decide +kernel, by decide +kernel, dedupe_reconciled _⟩

end SchemaStitch
