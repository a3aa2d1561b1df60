import Mathlib.Data.List.Pairwise
import SchemaStitch.Proofs.Descriptions
import SchemaStitch.Proofs.Signatures

/-! # Which descriptions decide sameness

    Members are compared by their printed forms.  A member's own description is left out of
    these, so it decides nothing.  The descriptions of its arguments are printed, so members
    that are the same but for those pass for different ones: they are reported as a conflict,
    and none of them is dropped (`not_agreesWith_described`).

    That is the only way in which documentation matters.  Unless a type has two members that
    take arguments and are the same apart from documentation, documents that differ in
    documentation only have their conflicts in the same places and keep members at the same
    positions (`Document.agreesWith_iff_toldApart`).

    For the other direction the arguments of all members are described by one text, and then by
    a text for each member (`Document.labelled`): the first time such members are the same, the
    second time they are not. -/

namespace SchemaStitch

/-! ## Without documentation -/

/-- An argument definition or a field of an input type without its description. -/
def InputValue.withoutDescription (input : InputValue) : InputValue :=
  { input with description := none }

/-- A member without its description and without those of its arguments. -/
def Member.withoutDocumentation : Member → Member
  | .field f => .field
      { f with description := none, arguments := f.arguments.map InputValue.withoutDescription }
  | .input i => .input i.withoutDescription
  | .value v => .value { v with description := none }

/-- A type without its description and without those inside of it. -/
def Block.withoutDocumentation (block : Block) : Block :=
  { block with
    description := none
    members := block.members.map (Entry.map Member.withoutDocumentation) }

/-- The definition of a type without descriptions. -/
def TypeDefinition.withoutDocumentation : TypeDefinition → TypeDefinition
  | .block b => .block b.withoutDocumentation
  | type => type.withoutDescription

/-- A definition without descriptions, wherever they stand. -/
def Definition.withoutDocumentation : Definition → Definition
  | .schema s => .schema { s with description := none }
  | .type t => .type t.withoutDocumentation
  | .directive d => .directive
      { d with description := none, arguments := d.arguments.map InputValue.withoutDescription }
  | .extendSchema s => .extendSchema s
  | .extendType t => .extendType t.withoutDocumentation
  | .operation o => .operation
      { o with
        description := none
        variableDefinitions := o.variableDefinitions.map fun v => { v with description := none } }
  | .fragment f => .fragment { f with description := none }

namespace Document

/-- Two documents that are the same entry by entry, apart from documentation. -/
def SameButDocumentation (document other : Document) : Prop :=
  document.entries.map (Entry.map Definition.withoutDocumentation)
    = other.entries.map (Entry.map Definition.withoutDocumentation)

/-- All definitions of the document can be read. -/
def Readable (document : Document) : Prop :=
  ∀ d ∈ document.definitions, d.WellFormed

end Document

/-! ## What is compared -/

/-- The type and the member name that a conflict is about. -/
def Conflict.place (conflict : Conflict) : Text × Text :=
  (conflict.type, conflict.member)

/-- The positions of the members of a type that stay when repeated members are dropped. -/
def Block.keptPositions (block : Block) : List Nat :=
  Member.keptPositions block.nodes

/-- These positions for each type with members that a document defines. -/
def Document.keptPositions (document : Document) : List (List Nat) :=
  document.blocks.map Block.keptPositions

/-- Two documents have their conflicts in the same places, and members at the same positions
    stay in them. -/
structure Document.AgreesWith (document other : Document) : Prop where
  conflicts : document.conflicts.map Conflict.place = other.conflicts.map Conflict.place
  kept : document.keptPositions = other.keptPositions

/-- Without documentation, no two members that take arguments are the same. -/
def Member.ToldApart (members : List Member) : Prop :=
  (members.map Member.withoutDocumentation).Pairwise fun member other =>
    member.content.arguments ≠ [] → member ≠ other

/-! ## Descriptions of members -/

namespace Block

/-- Which members are kept does not depend on their descriptions. -/
theorem keptPositions_bare (block : Block) : block.bare.keptPositions = block.keptPositions := by
  rw [keptPositions, nodes, bare_members, Entry.nodes_map_node, bareMembers,
    Member.keptPositions, List.map_map]
  exact congrArg firstPositions (List.map_congr_left fun member _ => member.key_withoutDescription)

end Block

namespace Document

variable {document other : Document}

/-- The types of a document, bare, are those of its bare definitions. -/
theorem map_bare_blocks (document : Document) :
    document.blocks.map Block.bare = document.bareDefinitions.filterMap Definition.block? := by
  rw [blocks, bareDefinitions, List.filterMap_map, List.map_filterMap]
  exact List.filterMap_congr fun d _ => d.block?_bare.symm

/-- The descriptions of members and of whole definitions decide nothing. -/
theorem conflicts_kept_of_bare (h : document.bareDefinitions = other.bareDefinitions) :
    document.conflicts = other.conflicts ∧ document.keptPositions = other.keptPositions := by
  have hblocks : document.blocks.map Block.bare = other.blocks.map Block.bare := by
    rw [map_bare_blocks, map_bare_blocks, h]
  have hconflicts (d : Document) :
      d.conflicts = (d.blocks.map Block.bare).flatMap Block.conflicts := by
    rw [List.flatMap_map]
    exact List.flatMap_congr fun block _ => block.conflicts_bare.symm
  have hkept (d : Document) :
      d.keptPositions = (d.blocks.map Block.bare).map Block.keptPositions := by
    rw [List.map_map]
    exact List.map_congr_left fun block _ => block.keptPositions_bare.symm
  constructor
  · rw [hconflicts document, hconflicts other, hblocks]
  · rw [hkept document, hkept other, hblocks]

/-- Dropping repeated members leaves those at the positions that are kept. -/
theorem nodes_blocks_dedupe (document : Document) :
    document.dedupe.blocks.map Block.nodes
      = document.blocks.map fun block => block.keptPositions.filterMap (block.nodes[·]?) := by
  rw [blocks_dedupe, List.map_map]
  exact List.map_congr_left fun block _ => Member.nodes_dedupe_eq_filterMap block.members

end Document

/-! ## Members that are told apart -/

namespace Member

variable {kind : BlockKind} {member other : Member} {members others : List Member}

theorem name_withoutDocumentation (member : Member) :
    member.withoutDocumentation.name = member.name := by
  cases member <;> rfl

theorem arguments_withoutDocumentation (member : Member) :
    member.withoutDocumentation.content.arguments
      = member.content.arguments.map InputValue.withoutDescription := by
  cases member <;> rfl

/-- The documentation of a member takes in its description. -/
theorem withoutDocumentation_withoutDescription (member : Member) :
    member.withoutDescription.withoutDocumentation = member.withoutDocumentation := by
  cases member <;> rfl

/-- Members with one signature are the same apart from documentation. -/
theorem withoutDocumentation_of_signature (h : member.WellFormed kind)
    (ho : other.WellFormed kind) (hs : member.signature = other.signature) :
    member.withoutDocumentation = other.withoutDocumentation := by
  have hsame := withoutDescription_of_tokens h ho (tokens_of_signature h ho hs)
  rw [← withoutDocumentation_withoutDescription member, hsame,
    withoutDocumentation_withoutDescription]

/-- Where there are no arguments, all documentation is the member's own description. -/
theorem withoutDocumentation_eq (h : member.withoutDocumentation.content.arguments = []) :
    member.withoutDocumentation = member.withoutDescription := by
  rw [arguments_withoutDocumentation, List.map_eq_nil_iff] at h
  cases member with
  | field f =>
      have hnone : f.arguments = [] := h
      rw [withoutDocumentation, withoutDescription, hnone, List.map_nil]
  | input i => rfl
  | value v => rfl

/-- Among members that are told apart, a signature tells as much as documentation leaves. -/
theorem ToldApart.signature_eq_iff (h : ToldApart members)
    (hw : ∀ member ∈ members, member.WellFormed kind) (hm : member ∈ members)
    (ho : other ∈ members) :
    member.signature = other.signature
      ↔ member.withoutDocumentation = other.withoutDocumentation := by
  constructor
  · exact withoutDocumentation_of_signature (hw member hm) (hw other ho)
  · intro hsame
    by_cases heq : member = other
    · rw [heq]
    · -- two different members that take arguments would differ without documentation, too
      have hsymm : Std.Symm fun m o : Member => m.withoutDocumentation.content.arguments ≠ [] →
          m.withoutDocumentation ≠ o.withoutDocumentation :=
        ⟨fun m o hmo hargs hom => hmo (hom ▸ hargs) hom.symm⟩
      have happart := (List.pairwise_map.mp h).forall hm ho heq
      have hnone : member.withoutDocumentation.content.arguments = [] := by
        by_contra hargs
        exact happart hargs hsame
      have hnone' : other.withoutDocumentation.content.arguments = [] := hsame ▸ hnone
      rw [withoutDocumentation_eq hnone, withoutDocumentation_eq hnone'] at hsame
      rw [← signature_withoutDescription member, hsame, signature_withoutDescription]

/-- Where arguments tell members apart, members have the same key exactly if they are the same but
    for documentation. -/
theorem ToldApart.key_eq_iff (h : ToldApart members)
    (hw : ∀ member ∈ members, member.WellFormed kind) (hm : member ∈ members)
    (ho : other ∈ members) :
    member.key = other.key ↔ member.withoutDocumentation = other.withoutDocumentation := by
  rw [← h.signature_eq_iff hw hm ho]
  constructor
  · exact congrArg Prod.snd
  · intro hs
    have hsame := (h.signature_eq_iff hw hm ho).mp hs
    refine Prod.ext ?_ hs
    show member.name = other.name
    rw [← name_withoutDocumentation member, hsame, name_withoutDocumentation]

/-- Which members are kept is known without documentation. -/
theorem ToldApart.keptPositions_congr (h : ToldApart members) (ho : ToldApart others)
    (hw : ∀ member ∈ members, member.WellFormed kind)
    (hwo : ∀ member ∈ others, member.WellFormed kind)
    (hsame : members.map withoutDocumentation = others.map withoutDocumentation) :
    keptPositions members = keptPositions others := by
  classical
  calc keptPositions members
      = firstPositions (members.map withoutDocumentation) :=
        firstPositions_congr_key fun m hm m' hm' => h.key_eq_iff hw hm hm'
    _ = firstPositions (others.map withoutDocumentation) := by rw [hsame]
    _ = keptPositions others :=
        (firstPositions_congr_key fun m hm m' hm' => ho.key_eq_iff hwo hm hm').symm

/-- A name is in conflict iff members of that name differ apart from documentation. -/
theorem ToldApart.two_le_length_signaturesOf (h : ToldApart members)
    (hw : ∀ member ∈ members, member.WellFormed kind) {name : Text} :
    2 ≤ (signaturesOf members name).length
      ↔ ∃ m ∈ members.map withoutDocumentation, ∃ m' ∈ members.map withoutDocumentation,
        m.name = name ∧ m'.name = name ∧ m ≠ m' := by
  rw [SchemaStitch.two_le_length_signaturesOf]
  constructor
  · rintro ⟨m, hm, m', hm', hname, hname', hne⟩
    refine ⟨_, List.mem_map_of_mem hm, _, List.mem_map_of_mem hm', ?_, ?_, ?_⟩
    · rw [name_withoutDocumentation, hname]
    · rw [name_withoutDocumentation, hname']
    · exact fun hsame => hne ((h.signature_eq_iff hw hm hm').mpr hsame)
  · rintro ⟨_, hu, _, hu', hname, hname', hne⟩
    obtain ⟨m, hm, rfl⟩ := List.mem_map.mp hu
    obtain ⟨m', hm', rfl⟩ := List.mem_map.mp hu'
    rw [name_withoutDocumentation] at hname hname'
    exact ⟨m, hm, m', hm', hname, hname', fun hs =>
      hne ((h.signature_eq_iff hw hm hm').mp hs)⟩

/-- There is a conflict at each name that has two signatures or more, in the order of first
    members. -/
theorem places_disagreements (type : Text) (members : List Member) :
    (disagreements type members).map Conflict.place
      = ((firsts id [] (members.map name)).filter fun name =>
          2 ≤ (signaturesOf members name).length).map fun name => (type, name) := by
  rw [disagreements, List.filter_map, List.map_map]
  rfl

/-- Where conflicts are is known without documentation. -/
theorem ToldApart.places_congr (h : ToldApart members) (ho : ToldApart others)
    (hw : ∀ member ∈ members, member.WellFormed kind)
    (hwo : ∀ member ∈ others, member.WellFormed kind)
    (hsame : members.map withoutDocumentation = others.map withoutDocumentation) (type : Text) :
    (disagreements type members).map Conflict.place
      = (disagreements type others).map Conflict.place := by
  have hnames (list : List Member) :
      list.map name = (list.map withoutDocumentation).map name := by
    rw [List.map_map]
    exact List.map_congr_left fun member _ => member.name_withoutDocumentation.symm
  rw [places_disagreements, places_disagreements, hnames members, hnames others, hsame]
  refine congrArg (List.map _) (List.filter_congr fun name _ => decide_eq_decide.mpr ?_)
  rw [h.two_le_length_signaturesOf hw, ho.two_le_length_signaturesOf hwo, hsame]

end Member

/-! ## Documents whose members are told apart -/

/-- Lists with the same images have other images in common too, if these depend on the first. -/
theorem map_congr_of_map {α β γ : Type} {f : α → β} {g : α → γ} {items others : List α}
    (h : items.map f = others.map f)
    (hg : ∀ a ∈ items, ∀ b ∈ others, f a = f b → g a = g b) : items.map g = others.map g := by
  induction items generalizing others with
  | nil =>
      rw [List.map_nil, eq_comm, List.map_eq_nil_iff] at h
      rw [h, List.map_nil]
  | cons a rest ih =>
      cases others with
      | nil => cases h
      | cons b others =>
          obtain ⟨hfirst, hrest⟩ := List.cons.inj h
          refine List.cons_eq_cons.mpr ⟨?_, ih hrest fun c hc d hd => ?_⟩
          · exact hg a (List.mem_cons_self ..) b (List.mem_cons_self ..) hfirst
          · exact hg c (List.mem_cons_of_mem _ hc) d (List.mem_cons_of_mem _ hd)

namespace Block

/-- The members of a type without documentation are its members without theirs. -/
theorem nodes_withoutDocumentation (block : Block) :
    block.withoutDocumentation.nodes = block.nodes.map Member.withoutDocumentation :=
  Entry.nodes_map _ block.members

/-- Two types that are the same apart from documentation have their conflicts in the same places
    and keep the same members. -/
theorem agree_of_toldApart {block other : Block} (h : block.WellFormed) (ho : other.WellFormed)
    (hsame : block.withoutDocumentation = other.withoutDocumentation)
    (hapart : Member.ToldApart block.nodes) :
    block.conflicts.map Conflict.place = other.conflicts.map Conflict.place
      ∧ block.keptPositions = other.keptPositions := by
  have hname : block.name = other.name := (congrArg Block.name hsame :)
  have hkind : block.kind = other.kind := (congrArg Block.kind hsame :)
  have hnodes : block.nodes.map Member.withoutDocumentation
      = other.nodes.map Member.withoutDocumentation := by
    rw [← nodes_withoutDocumentation, hsame, nodes_withoutDocumentation]
  -- told apart without documentation is told apart under any
  have hapart' : Member.ToldApart other.nodes := by
    rw [Member.ToldApart, ← hnodes]
    exact hapart
  have hmembers := ho.members
  rw [← hkind] at hmembers
  constructor
  · rw [conflicts_eq, conflicts_eq, hname]
    exact hapart.places_congr hapart' h.members hmembers hnodes _
  · exact hapart.keptPositions_congr hapart' h.members hmembers hnodes

end Block

namespace Definition

theorem block?_withoutDocumentation (d : Definition) :
    d.withoutDocumentation.block? = d.block?.map Block.withoutDocumentation := by
  cases d with
  | type t => cases t <;> rfl
  | _ => rfl

end Definition

namespace Document

variable {document other : Document} {block : Block}

/-- Documents that differ in documentation only have types that do. -/
theorem SameButDocumentation.blocks (h : document.SameButDocumentation other) :
    document.blocks.map Block.withoutDocumentation
      = other.blocks.map Block.withoutDocumentation := by
  have hblocks (d : Document) : d.blocks.map Block.withoutDocumentation
      = (Entry.nodes (d.entries.map (Entry.map Definition.withoutDocumentation))).filterMap
          Definition.block? := by
    rw [Entry.nodes_map, Document.blocks, List.filterMap_map, List.map_filterMap]
    exact List.filterMap_congr fun d _ => d.block?_withoutDocumentation.symm
  rw [hblocks, hblocks, h]

/-- A type with members is one of the document's definitions. -/
theorem mem_blocks (h : block ∈ document.blocks) :
    Definition.type (.block block) ∈ document.definitions := by
  obtain ⟨d, hd, hblock⟩ := List.mem_filterMap.mp h
  cases d with
  | type t =>
      cases t with
      | block b =>
          obtain rfl := Option.some.inj hblock
          exact hd
      | _ => cases hblock
  | _ => cases hblock

/-- A type with members in a readable document is well formed. -/
theorem Readable.wellFormed_block (h : document.Readable) (hb : block ∈ document.blocks) :
    block.WellFormed :=
  h _ (mem_blocks hb)

/-- Documents agree that differ in documentation only, if that of members with arguments is not
    needed to tell them apart. -/
theorem agree_of_toldApart (h : document.Readable) (ho : other.Readable)
    (hsame : document.SameButDocumentation other)
    (hapart : ∀ block ∈ document.blocks, Member.ToldApart block.nodes) :
    document.AgreesWith other := by
  have hpair : ∀ b ∈ document.blocks, ∀ b' ∈ other.blocks,
      b.withoutDocumentation = b'.withoutDocumentation →
        b.conflicts.map Conflict.place = b'.conflicts.map Conflict.place
          ∧ b.keptPositions = b'.keptPositions := fun b hb b' hb' heq =>
    Block.agree_of_toldApart (h.wellFormed_block hb) (ho.wellFormed_block hb') heq (hapart b hb)
  have hconflicts (d : Document) : d.conflicts.map Conflict.place
      = (d.blocks.map fun b => b.conflicts.map Conflict.place).flatten := by
    rw [conflicts_eq, List.map_flatMap, List.flatMap_def]
  constructor
  · rw [hconflicts, hconflicts]
    exact congrArg List.flatten (map_congr_of_map hsame.blocks fun b hb b' hb' heq =>
      (hpair b hb b' hb' heq).1)
  · exact map_congr_of_map hsame.blocks fun b hb b' hb' heq => (hpair b hb b' hb' heq).2

end Document

/-! ## Describing arguments -/

/-- An argument with a text for its description. -/
def InputValue.labelled (label : Text) (input : InputValue) : InputValue :=
  { input with description := some ⟨label, false⟩ }

namespace Member

/-- A member whose arguments are all described by one text. -/
def labelled (label : Text) : Member → Member
  | .field f => .field { f with arguments := f.arguments.map (InputValue.labelled label) }
  | .input i => .input i
  | .value v => .value v

/-- Members whose arguments are described by the text for their position. -/
def labelAll (label : Nat → Text) : List (Entry Member) → List (Entry Member)
  | [] => []
  | .comment line :: rest => .comment line :: labelAll label rest
  | .node member :: rest =>
      .node (member.labelled (label 0)) :: labelAll (fun i => label (i + 1)) rest

/-- Labels are given out in the order of members; comments get none. -/
theorem nodes_labelAll (label : Nat → Text) (entries : List (Entry Member)) :
    Entry.nodes (labelAll label entries)
      = (Entry.nodes entries).mapIdx fun i member => member.labelled (label i) := by
  induction entries generalizing label with
  | nil => rfl
  | cons entry rest ih =>
      cases entry with
      | comment line => exact ih label
      | node member =>
          rw [labelAll, Entry.nodes_node, Entry.nodes_node, List.mapIdx_cons, ih]

/-- Labels are documentation. -/
theorem withoutDocumentation_labelled (label : Text) (member : Member) :
    (member.labelled label).withoutDocumentation = member.withoutDocumentation := by
  cases member with
  | field f =>
      rw [labelled, withoutDocumentation, withoutDocumentation, List.map_map]
      rfl
  | input i => rfl
  | value v => rfl

/-- Labelling changes documentation only. -/
theorem withoutDocumentation_labelAll (label : Nat → Text) (entries : List (Entry Member)) :
    (labelAll label entries).map (Entry.map withoutDocumentation)
      = entries.map (Entry.map withoutDocumentation) := by
  induction entries generalizing label with
  | nil => rfl
  | cons entry rest ih =>
      cases entry with
      | comment line => rw [labelAll, List.map_cons, List.map_cons, ih, Entry.map]
      | node member =>
          rw [labelAll, List.map_cons, List.map_cons, ih, Entry.map, withoutDocumentation_labelled,
            Entry.map]

/-- Labels replace the documentation that was there. -/
theorem withoutDescription_labelled (label : Text) (member : Member) :
    (member.labelled label).withoutDescription = member.withoutDocumentation.labelled label := by
  cases member with
  | field f =>
      rw [labelled, withoutDescription, withoutDocumentation, labelled, List.map_map]
      rfl
  | input i => rfl
  | value v => rfl

/-- The key of a labelled member does not depend on the documentation it had before. -/
theorem key_labelled (label : Text) (member : Member) :
    (member.labelled label).key = (member.withoutDocumentation.labelled label).key := by
  rw [← key_withoutDescription, withoutDescription_labelled]

theorem arguments_labelled (label : Text) (member : Member) :
    (member.labelled label).content.arguments
      = member.content.arguments.map (InputValue.labelled label) := by
  cases member <;> rfl

section

variable {kind : BlockKind} {member other : Member} {members : List Member} {first second : Text}

/-- A member can be read with any label that a string can spell. -/
theorem WellFormed.labelled (h : member.WellFormed kind) (label : Text) :
    (member.labelled label).WellFormed kind := by
  have hfield : ∀ {f : Field}, f.WellFormed → Field.WellFormed
      { f with arguments := f.arguments.map (InputValue.labelled label) } := by
    intro f hf
    refine ⟨hf.description, hf.name, fun argument harg => ?_, hf.type, hf.directives⟩
    obtain ⟨original, horiginal, rfl⟩ := List.mem_map.mp harg
    have hw := hf.arguments original horiginal
    refine ⟨fun literal hl => ?_, hw.name, hw.type, hw.defaultValue, hw.directives⟩
    -- a label is a quoted string, and these may hold anything
    obtain rfl := Option.some.inj hl
    trivial
  cases h with
  | object hf => exact .object (hfield hf)
  | interface hf => exact .interface (hfield hf)
  | input hi => exact .input hi
  | value hv => exact .value hv

/-- Members that take arguments are the same only with the same label. -/
theorem label_of_signature (h : member.WellFormed kind) (ho : other.WellFormed kind)
    (hargs : member.content.arguments ≠ [])
    (hs : (member.labelled first).signature = (other.labelled second).signature) :
    first = second := by
  have hcontent := content_of_signature (h.labelled first) (ho.labelled second) hs
  have hlabelled := congrArg Content.arguments hcontent
  rw [arguments_labelled, arguments_labelled] at hlabelled
  cases hmine : member.content.arguments with
  | nil => exact absurd hmine hargs
  | cons argument rest =>
      rw [hmine] at hlabelled
      cases htheirs : other.content.arguments with
      | nil =>
          rw [htheirs] at hlabelled
          cases hlabelled
      | cons another others =>
          rw [htheirs] at hlabelled
          have hargument := (List.cons.inj hlabelled).1
          have hdescription := Option.some.inj (congrArg InputValue.description hargument)
          exact congrArg StringLiteral.value hdescription

/-- Members are told apart if their labels do not matter. -/
theorem toldApart_of_keptPositions {label : Nat → Text} (hlabel : Function.Injective label)
    (hw : ∀ member ∈ members, member.WellFormed kind)
    (h : keptPositions (members.mapIdx fun _ member => member.labelled [])
      = keptPositions (members.mapIdx fun i member => member.labelled (label i))) :
    ToldApart members := by
  rw [ToldApart, List.pairwise_map, List.pairwise_iff_getElem]
  intro i j hi hj hij hargs hsame
  have hkeys (text : Nat → Text) {k : Nat} (hk : k < members.length) :
      ((members.mapIdx fun i member => member.labelled (text i)).map key)[k]?
        = some (members[k].labelled (text k)).key := by
    rw [List.getElem?_map, List.getElem?_mapIdx, List.getElem?_eq_getElem hk]
    rfl
  -- with one label for all, the earlier member has the key of the later one
  have hdropped : j ∉ keptPositions (members.mapIdx fun _ member => member.labelled []) := by
    intro hkept
    refine (mem_firstPositions.mp hkept).2 i hij ?_
    rw [hkeys (fun _ => []) hi, hkeys (fun _ => []) hj, key_labelled, hsame, ← key_labelled]
  -- with labels of their own, no earlier member has it
  have hkept : j ∈ keptPositions (members.mapIdx fun i member => member.labelled (label i)) := by
    refine mem_firstPositions.mpr ⟨?_, fun k hk hkey => ?_⟩
    · rw [List.length_map, List.length_mapIdx]
      exact hj
    · have hk' := Nat.lt_trans hk hj
      rw [hkeys label hk', hkeys label hj] at hkey
      have hs := congrArg Prod.snd (Option.some.inj hkey)
      have hargs' : members[j].content.arguments ≠ [] := by
        intro hnone
        rw [hsame, arguments_withoutDocumentation, hnone] at hargs
        exact hargs rfl
      have hlabels := label_of_signature (hw _ (List.getElem_mem hj)) (hw _ (List.getElem_mem hk'))
        hargs' hs.symm
      exact absurd (hlabel hlabels) (Nat.ne_of_gt hk)
  rw [← h] at hkept
  exact hdropped hkept

end

end Member

namespace Document

variable {document : Document}

/-- A document in which the arguments of members are described by the text for the position of
    the member in its type. -/
def labelled (label : Nat → Text) (document : Document) : Document :=
  document.mapMembers (Member.labelAll label)

/-- A labelled document differs from what it was in documentation only. -/
theorem sameButDocumentation_labelled (label : Nat → Text) (document : Document) :
    document.SameButDocumentation (document.labelled label) := by
  have hentry (entry : Entry Definition) : Entry.map Definition.withoutDocumentation
      (Entry.map (Definition.mapMembers (Member.labelAll label)) entry)
        = Entry.map Definition.withoutDocumentation entry := by
    cases entry with
    | comment line => rfl
    | node d =>
        cases d with
        | type t =>
            cases t with
            | block b =>
                refine congrArg (fun b => Entry.node (Definition.type (.block b))) ?_
                rw [Block.withoutDocumentation, Member.withoutDocumentation_labelAll]
                rfl
            | _ => rfl
        | _ => rfl
  rw [SameButDocumentation, labelled, mapMembers, List.map_map]
  exact List.map_congr_left fun entry _ => (hentry entry).symm

/-- A labelled document can be read as well. -/
theorem Readable.labelled (h : document.Readable) (label : Nat → Text) :
    (document.labelled label).Readable := by
  intro d hd
  rw [Document.labelled, definitions_mapMembers] at hd
  obtain ⟨original, horiginal, rfl⟩ := List.mem_map.mp hd
  have hw := h original horiginal
  cases original with
  | type t =>
      cases t with
      | block b =>
          have hb : b.WellFormed := hw
          refine ⟨hb.description, hb.name, hb.interfaces, hb.implements, hb.directives, ?_⟩
          intro member hmember
          change member ∈ Entry.nodes (Member.labelAll label b.members) at hmember
          rw [Member.nodes_labelAll, List.mem_mapIdx] at hmember
          obtain ⟨i, hi, rfl⟩ := hmember
          exact (hb.members _ (List.getElem_mem hi)).labelled _
      | _ => exact hw
  | _ => exact hw

/-- The kept positions of a labelled document are those of its labelled members, type by type. -/
theorem keptPositions_labelled (label : Nat → Text) (document : Document) :
    (document.labelled label).keptPositions = document.blocks.map fun block =>
      Member.keptPositions (block.nodes.mapIdx fun i member => member.labelled (label i)) := by
  rw [keptPositions, labelled, blocks_mapMembers, List.map_map]
  exact List.map_congr_left fun block _ =>
    congrArg Member.keptPositions (Member.nodes_labelAll label block.members)

/-- How far documentation decides which members of a document say the same. -/
structure DocumentationCounts (document : Document) : Prop where
  /-- The members at the kept positions are those that stay. -/
  kept : document.dedupe.blocks.map Block.nodes
    = document.blocks.map fun block => block.keptPositions.filterMap (block.nodes[·]?)
  /-- Descriptions of members and of whole definitions decide nothing, not even the signatures
      that conflicts list. -/
  own : ∀ other : Document, document.bareDefinitions = other.bareDefinitions →
    document.conflicts = other.conflicts ∧ document.keptPositions = other.keptPositions
  /-- Documentation decides nothing at all iff members that take arguments are told apart
      without it. -/
  agrees : (∀ other : Document, other.Readable → document.SameButDocumentation other →
      document.AgreesWith other)
    ↔ ∀ block ∈ document.blocks, Member.ToldApart block.nodes

/-- Of all documentation, descriptions of arguments alone may decide which members say the same,
    and they do where members differ in nothing else. -/
theorem agreesWith_iff_toldApart (h : document.Readable) : document.DocumentationCounts where
  kept := nodes_blocks_dedupe document
  own := fun _ hbare => conflicts_kept_of_bare hbare
  agrees := by
    constructor
    · intro hall block hblock
      have hagree (label : Nat → Text) :=
        (hall _ (h.labelled label) (sameButDocumentation_labelled label document)).kept
      have hboth := (hagree fun _ => []).symm.trans (hagree fun i => List.replicate i 'x')
      rw [keptPositions_labelled, keptPositions_labelled] at hboth
      have hlabel : Function.Injective fun i => List.replicate i 'x' := fun i j hij => by
        simpa using congrArg List.length hij
      exact Member.toldApart_of_keptPositions hlabel (h.wellFormed_block hblock).members
        (List.map_inj_left.mp hboth block hblock)
    · intro hapart other ho hsame
      exact agree_of_toldApart h ho hsame hapart

/-- A document that is read is readable. -/
theorem readable_of_parse {text : Text} (h : parse text = .ok document) : document.Readable :=
  fun d hd => ((parse_yields h).2.2 d hd).1

/-- A field in conflict, and one that stands twice and takes no arguments. -/
theorem documentationCounts_fields :
    let text : Text := r#"type Query { f(a: Int): Int f(b: Int): Int "x" g: Int g: Int }"#
    ∃ document, parse text = .ok document
      ∧ document.Readable ∧ document.DocumentationCounts := by
  intro text
  have hparse : (parse text).isOk = true := by decide +kernel +zetaReduce
  obtain ⟨document, hdocument⟩ := exists_document hparse
  have hreadable := readable_of_parse hdocument
  exact ⟨document, hdocument, hreadable, agreesWith_iff_toldApart hreadable⟩

end Document

/-- A type with a field that stands twice.  The argument that the field takes is described, if at
    all, in the first place. -/
def Definition.repeatedField (description : Option StringLiteral) : Definition :=
  .type (.block ⟨.object, none, "Query", [], [],
    [.node (.field ⟨none, "f", [⟨description, "a", .named "Int" false, none, []⟩],
        .named "Int" false, []⟩),
      .node (.field ⟨none, "f", [⟨none, "a", .named "Int" false, none, []⟩],
        .named "Int" false, []⟩)]⟩)

theorem wellFormed_repeatedField {description : Option StringLiteral}
    (h : ∀ literal ∈ description, literal.WellFormed) :
    (Definition.repeatedField description).WellFormed := by
  have htype : isName "Query" = true := by decide
  have hname : isName "f" = true := by decide
  have hargument : isName "a" = true := by decide
  have hint : (TypeRef.named "Int" false).WellFormed := ⟨by decide, Nat.zero_le _⟩
  have hfield : ∀ {described : Option StringLiteral}, (∀ literal ∈ described, literal.WellFormed) →
      Field.WellFormed ⟨none, "f", [⟨described, "a", .named "Int" false, none, []⟩],
        .named "Int" false, []⟩ := by
    intro described hd
    refine ⟨fun _ hl => (by cases hl), hname, List.forall_mem_singleton.mpr ?_, hint,
      fun _ hl => (by cases hl)⟩
    exact ⟨hd, hargument, hint, fun _ hl => (by cases hl), fun _ hl => (by cases hl)⟩
  refine ⟨fun _ hl => (by cases hl), htype, fun _ hl => (by cases hl),
    fun hne => absurd rfl hne, fun _ hl => (by cases hl), ?_⟩
  refine List.forall_mem_cons.mpr ⟨.object (hfield h), List.forall_mem_singleton.mpr ?_⟩
  exact .object (hfield fun _ hl => (by cases hl))

namespace Document

/-- A type with a field that stands twice in it. -/
def repeatedText : Text :=
  Text.join "\n" [r"type Query {", "  f(a: Int): Int", "  f(a: Int): Int", r"}"]

/-- The type with an argument of the field described in the first place. -/
def describedText : Text :=
  Text.join "\n"
    [r"type Query {", "  f(", r#"    "x""#, "    a: Int", "  ): Int", "  f(a: Int): Int", r"}"]

/-- A field stands twice in a type.  Once an argument of it is described in one of the two
    places, the field is in conflict with itself and both of them stay. -/
theorem not_agreesWith_described :
    ∃ document other,
      parse repeatedText = .ok document ∧ parse describedText = .ok other
      ∧ document.SameButDocumentation other
      ∧ document.conflicts.map Conflict.place = [] ∧ document.keptPositions = [[0]]
      ∧ other.conflicts.map Conflict.place = [⟨"Query", "f"⟩] ∧ other.keptPositions = [[0, 1]]
      ∧ ¬document.AgreesWith other := by
  have hplain := (wellFormed_repeatedField fun _ hl => (by cases hl)).parse_print
    (d := .repeatedField none) rfl
  have hdescribed := (wellFormed_repeatedField fun _ hl => (by
    obtain rfl := Option.some.inj hl
    trivial)).parse_print (d := .repeatedField (some ⟨"x", false⟩)) rfl
  have htext : (Definition.repeatedField none).printWithComments = repeatedText := by
    decide +kernel
  have htext' : (Definition.repeatedField (some ⟨"x", false⟩)).printWithComments = describedText := by
    decide +kernel
  rw [htext] at hplain
  rw [htext'] at hdescribed
  refine ⟨_, _, hplain, hdescribed, rfl, by decide +kernel, by decide +kernel, by decide +kernel,
    by decide +kernel, fun hagree => ?_⟩
  exact absurd hagree.kept (by decide +kernel)

end Document

end SchemaStitch
