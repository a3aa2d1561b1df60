import SchemaStitch.Proofs.Firsts
import SchemaStitch.Proofs.Spelling.Definition
import SchemaStitch.Stitching

/-! # What comments and descriptions leave alone

    Turning descriptions into comments puts comment lines in front of nodes and takes the
    descriptions off; the nodes themselves stay (`Entry.nodes_commented`), and each comment
    is one line in front of something (`Entry.attached_commented`).  Dropping repeated
    members keeps the first of each key, whatever comments there are
    (`Member.nodes_dedupe`). -/

namespace SchemaStitch

/-! ## Comment lines -/

/-- What ends a line for the lexer breaks a description into lines. -/
theorem Text.isLineBreak_of_isNewline {c : Char} (h : Text.isNewline c = true) :
    Text.isLineBreak c = true := by
  rw [Text.isNewline, Bool.or_eq_true, decide_eq_true_eq, decide_eq_true_eq] at h
  rcases h with rfl | rfl
  · rfl
  · rfl

/-- Trimming takes off the end only. -/
theorem Text.trimEnd_prefix (text : Text) : text.trimEnd <+: text := by
  induction text with
  | nil => exact List.prefix_rfl
  | cons c cs ih =>
      rw [Text.trimEnd]
      split
      · split
        · exact List.nil_prefix
        · exact ⟨cs, rfl⟩
      · next d ds heq =>
          rw [heq] at ih
          exact List.cons_prefix_cons.mpr ⟨rfl, ih⟩

/-- Leaving out an empty last part adds none. -/
theorem Text.mem_of_mem_dropEmptyLast {piece : Text} {parts : List Text}
    (h : piece ∈ Text.dropEmptyLast parts) : piece ∈ parts := by
  induction parts with
  | nil => exact h
  | cons part rest ih =>
      cases rest with
      | nil =>
          rw [Text.dropEmptyLast] at h
          split at h
          · cases h
          · exact h
      | cons next others =>
          rw [Text.dropEmptyLast] at h
          rcases List.mem_cons.mp h with rfl | h
          · exact List.mem_cons_self ..
          · exact List.mem_cons_of_mem _ (ih h)

/-- No comment line holds a line break. -/
theorem not_lineBreak_of_mem_commentLines {text line : Text} (h : line ∈ commentLines text) :
    ∀ c ∈ line, Text.isLineBreak c = false := by
  obtain ⟨piece, hpiece, rfl⟩ := List.mem_map.mp h
  have hp := Text.not_ends_of_mem_pieces (Text.mem_of_mem_dropEmptyLast hpiece)
  exact fun c hc => hp c ((Text.trimEnd_prefix piece).mem hc)

/-- A comment line goes over no line end. -/
theorem not_newline_of_mem_commentLines {text line : Text} (h : line ∈ commentLines text) :
    ∀ c ∈ line, Text.isNewline c = false := by
  intro c hc
  rw [Bool.eq_false_iff]
  intro hn
  have hbreak := Text.isLineBreak_of_isNewline hn
  rw [not_lineBreak_of_mem_commentLines h c hc] at hbreak
  exact Bool.false_ne_true hbreak

/-- A comment line for a description is one line to the lexer. -/
theorem not_newline_of_mem_descriptionLines {description : Option StringLiteral} {line : Text}
    (h : line ∈ descriptionLines description) : ∀ c ∈ line, Text.isNewline c = false := by
  cases description with
  | none => cases h
  | some literal => exact not_newline_of_mem_commentLines h

namespace Entry

variable {α : Type}

/-- Comment lines in front of something are attached to it. -/
theorem Attached.comments {lines : List Text} {entries : List (Entry α)} (h : Attached entries)
    (hl : ∀ line ∈ lines, ∀ c ∈ line, Text.isNewline c = false) (hne : entries ≠ []) :
    Attached (lines.map .comment ++ entries) := by
  induction lines with
  | nil => exact h
  | cons line rest ih =>
      refine .comment (hl line (List.mem_cons_self ..)) ?_
        (ih fun other hother => hl other (List.mem_cons_of_mem _ hother))
      exact fun heq => hne (List.append_eq_nil_iff.mp heq).2

variable [Documented α]

/-- Entries are commented one by one. -/
theorem commented_cons (entry : Entry α) (rest : List (Entry α)) :
    commented (entry :: rest) = withComments entry.documented ++ commented rest :=
  rfl

/-- The comments for a node stand in front of it, and its description goes. -/
theorem withComments_node (value : α) :
    withComments (documented (.node value))
      = (descriptionLines (Documented.description value)).map .comment
        ++ [.node (Documented.withoutDescription value)] :=
  rfl

/-- The comments for a node leave one node, without its description. -/
theorem nodes_withComments (value : α) :
    nodes (withComments (documented (.node value))) = [Documented.withoutDescription value] := by
  rw [withComments_node, nodes_append, nodes_map_comment]
  rfl

/-- The comments for a description are attached to what is behind them. -/
theorem attached_withComments (value : α) {rest : List (Entry α)} (h : Attached rest) :
    Attached (withComments (documented (.node value)) ++ rest) := by
  rw [withComments_node, List.append_assoc]
  refine Attached.comments (.node _ h) ?_ (List.cons_ne_nil _ _)
  exact fun line hline => not_newline_of_mem_descriptionLines hline

/-- The comments for a node are lines in front of it. -/
theorem attached_withComments_node (value : α) :
    Attached (withComments (documented (.node value))) := by
  have hattached := attached_withComments value .nil
  rwa [List.append_nil] at hattached

theorem withComments_ne_nil (value : α) : withComments (documented (.node value)) ≠ [] := by
  rw [withComments_node]
  simp

/-- Turning descriptions into comments takes them off the nodes. -/
theorem nodes_commented (entries : List (Entry α)) :
    nodes (commented entries) = (nodes entries).map Documented.withoutDescription := by
  induction entries with
  | nil => rfl
  | cons entry rest ih =>
      rw [commented_cons, nodes_append, ih]
      cases entry with
      | comment line => rfl
      | node value =>
          rw [nodes_withComments]
          rfl

/-- Entries do not get lost by being commented. -/
theorem commented_ne_nil {entries : List (Entry α)} (h : entries ≠ []) :
    commented entries ≠ [] := by
  obtain ⟨entry, rest, rfl⟩ := List.exists_cons_of_ne_nil h
  rw [commented_cons, withComments]
  simp

/-- Commented entries have their comments in front of something, if they had them there before. -/
theorem attached_commented {entries : List (Entry α)} (h : Attached entries) :
    Attached (commented entries) := by
  induction h with
  | nil => exact .nil
  | node value _ ih => exact attached_withComments value ih
  | comment hl hne _ ih => exact .comment hl (commented_ne_nil hne) ih

end Entry

/-! ## Repeated members -/

namespace Member

/-- What a member is told by does not depend on its description. -/
theorem key_withoutDescription (member : Member) : member.withoutDescription.key = member.key := by
  cases member <;> rfl

/-- Dropping repeats keeps the first member of each key that is not among those seen, whatever
    comments are pending. -/
theorem nodes_dedupeFrom (seen : List (Text × Text)) (pending : List Text)
    (entries : List (Entry Member)) :
    Entry.nodes (dedupeFrom seen pending entries) = firsts key seen (Entry.nodes entries) := by
  induction entries generalizing seen pending with
  | nil => exact Entry.nodes_map_comment pending
  | cons entry rest ih =>
      cases entry with
      | comment line => exact ih seen (pending ++ [line])
      | node member =>
          rw [dedupeFrom, Entry.nodes_node]
          by_cases hs : member.key ∈ seen
          · rw [if_pos (List.contains_iff_mem.mpr hs), firsts_cons_pos hs, ih]
          · rw [if_neg fun hc => hs (List.contains_iff_mem.mp hc), firsts_cons_neg hs,
              Entry.nodes_append, Entry.nodes_map_comment, Entry.nodes_node, ih]
            rfl

/-- The first member of each key is kept. -/
theorem nodes_dedupe (entries : List (Entry Member)) :
    Entry.nodes (dedupe entries) = firsts key [] (Entry.nodes entries) :=
  nodes_dedupeFrom [] [] entries

/-- Pending comments stay in front of the member that they wait for, or go with it. -/
theorem attached_dedupeFrom {seen : List (Text × Text)} {pending : List Text}
    {entries : List (Entry Member)} (h : Entry.Attached entries)
    (hl : ∀ line ∈ pending, ∀ c ∈ line, Text.isNewline c = false)
    (hne : pending ≠ [] → entries ≠ []) : Entry.Attached (dedupeFrom seen pending entries) := by
  induction h generalizing seen pending with
  | nil =>
      rw [not_ne_iff.mp fun hp => hne hp rfl]
      exact .nil
  | @node member rest _ ih =>
      rw [dedupeFrom]
      have hrest (seen : List (Text × Text)) : Entry.Attached (dedupeFrom seen [] rest) :=
        ih (fun _ h => by cases h) fun h => absurd rfl h
      split
      · exact hrest seen
      · exact Entry.Attached.comments (.node _ (hrest _)) hl (List.cons_ne_nil _ _)
  | @comment line rest hline hrest _ ih =>
      refine ih (fun other hother => ?_) fun _ => hrest
      rcases List.mem_append.mp hother with hother | hother
      · exact hl other hother
      · rw [List.mem_singleton.mp hother]
        exact hline

/-- Dropping repeats leaves each comment in front of something. -/
theorem attached_dedupe {entries : List (Entry Member)} (h : Entry.Attached entries) :
    Entry.Attached (dedupe entries) :=
  attached_dedupeFrom h (fun _ h => by cases h) fun h => absurd rfl h

end Member

/-! ## Bare definitions -/

/-- The members of a type without their descriptions and without comments. -/
def Block.bareMembers (block : Block) : List Member :=
  (Entry.nodes block.members).map Member.withoutDescription

/-- A type as it is read back from its printed form. -/
def Block.bare (block : Block) : Block :=
  { block with
    description := none
    members := (Entry.nodes block.members).map fun member => .node member.withoutDescription }

theorem Member.withoutDescription_withoutDescription (member : Member) :
    member.withoutDescription.withoutDescription = member.withoutDescription := by
  cases member <;> rfl

/-- A member can be read without its description as with it. -/
theorem Member.WellFormed.withoutDescription {kind : BlockKind} {member : Member}
    (h : member.WellFormed kind) : member.withoutDescription.WellFormed kind := by
  have hnone : ∀ literal ∈ (none : Option StringLiteral), literal.WellFormed :=
    fun _ h => by cases h
  cases h with
  | object h => exact .object ⟨hnone, h.name, h.arguments, h.type, h.directives⟩
  | interface h => exact .interface ⟨hnone, h.name, h.arguments, h.type, h.directives⟩
  | input h => exact .input ⟨hnone, h.name, h.type, h.defaultValue, h.directives⟩
  | value h => exact .value ⟨hnone, h.name, h.notReserved, h.directives⟩

namespace Block

/-- A bare type holds no comments. -/
theorem bare_members (block : Block) : block.bare.members = block.bareMembers.map .node :=
  List.map_map.symm

theorem bare_eq (block : Block) :
    block.bare = { block with description := none, members := block.bareMembers.map .node } := by
  rw [← bare_members]
  rfl

/-- The bare members of a bare type are its members. -/
theorem bareMembers_bare (block : Block) : block.bare.bareMembers = block.bareMembers := by
  rw [bareMembers, bare_members, Entry.nodes_map_node, bareMembers, List.map_map]
  exact List.map_congr_left fun member _ => member.withoutDescription_withoutDescription

/-- Nothing is left to take off a bare type. -/
theorem bare_bare (block : Block) : block.bare.bare = block.bare := by
  rw [bare_eq block.bare, bareMembers_bare, ← bare_members]
  rfl

/-- Comments for the descriptions of members are no part of the bare type. -/
theorem bareMembers_withCommentedMembers (block : Block) :
    block.withCommentedMembers.bareMembers = block.bareMembers := by
  rw [bareMembers, withCommentedMembers, Entry.nodes_commented, List.map_map]
  exact List.map_congr_left fun member _ => member.withoutDescription_withoutDescription

/-- Commenting the members of a type leaves its bare form alone. -/
theorem bare_withCommentedMembers (block : Block) :
    block.withCommentedMembers.bare = block.bare := by
  rw [bare_eq, bareMembers_withCommentedMembers, ← bare_members]
  rfl

/-- The bare form of what can be read can be read. -/
theorem WellFormed.bare {block : Block} (h : block.WellFormed) : block.bare.WellFormed where
  description := fun _ hd => by cases hd
  name := h.name
  interfaces := h.interfaces
  implements := h.implements
  directives := h.directives
  members := by
    intro member hmember
    rw [bare_members, Entry.nodes_map_node] at hmember
    obtain ⟨original, horiginal, rfl⟩ := List.mem_map.mp hmember
    exact (h.members original horiginal).withoutDescription

/-- A type of which every member has its comments and no description. -/
structure Settled (block : Block) : Prop where
  wellFormed : ({ block with description := none } : Block).WellFormed
  attached : Entry.Attached block.members
  undocumented : ∀ member ∈ Entry.nodes block.members, member.withoutDescription = member

/-- Where descriptions are gone, bare members are the members as they are. -/
theorem Settled.bareMembers {block : Block} (h : block.Settled) :
    block.bareMembers = Entry.nodes block.members := by
  rw [Block.bareMembers, List.map_congr_left h.undocumented, List.map_id']

/-- Where descriptions are gone, the bare form of a type spells the tokens of the type. -/
theorem Settled.bareTokens {block : Block} (h : block.Settled) :
    (TypeDefinition.block block.bare).bareTokens = (TypeDefinition.block block).bareTokens := by
  show block.headerTokens ++ encloseTokens _ _ ((Entry.nodes block.bare.members).map Member.tokens)
    = block.headerTokens ++ encloseTokens _ _ ((Entry.nodes block.members).map Member.tokens)
  rw [bare_members, Entry.nodes_map_node, h.bareMembers]

/-- A type is settled by turning the descriptions of its members into comments. -/
theorem settled_withCommentedMembers {block : Block} (h : block.bare.WellFormed)
    (ha : Entry.Attached block.members) : block.withCommentedMembers.Settled := by
  have hnodes : Entry.nodes block.withCommentedMembers.members = block.bareMembers :=
    Entry.nodes_commented block.members
  have hbare : Entry.nodes block.bare.members = block.bareMembers := by
    rw [bare_members, Entry.nodes_map_node]
  refine ⟨⟨h.description, h.name, h.interfaces, h.implements, h.directives, ?_⟩,
    Entry.attached_commented ha, ?_⟩
  · intro member hmember
    refine h.members member ?_
    rw [hbare, ← hnodes]
    exact hmember
  · intro member hmember
    rw [hnodes] at hmember
    obtain ⟨original, -, rfl⟩ := List.mem_map.mp hmember
    exact original.withoutDescription_withoutDescription

end Block

namespace Definition

theorem bare_bare (d : Definition) : d.bare.bare = d.bare := by
  cases d with
  | type t =>
      cases t with
      | block b => exact congrArg (fun b => type (.block b)) b.bare_bare
      | _ => rfl
  | _ => rfl

/-- The bare form has no description to begin with. -/
theorem bare_withoutDescription (d : Definition) : d.withoutDescription.bare = d.bare := by
  cases d with
  | type t => cases t <;> rfl
  | _ => rfl

theorem bare_withCommentedMembers (d : Definition) : d.withCommentedMembers.bare = d.bare := by
  cases d with
  | type t =>
      cases t with
      | block b => exact congrArg (fun b => type (.block b)) b.bare_withCommentedMembers
      | _ => rfl
  | _ => rfl

/-- The bare form of a definition has its name. -/
theorem name?_bare (d : Definition) : d.bare.name? = d.name? := by
  cases d with
  | type t => cases t <;> rfl
  | _ => rfl

theorem isSchema_bare (d : Definition) : d.bare.isSchema = d.isSchema := by
  cases d with
  | type t => cases t <;> rfl
  | _ => rfl

/-- The bare form of an object type is an object type. -/
theorem object?_bare (d : Definition) : d.bare.object? = d.object?.map Block.bare := by
  cases d with
  | type t =>
      cases t with
      | block b =>
          show (if b.kind = .object then some b.bare else none)
            = (if b.kind = .object then some b else none).map Block.bare
          split
          · rfl
          · rfl
      | _ => rfl
  | _ => rfl

/-- Whether a definition is gathered does not depend on its descriptions and comments. -/
theorem gathered?_bare (all : Bool) (names : List Text) (d : Definition) :
    d.bare.gathered? all names = (d.gathered? all names).map Block.bare := by
  rw [gathered?, object?_bare, gathered?]
  cases d.object? with
  | none => rfl
  | some b =>
      show (some b.bare).filter _ = ((some b).filter _).map Block.bare
      rw [Option.filter_some, Option.filter_some]
      show (if (all || names.contains b.name) = true then some b.bare else none) = _
      split
      · rfl
      · rfl

/-- A definition can be read without its description as with it. -/
theorem WellFormed.withoutDescription {d : Definition} (h : d.WellFormed) :
    d.withoutDescription.WellFormed := by
  have hnone : ∀ literal ∈ (none : Option StringLiteral), literal.WellFormed :=
    fun _ h => by cases h
  -- everything but the description is carried over
  cases d with
  | schema s => exact ⟨⟨hnone, h.1.directives, h.1.operations⟩, h.2⟩
  | type t =>
      cases t with
      | scalar s =>
          have hs : s.WellFormed := h
          exact ⟨hnone, hs.name, hs.directives⟩
      | block b =>
          have hb : b.WellFormed := h
          exact ⟨hnone, hb.name, hb.interfaces, hb.implements, hb.directives, hb.members⟩
      | union u =>
          have hu : u.WellFormed := h
          exact ⟨hnone, hu.name, hu.directives, hu.types⟩
  | directive d =>
      have hd : d.WellFormed := h
      exact ⟨hnone, hd.name, hd.arguments, hd.locations⟩
  | extendSchema s => exact h
  | extendType t => exact h
  | operation o =>
      have ho : o.WellFormed := h
      exact ⟨hnone, ho.name, ho.variableDefinitions, ho.directives, ho.selections⟩
  | fragment f =>
      have hf : f.WellFormed := h
      exact ⟨hnone, hf.name, hf.nameNotOn, hf.typeCondition, hf.directives, hf.selections⟩

theorem WellFormed.bare {d : Definition} (h : d.WellFormed) : d.bare.WellFormed := by
  cases d with
  | type t =>
      cases t with
      | block b => exact Block.WellFormed.bare h
      | _ => exact h.withoutDescription
  | _ => exact h.withoutDescription

/-- A definition of which every member has its comments and no description. -/
structure Settled (d : Definition) : Prop where
  wellFormed : d.withoutDescription.WellFormed
  attached : Entry.Attached d.body
  uncommented : d.bare.Uncommented
  undocumented : ∀ block ∈ d.block?, ∀ member ∈ Entry.nodes block.members,
    member.withoutDescription = member

theorem Settled.block {b : Block} (h : (Definition.type (.block b)).Settled) : b.Settled :=
  ⟨h.wellFormed, h.attached, h.undocumented b rfl⟩

/-- But for comments and its own description, a settled definition is bare. -/
theorem Settled.tokens {d : Definition} (h : d.Settled) :
    d.bare.tokens = d.withoutDescription.tokens := by
  cases d with
  | type t =>
      cases t with
      | block b => exact h.block.bareTokens
      | _ => rfl
  | _ => rfl

/-- Taking off the description leaves the members alone. -/
theorem body_withoutDescription (d : Definition) : d.withoutDescription.body = d.body := by
  cases d with
  | type t => cases t <;> rfl
  | _ => rfl

theorem withoutDescription_withoutDescription (d : Definition) :
    d.withoutDescription.withoutDescription = d.withoutDescription := by
  cases d with
  | type t => cases t <;> rfl
  | _ => rfl

/-- A definition stays settled without its own description. -/
theorem Settled.withoutDescription {d : Definition} (h : d.Settled) :
    d.withoutDescription.Settled where
  wellFormed := by
    rw [withoutDescription_withoutDescription]
    exact h.wellFormed
  attached := by
    rw [body_withoutDescription]
    exact h.attached
  uncommented := by
    rw [bare_withoutDescription]
    exact h.uncommented
  undocumented := by
    cases d with
    | type t =>
        cases t with
        | block b =>
            rintro _ ⟨⟩
            exact h.undocumented b rfl
        | _ => exact fun _ h => by cases h
    | _ => exact fun _ h => by cases h

/-- The bare form of a settled definition can be read. -/
theorem Settled.bare {d : Definition} (h : d.Settled) : d.bare.WellFormed := by
  rw [← bare_withoutDescription]
  exact h.wellFormed.bare

/-- A settled type is a settled definition. -/
theorem settled_block {b : Block} (h : b.Settled) : (Definition.type (.block b)).Settled where
  wellFormed := h.wellFormed
  attached := h.attached
  uncommented := by
    show b.bare.members = (Entry.nodes b.bare.members).map Entry.node
    rw [Block.bare_members, Entry.nodes_map_node]
  undocumented := by
    rintro _ ⟨⟩
    exact h.undocumented

/-- A definition without comments is settled by turning the descriptions of its members into
    comments. -/
theorem settled_withCommentedMembers {d : Definition} (h : d.bare.WellFormed)
    (hu : d.Uncommented) : d.withCommentedMembers.Settled := by
  have hattached : Entry.Attached d.body := by
    rw [show d.body = _ from hu]
    exact Entry.attached_map_node _
  cases d with
  | type t =>
      cases t with
      | block b => exact settled_block (Block.settled_withCommentedMembers h hattached)
      | _ => exact ⟨h, hattached, rfl, fun _ h => by cases h⟩
  | extendType t => exact ⟨h, hattached, hu, fun _ h => by cases h⟩
  | _ => exact ⟨h, hattached, rfl, fun _ h => by cases h⟩

end Definition

end SchemaStitch
