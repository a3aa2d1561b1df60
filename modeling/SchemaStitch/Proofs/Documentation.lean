import SchemaStitch.Proofs.Increment
import SchemaStitch.Proofs.Printed
import SchemaStitch.Proofs.Segments

/-! # Documentation in place

    Descriptions become comments at three places: at the members of a type that is gathered, at
    the heading of a group, and at what passes through together with its members.  Dropping
    repeated members and laying out the text come after that.  In the end every definition and
    every member stands right behind the comments for its own description, and nothing else is
    between them (`Options.stitch_documents`).  The comments lose blanks only
    (`visible_commentLines`). -/

namespace SchemaStitch

open SchemaStitch.Groups

/-! ## The text of comments -/

namespace Text

/-- The characters of a text but for blanks. -/
def visible (text : Text) : Text :=
  text.filter fun c => !isBlank c

/-- Line breaks are blank. -/
theorem isBlank_of_isLineBreak {c : Char} (h : isLineBreak c = true) : isBlank c = true := by
  simp only [isLineBreak, isBlank, Bool.or_eq_true, Bool.and_eq_true, decide_eq_true_eq] at h ⊢
  omega

/-- Visible characters are found part by part. -/
theorem visible_append (first second : Text) :
    (first ++ second).visible = first.visible ++ second.visible :=
  List.filter_append ..

theorem visible_cons_blank {c : Char} (h : isBlank c = true) (text : Text) :
    visible (c :: text) = text.visible :=
  List.filter_cons_of_neg (by simp [h])

/-- Trimming takes off nothing visible. -/
theorem visible_trimEnd (text : Text) : text.trimEnd.visible = text.visible := by
  induction text with
  | nil => rfl
  | cons c cs ih =>
      have hsplit (cs : Text) : visible (c :: cs) = visible [c] ++ cs.visible :=
        visible_append [c] cs
      rw [trimEnd]
      split
      · next hnil =>
          -- nothing but blanks is behind this character
          rw [hnil] at ih
          rw [hsplit cs, ← ih]
          split
          · next hblank =>
              rw [visible_cons_blank hblank]
              rfl
          · exact (List.append_nil _).symm
      · next d ds heq =>
          rw [heq] at ih
          rw [hsplit, hsplit cs, ih]

/-- Leaving out an empty last part loses no characters. -/
theorem flatten_dropEmptyLast (parts : List Text) :
    (dropEmptyLast parts).flatten = parts.flatten := by
  induction parts with
  | nil => rfl
  | cons part rest ih =>
      cases rest with
      | nil =>
          rw [dropEmptyLast]
          split
          · next hempty =>
              rw [List.isEmpty_iff.mp hempty]
              rfl
          · rfl
      | cons next others =>
          rw [dropEmptyLast, List.flatten_cons, ih]
          rfl

/-- Between the pieces of a text stand blanks only, if it is cut at blanks. -/
theorem visible_flatten_pieces {ends : Char → Bool} (h : ∀ c, ends c = true → isBlank c = true)
    (text : Text) : visible (pieces ends text).flatten = text.visible := by
  -- the cases of the cut: a carriage return and the line feed behind it are one end
  induction text using pieces.induct ends with
  | case1 => rfl
  | case2 cs ih =>
      rw [visible_cons_blank rfl, visible_cons_blank rfl, ← ih]
      rfl
  | case3 c cs hcr hc ih =>
      rw [pieces.eq_3 _ _ _ hcr, if_pos hc, List.flatten_cons, List.nil_append, ih,
        visible_cons_blank (h c hc)]
  | case4 c cs hcr hc hcs ih => exact absurd hcs (pieces_ne_nil ends cs)
  | case5 c cs hcr hc first rest hcs ih =>
      rw [hcs] at ih
      rw [pieces.eq_3 _ _ _ hcr, if_neg hc, hcs]
      show visible ([c] ++ (first :: rest).flatten) = visible ([c] ++ cs)
      rw [visible_append, visible_append, ih]

end Text

/-- The comment lines for a text hold all of it but blanks. -/
theorem visible_commentLines (text : Text) :
    Text.visible (commentLines text).flatten = text.visible := by
  have htrim : ∀ lines : List Text,
      Text.visible (lines.map Text.trimEnd).flatten = Text.visible lines.flatten := by
    intro lines
    induction lines with
    | nil => rfl
    | cons line rest ih =>
        rw [List.map_cons, List.flatten_cons, List.flatten_cons, Text.visible_append,
          Text.visible_append, Text.visible_trimEnd, ih]
  rw [commentLines, htrim, Text.paragraphLines, Text.flatten_dropEmptyLast]
  exact Text.visible_flatten_pieces (fun _ hc => Text.isBlank_of_isLineBreak hc) text

/-! ## The layout -/

/-- Comment lines, each of them behind a margin and with its line end. -/
def printComments (margin : Text) (lines : List Text) : Text :=
  lines.flatMap fun line => margin ++ (printComment line ++ ['\n'])

/-- A member as a line or more between braces: the comments for its description, then the member
    without it. -/
def Member.printDocumented (member : Member) : Text :=
  printComments "  " (descriptionLines member.description) ++ member.withoutDescription.print.indent

/-- A type: the comments for its description, its header, and between braces its members with
    theirs. -/
def Block.printDocumented (block : Block) : Text :=
  printComments [] (descriptionLines block.description)
    ++ (Text.joinPresent " " block.header
      ++ if (Entry.nodes block.members).isEmpty then []
        else ([' ', '{', '\n'] : Text)
          ++ Text.join "\n" ((Entry.nodes block.members).map Member.printDocumented)
          ++ (['\n', '}'] : Text))

/-- A definition: the comments for its description, then the definition without it. -/
def Definition.printDocumented : Definition → Text
  | .type (.block block) => block.printDocumented
  | d => printComments [] (descriptionLines d.description) ++ d.withoutDescription.print

/-- Comments and a definition in a row are printed under each other. -/
theorem printEntries_comments (lines : List Text) (d : Definition) :
    printEntries (lines.map .comment ++ [.node d])
      = printComments [] lines ++ d.printWithComments := by
  induction lines with
  | nil => exact List.append_nil _
  | cons line rest ih =>
      have hne : rest.map Entry.comment ++ [.node d] ≠ [] := by simp
      show printComment line ++ printEntriesAfter "\n" (rest.map .comment ++ [.node d]) = _
      rw [printEntriesAfter_eq _ hne, ih]
      show _ = (printComment line ++ ['\n'] ++ printComments [] rest) ++ d.printWithComments
      simp only [List.append_assoc]
      rfl

/-- Among members, comments are printed in front of what is behind them. -/
theorem join_comments {lines : List Text} (h : ∀ line ∈ lines, ∀ c ∈ line, Text.isNewline c = false)
    {entries : List (Entry Member)} (hne : entries ≠ []) :
    Text.join "\n"
        ((lines.map Entry.comment ++ entries).map fun entry => (Entry.printMember entry).indent)
      = printComments "  " lines
        ++ Text.join "\n" (entries.map fun entry => (Entry.printMember entry).indent) := by
  induction lines with
  | nil => rfl
  | cons line rest ih =>
      have hrest := ih fun other hother => h other (List.mem_cons_of_mem _ hother)
      have hindent : (printComment line).indent = "  " ++ printComment line :=
        indent_printComment (h line (List.mem_cons_self ..))
      have hbehind : (rest.map Entry.comment ++ entries).map
          (fun entry => (Entry.printMember entry).indent) ≠ [] := by simp [hne]
      show Text.join "\n" ((printComment line).indent
        :: (rest.map Entry.comment ++ entries).map
          fun entry => (Entry.printMember entry).indent) = _
      rw [Text.join_cons hbehind, hrest, hindent]
      show _ = ("  " ++ (printComment line ++ ['\n']) ++ printComments "  " rest) ++ _
      simp only [List.append_assoc]
      rfl

/-- Members whose descriptions became comments are printed one by one, each with its own. -/
theorem join_commented (members : List Member) :
    Text.join "\n"
        ((Entry.commented (members.map .node)).map fun entry =>
          (Entry.printMember entry).indent)
      = Text.join "\n" (members.map Member.printDocumented) := by
  induction members with
  | nil => rfl
  | cons member rest ih =>
      have hlines : ∀ line ∈ descriptionLines member.description, ∀ c ∈ line,
          Text.isNewline c = false := fun _ hline => not_newline_of_mem_descriptionLines hline
      rw [List.map_cons, Entry.commented_cons, Entry.withComments_node, List.append_assoc,
        List.singleton_append]
      refine (join_comments hlines (List.cons_ne_nil _ _)).trans ?_
      show printComments "  " (descriptionLines member.description)
        ++ Text.join "\n" (member.withoutDescription.print.indent
          :: (Entry.commented (rest.map .node)).map
            fun entry => (Entry.printMember entry).indent) = _
      -- a line end stands behind a member only where another member follows
      cases rest with
      | nil =>
          show _ ++ Text.join "\n" [member.withoutDescription.print.indent]
            = Text.join "\n" [member.printDocumented]
          rw [Text.join, List.intercalate_singleton, Text.join, List.intercalate_singleton]
          rfl
      | cons next others =>
          have hne : (Entry.commented ((next :: others).map .node)).map
              (fun entry => (Entry.printMember entry).indent) ≠ [] := by
            simp [Entry.commented_ne_nil]
          have hbehind : (next :: others).map Member.printDocumented ≠ [] := by simp
          show _ = Text.join "\n" (member.printDocumented
            :: (next :: others).map Member.printDocumented)
          rw [Text.join_cons hne, ih, Text.join_cons hbehind, Member.printDocumented,
            List.append_assoc]

theorem Block.printWithComments_documented {block : Block} (h : block.Plain) :
    (printComments [] (descriptionLines block.description)
        ++ Block.printWithComments { block.withCommentedMembers with description := none })
      = block.printDocumented := by
  have hbody : Entry.printBody (Entry.commented block.members)
      = if (Entry.nodes block.members).isEmpty then []
        else ([' ', '{', '\n'] : Text)
          ++ Text.join "\n" ((Entry.nodes block.members).map Member.printDocumented)
          ++ (['\n', '}'] : Text) := by
    rw [h, Entry.nodes_map_node, Entry.printBody, join_commented]
    cases Entry.nodes block.members with
    | nil => rfl
    | cons member rest =>
        have hne := Entry.commented_ne_nil (List.cons_ne_nil (Entry.node member) (rest.map .node))
        rw [if_neg (by simpa using hne)]
        rfl
  rw [printDocumented, Block.printWithComments_eq, ← hbody]
  rfl

/-- What stands behind a blank line is the definition with all its documentation. -/
theorem Definition.printEntries_documented {d : Definition} (h : d.Uncommented) :
    printEntries (Entry.withComments (Entry.documented (.node d.withCommentedMembers)))
      = d.printDocumented := by
  rw [Entry.withComments_node]
  refine (printEntries_comments _ _).trans ?_
  cases d with
  | type t =>
      cases t with
      | block b => exact Block.printWithComments_documented h
      | _ => rfl
  | _ => rfl

/-! ## Groups with their comments -/

namespace Member

/-- A member behind the comments for its description. -/
def documentedSegment (member : Member) : Segment :=
  ⟨descriptionLines member.description, member.withoutDescription⟩

/-- Commented members are segments: each with the comments for its description. -/
theorem commented_eq_entries (members : List Member) :
    Entry.commented (members.map .node)
      = Segmented.entries ⟨members.map documentedSegment, []⟩ := by
  rw [Entry.commented, List.flatMap_map, Segmented.entries, List.flatMap_map, List.map_nil,
    List.append_nil]
  rfl

/-- A repeated member goes with the comments for its description, and the other members keep
    theirs. -/
theorem dedupe_commented (members : List Member) :
    dedupe (Entry.commented (members.map .node))
      = Entry.commented ((firsts key [] members).map .node) := by
  have hkey : (fun member => (documentedSegment member).key) = key :=
    funext fun member => key_withoutDescription member
  rw [commented_eq_entries, dedupe_entries, Segmented.distinct, firsts_map, hkey,
    commented_eq_entries]

end Member

/-- Members may be commented before or after types are combined. -/
theorem Groups.combined_withCommentedMembers (blocks : List Block) :
    combined (blocks.map Block.withCommentedMembers)
      = (combined blocks).map Block.withCommentedMembers := by
  cases blocks with
  | nil => rfl
  | cons first rest =>
      have hmembers : Entry.commented first.members
          ++ (rest.map Block.withCommentedMembers).flatMap Block.members
          = Entry.commented (first.members ++ rest.flatMap Block.members) := by
        rw [Entry.commented, Entry.commented, List.flatMap_append, List.flatMap_map,
          List.flatMap_assoc]
        rfl
      show some { first.withCommentedMembers with members := Entry.commented first.members
          ++ (rest.map Block.withCommentedMembers).flatMap Block.members } = _
      rw [hmembers]
      rfl

namespace Options

variable {o : Options} {definitions : List Definition} {block : Block} {blocks : List Block}

/-- They may be commented before or after repeats are dropped. -/
theorem dedupeGroup_withCommentedMembers (o : Options) (h : block.Plain) :
    o.dedupeGroup block.withCommentedMembers = (o.dedupeGroup block).withCommentedMembers := by
  rw [o.dedupeGroup_eq h, dedupeGroup, distinct]
  split
  · show { block.withCommentedMembers with
        members := Member.dedupe (Entry.commented block.members) } = _
    rw [h, Entry.nodes_map_node, Member.dedupe_commented]
    rfl
  · rw [← h]

/-- What types of one name are gathered into: the heading of the first of them, with the members of
    all of them. -/
def gatheredType (o : Options) : List Block → Option Block
  | [] => none
  | first :: rest =>
      some { first with members := (o.distinct (memberNodes (first :: rest))).map .node }

/-- The definitions behind the schema declaration with their descriptions: the types that are
    gathered, one for each name, then what passes through. -/
def arranged (o : Options) (definitions : List Definition) : List Definition :=
  let gathered := definitions.filterMap o.gathered?
  ((Groups.order o.rootTypes.names gathered).filterMap fun name =>
      (o.gatheredType (gathered.filter fun b => b.name = name)).map fun b => .type (.block b))
    ++ definitions.filter fun d => o.passes (.node d)

theorem plain_gathered_of_uncommented (h : ∀ d ∈ definitions, d.Uncommented) :
    ∀ b ∈ definitions.filterMap o.gathered?, b.Plain := by
  intro b hb
  obtain ⟨d, hd, hgathered⟩ := List.mem_filterMap.mp hb
  obtain ⟨rfl, -⟩ := Definition.gathered?_eq_some hgathered
  exact h _ hd

/-- Combined types without their repeats are the type that is gathered. -/
theorem dedupeGroup_combined (o : Options) (h : ∀ b ∈ blocks, b.Plain) :
    (combined blocks).map o.dedupeGroup = o.gatheredType blocks := by
  cases blocks with
  | nil => rfl
  | cons first rest =>
      rw [gatheredType]
      exact congrArg some (o.dedupeGroup_eq (members_combined h rfl))

/-- The stitched definitions are the arranged ones. -/
theorem stitchBare_eq_arranged (h : ∀ d ∈ definitions, d.Uncommented) :
    o.stitchBare definitions = o.arranged definitions := by
  rw [stitchBare, arranged, stitchBlocks_eq, List.map_filterMap]
  refine congrArg (· ++ _) (List.filterMap_congr fun name _ => ?_)
  rw [groupOf, o.dedupeGroup_combined]
  exact fun b hb => plain_gathered_of_uncommented h b (List.mem_of_mem_filter hb)

theorem uncommented_arranged (h : ∀ d ∈ definitions, d.Uncommented) :
    ∀ d ∈ o.arranged definitions, d.Uncommented := by
  intro d hd
  rcases List.mem_append.mp hd with hd | hd
  · obtain ⟨name, -, hname⟩ := List.mem_filterMap.mp hd
    obtain ⟨b, hb, rfl⟩ := Option.map_eq_some_iff.mp hname
    generalize (definitions.filterMap o.gathered?).filter (fun b => b.name = name) = blocks at hb
    cases blocks with
    | nil => cases hb
    | cons first rest =>
        obtain rfl := Option.some.inj hb
        show _ = (Entry.nodes ((o.distinct _).map Entry.node)).map Entry.node
        rw [Entry.nodes_map_node]
        rfl
  · exact h d (List.mem_of_mem_filter hd)

/-- The groups are gathered with their comments as without them. -/
theorem groups_eq (h : ∀ d ∈ definitions, d.Uncommented) :
    (o.groups (definitions.map .node)).map o.dedupeGroup
      = (o.stitchBlocks (definitions.filterMap o.gathered?)).map Block.withCommentedMembers := by
  have hgroups : o.groups (definitions.map .node)
      = (gather o.rootTypes.names (definitions.filterMap o.gathered?)).blocks.map
          Block.withCommentedMembers := by
    rw [← gather_map (f := Block.withCommentedMembers) (fun _ => rfl)
      combined_withCommentedMembers, ← contributions_map_node]
    rfl
  rw [hgroups, stitchBlocks, List.map_map, List.map_map]
  refine List.map_congr_left fun group hgroup => ?_
  refine dedupeGroup_withCommentedMembers o ?_
  have hmembers := members_combined
    (fun b hb => plain_gathered_of_uncommented h b (List.mem_of_mem_filter hb))
    (combined_of_mem_gather hgroup)
  rw [Block.Plain, hmembers, Entry.nodes_map_node]

/-- The printed sequence: every definition with its comments, the members commented already. -/
theorem printed_eq {s : Stitched} (h : ∀ d ∈ definitions, d.Uncommented)
    (hs : o.stitch (definitions.map .node) = .ok s) :
    s.printed = .node (.schema s.schema)
      :: Entry.commented
        (((o.arranged definitions).map Definition.withCommentedMembers).map .node) := by
  obtain ⟨-, hmerged, hrest⟩ := stitch_eq_ok hs
  have hgroups : (o.groups (definitions.map .node)).map
      (fun block => Definition.type (.block (o.dedupeGroup block)))
      = ((o.stitchBlocks (definitions.filterMap o.gathered?)).map fun block =>
          Definition.type (.block block)).map Definition.withCommentedMembers := by
    have hmap := congrArg (List.map fun block => Definition.type (.block block))
      (groups_eq (o := o) h)
    rw [List.map_map, List.map_map] at hmap
    rw [List.map_map]
    exact hmap
  rw [Stitched.printed, hmerged, hrest, merged_eq, rest_map_node, hgroups,
    ← stitchBare_eq_arranged h, stitchBare, List.map_append, List.map_append, Entry.commented,
    Entry.commented, Entry.commented, List.flatMap_append]

/-- Every definition and every member is printed right behind the comments for its description and
    without it: gathered types with the description of the first type of their name, what passes
    through with its own.  The comments hold all of the description but blanks, and no line
    break. -/
theorem stitch_documents (ho : o.rootTypes.Known) (h : ∀ d ∈ definitions, d.Uncommented) :
    (∃ s, o.stitch (definitions.map .node) = .ok s
        ∧ s.print = s.schema.print
          ++ (o.arranged definitions).flatMap fun d => ("\n\n" : Text) ++ d.printDocumented)
      ∧ commentLines [] = []
      ∧ ∀ text, (∀ line ∈ commentLines text, ∀ c ∈ line, Text.isLineBreak c = false)
        ∧ Text.visible (commentLines text).flatten = text.visible := by
  refine ⟨?_, rfl, fun text => ⟨fun _ hline => not_lineBreak_of_mem_commentLines hline,
    visible_commentLines text⟩⟩
  obtain ⟨schema, hschema⟩ := ho.schema (o.merged (definitions.map .node))
  have hs : o.stitch (definitions.map .node)
      = .ok ⟨schema, o.merged (definitions.map .node), o.rest (definitions.map .node)⟩ := by
    rw [stitch, hschema]
    rfl
  refine ⟨_, hs, ?_⟩
  rw [print_stitch hs, printed_eq h hs]
  show schema.print ++ printEntriesAfter "\n\n" _ = schema.print ++ _
  rw [printEntriesAfter_commented, List.flatMap_map, List.flatMap_map]
  refine congrArg _ (List.flatMap_congr fun d hd => ?_)
  rw [Definition.printEntries_documented (uncommented_arranged h d hd)]

end Options

/-- A described type with a described field and one that comes again without its description. -/
theorem stitch_documents_repeated :
    let definitions :=
      definitionsOf r#""one" type Query {"two" a: Int a: Int} "three" scalar A"#
    RootTypes.default.Known ∧ (∀ d ∈ definitions, d.Uncommented)
      ∧ ∃ s, ({ dedupe := true } : Options).stitch (definitions.map .node) = .ok s
        ∧ s.print = s.schema.print ++ Text.join "\n"
          ["", "", "# one", r"type Query {", "  # two", "  a: Int", r"}", "", "# three", "scalar A"] := by
  intro definitions
  have hknown : RootTypes.default.Known := by
    rw [RootTypes.Known]
    decide
  have hu : ∀ d ∈ definitions, d.Uncommented := uncommented_definitionsOf _
  obtain ⟨⟨s, hs, hprint⟩, -⟩ := Options.stitch_documents (o := { dedupe := true }) hknown hu
  refine ⟨hknown, hu, s, hs, ?_⟩
  rw [hprint]
  exact congrArg (s.schema.print ++ ·) (by decide +kernel +zetaReduce)

end SchemaStitch
