import SchemaStitch.Proofs.Stitched

/-! # Text without its comment lines

    Comments of printed entries stand on lines of their own.  Without the lines whose first
    character other than a blank is a number sign, a printed result is the same as the one
    printed from its bare form (`Stitched.Settled.contentLines_print`). -/

namespace SchemaStitch

namespace Text

/-- Whether the first character of a line that is no blank is a number sign. -/
def isCommentLine (line : Text) : Bool :=
  (line.dropWhile isBlank).head? = some '#'

/-- The lines of a text that are no comment lines. -/
def contentLines (text : Text) : List Text :=
  (split '\n' text).filter fun line => !isCommentLine line

/-- The text without its comment lines. -/
def withoutComments (text : Text) : Text :=
  join "\n" (contentLines text)

theorem split_append_newline (first second : Text) :
    split '\n' (first ++ '\n' :: second) = split '\n' first ++ split '\n' second := by
  induction first with
  | nil => rfl
  | cons c cs ih =>
      rw [List.cons_append, split, split, ih]
      split
      · rfl
      · have hne : split '\n' cs ≠ [] := by
          rw [split_eq_splitOn]
          exact List.splitOn_ne_nil _ _
        obtain ⟨piece, rest, hcs⟩ := List.exists_cons_of_ne_nil hne
        rw [hcs]
        rfl

theorem contentLines_append_newline (first second : Text) :
    contentLines (first ++ '\n' :: second) = contentLines first ++ contentLines second := by
  rw [contentLines, split_append_newline, List.filter_append]
  rfl

theorem contentLines_join {parts : List Text} (hne : parts ≠ []) :
    contentLines (join "\n" parts) = parts.flatMap contentLines := by
  induction parts with
  | nil => exact absurd rfl hne
  | cons part rest ih =>
      rw [List.flatMap_cons]
      cases rest with
      | nil => simp [join]
      | cons next others =>
          rw [join_cons (List.cons_ne_nil _ _), ← ih (List.cons_ne_nil _ _)]
          exact contentLines_append_newline _ _

/-- A comment is no content, wherever it starts on its line. -/
theorem contentLines_comment {line : Text} (h : ∀ c ∈ line, isNewline c = false) (width : Nat) :
    contentLines (List.replicate width ' ' ++ printComment line) = [] := by
  obtain ⟨body, hbody, hline⟩ := printComment_eq h
  have hone : '\n' ∉ List.replicate width ' ' ++ '#' :: body := by
    intro hm
    rcases List.mem_append.mp hm with hc | hc
    · exact absurd (List.eq_of_mem_replicate hc) (by decide)
    · rcases List.mem_cons.mp hc with hc | hc
      · exact absurd hc (by decide)
      · exact Bool.noConfusion (hline _ hc)
  have hcomment : isCommentLine (List.replicate width ' ' ++ '#' :: body) = true := by
    rw [isCommentLine, List.dropWhile_append_of_pos fun c hc => List.eq_of_mem_replicate hc ▸ rfl]
    rfl
  rw [hbody, contentLines, split_eq_splitOn, List.splitOn_eq_singleton hone]
  simp [hcomment]

end Text

/-! ## Printed definitions -/

/-- Printed members keep their content lines if the comments among them are left out. -/
theorem contentLines_printMembers {entries : List (Entry Member)} (ha : Entry.Attached entries) :
    (entries.map fun entry => entry.printMember.indent).flatMap Text.contentLines
      = (((Entry.nodes entries).map Entry.node).map fun entry =>
          (Entry.printMember entry).indent).flatMap Text.contentLines := by
  induction ha with
  | nil => rfl
  | node member _ ih =>
      rw [List.map_cons, List.flatMap_cons, ih]
      rfl
  | @comment line rest hl _ _ ih =>
      have hnone : Text.contentLines (printComment line).indent = [] := by
        rw [indent_printComment hl]
        exact Text.contentLines_comment hl 2
      rw [List.map_cons, List.flatMap_cons, ih]
      show Text.contentLines (printComment line).indent ++ _ = _
      rw [hnone]
      rfl

/-- The same of the whole body behind a header. -/
theorem contentLines_printBody (header : Text) {entries : List (Entry Member)}
    (ha : Entry.Attached entries) :
    Text.contentLines (header ++ Entry.printBody entries)
      = Text.contentLines (header ++ Entry.printBody ((Entry.nodes entries).map .node)) := by
  have hbody {items : List (Entry Member)} (hne : items ≠ []) :
      Text.contentLines (header ++ Entry.printBody items)
        = Text.contentLines (header ++ r" {")
          ++ ((items.map fun entry => entry.printMember.indent).flatMap Text.contentLines
            ++ Text.contentLines r"}") := by
    have htext : header ++ Entry.printBody items
        = (header ++ r" {") ++ '\n' ::
          (Text.join "\n" (items.map fun entry => entry.printMember.indent) ++ '\n' :: r"}") := by
      rw [Entry.printBody, if_neg (by simpa using hne)]
      simp
    rw [htext, Text.contentLines_append_newline, Text.contentLines_append_newline,
      Text.contentLines_join (by simpa using hne)]
  -- attached comments never stand alone, so the braces are printed on both sides or on neither
  by_cases hne : entries = []
  · rw [hne]
    rfl
  · have hnodes := ha.nodes_ne_nil hne
    rw [hbody hne, hbody (by simpa using hnodes), contentLines_printMembers ha]

namespace Definition

/-- A settled definition is printed like its bare form but for comment lines. -/
theorem Settled.contentLines {d : Definition} (h : d.Settled) :
    Text.contentLines d.withoutDescription.printWithComments
      = Text.contentLines d.bare.printWithComments := by
  cases d with
  | type t =>
      cases t with
      | block b =>
          have hbare : b.bare.members = (Entry.nodes b.members).map .node := by
            rw [Block.bare_members, h.block.bareMembers]
          show Text.contentLines (Block.printWithComments { b with description := none })
            = Text.contentLines b.bare.printWithComments
          rw [Block.printWithComments_eq, Block.printWithComments_eq b.bare, hbare]
          exact contentLines_printBody _ h.attached
      | _ => rfl
  | _ => rfl

end Definition

/-! ## Printed results -/

/-- A blank line and what is behind it. -/
theorem contentLines_blankLine (first second : Text) :
    Text.contentLines (first ++ ("\n\n" ++ second))
      = Text.contentLines first ++ [] :: Text.contentLines second := by
  show Text.contentLines (first ++ '\n' :: ([] ++ '\n' :: second)) = _
  rw [Text.contentLines_append_newline, Text.contentLines_append_newline]
  rfl

/-- Entries behind a text come down to their definitions, each behind a blank line. -/
theorem contentLines_printEntriesAfter {entries : List (Entry Definition)}
    (ha : Entry.Attached entries) (first : Text) :
    Text.contentLines (first ++ printEntriesAfter "\n\n" entries)
      = Text.contentLines first
        ++ (Entry.nodes entries).flatMap fun d => [] :: Text.contentLines d.printWithComments := by
  induction ha generalizing first with
  | nil => rw [printEntriesAfter, Entry.nodes_nil, List.append_nil, List.flatMap_nil, List.append_nil]
  | @node d rest _ ih =>
      have htext : first ++ printEntriesAfter "\n\n" (.node d :: rest)
          = (first ++ ("\n\n" ++ d.printWithComments)) ++ printEntriesAfter "\n\n" rest := by
        rw [printEntriesAfter]
        simp [Entry.print, Entry.gap, Entry.isComment]
      rw [htext, ih, contentLines_blankLine, Entry.nodes_node, List.flatMap_cons, List.append_assoc]
  | @comment line rest hl hne _ ih =>
      have hcomment : Text.contentLines (printComment line) = [] :=
        Text.contentLines_comment hl 0
      have htext : first ++ printEntriesAfter "\n\n" (.comment line :: rest)
          = first ++ ("\n\n" ++ (printComment line ++ '\n' :: printEntries rest)) := by
        rw [printEntriesAfter, Entry.gap, printEntriesAfter_eq _ hne]
        rfl
      -- the comment goes with its line end, so the blank line is before what comes next
      have hrest := ih first
      rw [printEntriesAfter_eq _ hne, contentLines_blankLine] at hrest
      rw [htext, contentLines_blankLine, Text.contentLines_append_newline, hcomment,
        List.nil_append, hrest, Entry.nodes_comment]

theorem contentLines_passing {definitions : List Definition} (h : ∀ d ∈ definitions, d.Settled)
    (first : Text) :
    Text.contentLines (first ++ (definitions.map Entry.node).flatMap fun entry =>
        ("\n\n" : Text) ++ printEntries (Entry.withComments entry.documented))
      = Text.contentLines first ++ (definitions.map Definition.bare).flatMap fun d =>
          [] :: Text.contentLines d.printWithComments := by
  induction definitions generalizing first with
  | nil => rw [List.map_nil, List.flatMap_nil, List.append_nil, List.map_nil, List.flatMap_nil,
      List.append_nil]
  | cons d rest ih =>
      have hfirst := contentLines_printEntriesAfter (Entry.attached_withComments_node d) first
      rw [printEntriesAfter_eq _ (Entry.withComments_ne_nil d), Entry.nodes_withComments,
        List.flatMap_singleton] at hfirst
      replace hfirst := hfirst.trans (congrArg (fun lines => _ ++ [] :: lines)
        (h d (List.mem_cons_self ..)).contentLines)
      rw [List.map_cons, List.flatMap_cons, ← List.append_assoc,
        ih fun e he => h e (List.mem_cons_of_mem _ he), hfirst, List.map_cons, List.flatMap_cons,
        List.append_assoc]

namespace Stitched

/-- But for comment lines, a printed result is made of its schema declaration and of the bare
    forms of what is behind it. -/
theorem Settled.contentLines_print {s : Stitched} (h : s.Settled) :
    Text.contentLines s.print = Text.contentLines s.schema.print
      ++ s.bareTail.flatMap fun d => [] :: Text.contentLines d.printWithComments := by
  have hmerged : ((Entry.nodes s.merged).flatMap fun d => [] :: Text.contentLines d.printWithComments)
      = ((Entry.nodes s.merged).map Definition.bare).flatMap fun d =>
          [] :: Text.contentLines d.printWithComments := by
    rw [List.flatMap_map]
    refine List.flatMap_congr fun d hd => ?_
    obtain ⟨hsettled, hundescribed⟩ := h.merged d hd
    rw [← hsettled.contentLines, hundescribed]
  have hrest := contentLines_passing h.rest
    (s.schema.print ++ printEntriesAfter "\n\n" s.merged)
  rw [← h.passing, contentLines_printEntriesAfter h.attached, hmerged] at hrest
  rw [print_eq, tail, ← List.append_assoc, hrest, bareTail, List.map_append, List.flatMap_append,
    List.append_assoc]

end Stitched

end SchemaStitch
