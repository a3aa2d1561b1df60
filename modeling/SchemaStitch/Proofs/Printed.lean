import SchemaStitch.Proofs.Conservation

/-! # The printed sequence

    A result is printed in blocks, and what passes through gets the comments for its own
    description only then.  Seen as a whole, the text is that of one sequence of comments and
    definitions (`Stitched.print_eq_printEntries`).  Its definitions are the schema declaration,
    the groups and what passes through, none of them with a description of its own
    (`Options.nodes_printed`). -/

namespace SchemaStitch

/-! ## Entries in a row -/

/-- Behind entries that end in a definition, others follow a blank line. -/
theorem printEntriesAfter_append {first : List (Entry Definition)} (h : Entry.Attached first)
    (second : List (Entry Definition)) :
    printEntriesAfter "\n\n" (first ++ second)
      = printEntriesAfter "\n\n" first ++ printEntriesAfter "\n\n" second := by
  induction h with
  | nil => rfl
  | @node d rest _ ih =>
      show ("\n\n" : Text) ++ (Entry.print (.node d) ++ printEntriesAfter "\n\n" (rest ++ second))
        = ("\n\n" ++ (Entry.print (.node d) ++ printEntriesAfter "\n\n" rest)) ++ _
      rw [ih, List.append_assoc, List.append_assoc]
  | @comment line rest _ hne _ ih =>
      -- behind a comment stands a line end only, but both sides have it
      have hboth : rest ++ second ≠ [] := fun heq => hne (List.append_eq_nil_iff.mp heq).1
      rw [printEntriesAfter_eq _ hne, printEntriesAfter_eq _ hboth, List.append_assoc] at ih
      have hrest : printEntries (rest ++ second)
          = printEntries rest ++ printEntriesAfter "\n\n" second := List.append_cancel_left ih
      show ("\n\n" : Text) ++ (printComment line ++ printEntriesAfter "\n" (rest ++ second))
        = ("\n\n" ++ (printComment line ++ printEntriesAfter "\n" rest)) ++ _
      rw [printEntriesAfter_eq _ hne, printEntriesAfter_eq _ hboth, hrest]
      simp only [List.append_assoc]

/-- Definitions are printed one by one, each behind a blank line and the comments for its
    description. -/
theorem printEntriesAfter_commented (definitions : List Definition) :
    printEntriesAfter "\n\n" (Entry.commented (definitions.map .node))
      = (definitions.map Entry.node).flatMap fun entry =>
          ("\n\n" : Text) ++ printEntries (Entry.withComments entry.documented) := by
  induction definitions with
  | nil => rfl
  | cons d rest ih =>
      rw [List.map_cons, Entry.commented_cons,
        printEntriesAfter_append (Entry.attached_withComments_node d), ih,
        printEntriesAfter_eq _ (Entry.withComments_ne_nil d), List.flatMap_cons]

/-! ## Results -/

namespace Stitched

variable {s : Stitched}

/-- The comments and definitions that are printed, in order. -/
def printed (s : Stitched) : List (Entry Definition) :=
  .node (.schema s.schema) :: (s.merged ++ Entry.commented s.rest)

/-- The text of a result is that of its printed sequence. -/
theorem print_eq_printEntries (hm : Entry.Attached s.merged)
    (hr : s.rest = (Entry.nodes s.rest).map .node) : s.print = printEntries s.printed := by
  have hrest := printEntriesAfter_commented (Entry.nodes s.rest)
  rw [← hr] at hrest
  show s.print = s.schema.print ++ printEntriesAfter "\n\n" (s.merged ++ Entry.commented s.rest)
  rw [print_eq, tail, printEntriesAfter_append hm, hrest]

end Stitched

/-! ## Stitching definitions -/

namespace Options

variable {o : Options} {definitions : List Definition} {s : Stitched}

theorem rest_map_node (o : Options) (definitions : List Definition) :
    o.rest (definitions.map .node)
      = ((definitions.filter fun d => o.passes (.node d)).map
          Definition.withCommentedMembers).map .node := by
  rw [rest, List.filter_map, List.map_map, List.map_map]
  rfl

/-- The text that definitions are stitched into is that of one sequence. -/
theorem print_stitch (h : o.stitch (definitions.map .node) = .ok s) :
    s.print = printEntries s.printed := by
  obtain ⟨-, hmerged, hrest⟩ := stitch_eq_ok h
  refine Stitched.print_eq_printEntries ?_ ?_
  · rw [hmerged]
    exact o.attached_merged _
  · rw [hrest, rest_map_node, Entry.nodes_map_node]

/-- What passes through, as it is printed. -/
def passed (o : Options) (definitions : List Definition) : List Definition :=
  ((definitions.filter fun d => o.passes (.node d)).map
    Definition.withCommentedMembers).map Definition.withoutDescription

theorem mem_passed {d : Definition} : d ∈ o.passed definitions
    ↔ ∃ original ∈ definitions, o.passes (.node original) = true
      ∧ original.withCommentedMembers.withoutDescription = d := by
  simp only [passed, List.map_map, List.mem_map, List.mem_filter, and_assoc, Function.comp_apply]

/-- The printed definitions: the schema declaration, the groups, and what passes through. -/
theorem nodes_printed (h : o.stitch (definitions.map .node) = .ok s) :
    Entry.nodes s.printed = .schema s.schema
      :: ((o.groups (definitions.map .node)).map o.mergedDefinition ++ o.passed definitions) := by
  obtain ⟨-, hmerged, hrest⟩ := stitch_eq_ok h
  rw [Stitched.printed, Entry.nodes_node, Entry.nodes_append, Entry.nodes_commented, hmerged, hrest,
    nodes_merged, rest_map_node, Entry.nodes_map_node]
  rfl

end Options

end SchemaStitch
