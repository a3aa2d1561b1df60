import SchemaStitch.Proofs.RoundTrip

/-! # Printing where there are no comments

    There are two ways to print a type with members.  One knows nodes only: the members are
    joined line by line and then indented as one text.  The other goes entry by entry, so that
    comments find their place: the header is printed from a type without members, and every
    entry is indented by itself.  Indentation does not see where one member ends and the next
    one starts (`Text.indent_join`), so without comments both ways agree, for a definition and
    for a document as a whole (`Document.print_eq_printPlain`). -/

namespace SchemaStitch

/-! ## Putting parts together -/

namespace Text

/-- Lines are indented together as they are one by one. -/
theorem indent_join {parts : List Text} (hne : parts ≠ []) :
    (join "\n" parts).indent = join "\n" (parts.map indent) := by
  induction parts with
  | nil => exact absurd rfl hne
  | cons part rest ih =>
      cases rest with
      | nil => simp [join]
      | cons next others =>
          have hrest := ih (List.cons_ne_nil next others)
          have hmapped : (next :: others).map indent ≠ [] := by simp
          rw [List.map_cons, join_cons (List.cons_ne_nil next others), join_cons hmapped, ← hrest]
          -- the blanks behind the line end are those in front of the remaining lines
          simp only [indent, indentTail_eq_shift, shift_append, List.cons_append]
          rfl

theorem join_concat {separator last : Text} {parts : List Text} (hne : parts ≠ []) :
    join separator (parts ++ [last]) = join separator parts ++ (separator ++ last) := by
  induction parts with
  | nil => exact absurd rfl hne
  | cons part rest ih =>
      cases rest with
      | nil => simp [join]
      | cons next others =>
          have hbehind : (next :: others) ++ [last] ≠ [] := by simp
          rw [List.cons_append, join_cons hbehind, ih (List.cons_ne_nil next others),
            join_cons (List.cons_ne_nil next others)]
          simp only [List.append_assoc]

/-- A part that comes last stands behind a separator, if it and something before it are there. -/
theorem joinPresent_concat {separator first last : Text} {parts : List Text} (hf : first ∈ parts)
    (hfirst : first ≠ []) :
    joinPresent separator (parts ++ [last])
      = joinPresent separator parts ++ if last.isEmpty then [] else separator ++ last := by
  have hpresent : parts.filter (fun part => !part.isEmpty) ≠ [] := by
    refine List.ne_nil_of_mem (List.mem_filter.mpr ⟨hf, ?_⟩)
    simpa using hfirst
  rw [joinPresent, joinPresent, List.filter_append]
  by_cases hl : last = []
  · simp [hl]
  · have hlast : [last].filter (fun part => !part.isEmpty) = [last] := by simp [hl]
    rw [hlast, join_concat hpresent, if_neg (by simpa using hl)]

end Text

/-! ## Definitions -/

/-- The body of a type without comments is the block of its members. -/
theorem Entry.printBody_map_node (members : List Member) :
    Entry.printBody (members.map .node)
      = if (printBlock (members.map Member.print)).isEmpty then []
        else (" " : Text) ++ printBlock (members.map Member.print) := by
  by_cases hnil : members = []
  · subst hnil
    rfl
  · have hprinted : members.map Member.print ≠ [] := by simpa using hnil
    have hlines : (members.map Entry.node).map (fun entry => entry.printMember.indent)
        = (members.map Member.print).map Text.indent := by
      rw [List.map_map, List.map_map]
      rfl
    have hblock : printBlock (members.map Member.print)
        = ['{', '\n'] ++ Text.join "\n" ((members.map Member.print).map Text.indent) ++ ['\n', '}'] := by
      rw [printBlock, if_neg (by simpa using hprinted), Text.indent_join hprinted]
    rw [Entry.printBody, if_neg (by simpa using hnil), hlines, hblock]
    rfl

/-- A type is printed entry by entry as it is from its nodes. -/
theorem Block.printWithComments_eq_print {block : Block}
    (h : block.members = (Entry.nodes block.members).map .node) :
    block.printWithComments = (Definition.type (.block block)).print := by
  have hkeyword : block.kind.keyword ∈ block.header := List.mem_cons_self ..
  have hpresent : block.kind.keyword ≠ [] := by cases block.kind <;> decide
  show block.printWithComments = printDescription block.description ++ block.printBare
  rw [printWithComments_eq, printBare, Text.joinPresent_concat hkeyword hpresent,
    ← Entry.printBody_map_node, ← h]

namespace Definition

/-- Without comments a definition has one printed form. -/
theorem Uncommented.print {d : Definition} (h : d.Uncommented) : d.printWithComments = d.print := by
  cases d with
  | type t =>
      cases t with
      | block b => exact Block.printWithComments_eq_print h
      | scalar s => rfl
      | union u => rfl
  | _ => rfl

end Definition

/-! ## Documents -/

/-- No comments stand among the definitions of a document, nor in one of them. -/
structure Document.Uncommented (document : Document) : Prop where
  nodes : document.entries = document.definitions.map .node
  definitions : ∀ d ∈ document.definitions, d.Uncommented

/-- Comments are not read. -/
theorem Document.uncommented_of_parse {text : Text} {document : Document}
    (h : Document.parse text = .ok document) : document.Uncommented where
  nodes := congrArg Document.entries (Document.parse_yields h).2.1
  definitions := fun d hd => ((Document.parse_yields h).2.2 d hd).2

/-- Definitions in a row are divided by blank lines. -/
theorem printEntries_map_node (definitions : List Definition) :
    printEntries (definitions.map .node)
      = Text.join "\n\n" (definitions.map Definition.printWithComments) := by
  induction definitions with
  | nil => rfl
  | cons d rest ih =>
      cases rest with
      | nil => simp [printEntries_singleton, Text.join, Entry.print]
      | cons next others =>
          have hentries : (next :: others).map Entry.node ≠ [] := by simp
          have htexts : (next :: others).map Definition.printWithComments ≠ [] := by simp
          rw [List.map_cons, printEntries_cons _ hentries, ih]
          show _ = Text.join "\n\n" (d.printWithComments
            :: (next :: others).map Definition.printWithComments)
          rw [Text.join_cons htexts]
          rfl

/-- A document without comments is printed in the same way whether its types are laid out as a
    whole or entry by entry, and so is each of its definitions. -/
theorem Document.print_eq_printPlain {document : Document} (h : document.Uncommented) :
    document.print = document.printPlain
      ∧ ∀ d ∈ document.definitions, d.printWithComments = d.print := by
  have hdefinitions : ∀ d ∈ document.definitions, d.printWithComments = d.print :=
    fun d hd => (h.definitions d hd).print
  refine ⟨?_, hdefinitions⟩
  rw [Document.print, h.nodes, printEntries_map_node, List.map_congr_left hdefinitions]
  rfl

/-- A described type with a field whose arguments go over several lines, a type without members,
    an extension and a query. -/
theorem Document.print_eq_printPlain_described :
    let text : Text :=
      r#""a" type T { f("b" x: Int = 1): Int} enum E extend type T {g: Int} query {f}"#
    ∃ document, Document.parse text = .ok document
      ∧ document.Uncommented ∧ document.definitions.length = 4
      ∧ document.print = document.printPlain
      ∧ ∀ d ∈ document.definitions, d.printWithComments = d.print := by
  intro text
  have hparse : (Document.parse text).isOk = true := by decide +kernel +zetaReduce
  have hcount : (definitionsOf text).length = 4 := by decide +kernel +zetaReduce
  obtain ⟨document, hdocument⟩ := exists_document hparse
  have huncommented := Document.uncommented_of_parse hdocument
  rw [definitionsOf_eq hdocument] at hcount
  exact ⟨document, hdocument, huncommented, hcount, Document.print_eq_printPlain huncommented⟩

end SchemaStitch
