import SchemaStitch.Proofs.Refusals
import SchemaStitch.Proofs.Supplements

/-! # Files without tokens

    A file may hold no token at all: only blanks, line ends, commas, byte order marks and comments.
    Nothing is defined there.  Loading a directory leaves such a file out iff it is blank, and a
    text with a comma or a comment is not; as a text without tokens is no document
    (`Text.Tokenless.parse`), stitching then fails at it.  So adding files without tokens below a
    directory keeps what it is stitched into iff all of them are blank, and otherwise the first of
    them that is not decides the error (`FileTree.stitchText_supplemented_iff`). -/

namespace SchemaStitch

/-! ## Texts without tokens -/

/-- There is nothing to be read in a text but its end. -/
def Text.Tokenless (text : Text) : Prop :=
  Lexer.scan text = [.ok .endOfText]

namespace Lexer

theorem lexemesFrom_ne_nil (skip position : Nat) (text : Text) :
    lexemesFrom skip position text ≠ [] := by
  induction text generalizing skip position with
  | nil =>
      rw [lexemesFrom]
      exact List.cons_ne_nil _ _
  | cons c rest ih =>
      cases skip with
      | succ skip => exact ih skip (position + 1)
      | zero =>
          rw [lexemesFrom]
          split
          · exact ih 0 (position + 1)
          · split
            · exact ih _ (position + 1)
            · split
              · exact List.cons_ne_nil _ _
              · exact List.cons_ne_nil _ _

/-- If nothing but the end of a text is read, it is read at the end. -/
theorem lexemesFrom_of_end {skip position : Nat} {text : Text}
    (h : (lexemesFrom skip position text).map Lexeme.token = [.ok .endOfText]) :
    lexemesFrom skip position text
      = [⟨.ok .endOfText, position + text.length, position + text.length⟩] := by
  -- by the text; characters that are skipped or ignored leave the claim to the rest
  induction text generalizing skip position with
  | nil => rw [lexemesFrom]; rfl
  | cons c rest ih =>
      have hbehind (skip : Nat)
          (h : (lexemesFrom skip (position + 1) rest).map Lexeme.token = [.ok .endOfText]) :
          lexemesFrom skip (position + 1) rest
            = [⟨.ok .endOfText, position + (c :: rest).length, position + (c :: rest).length⟩] := by
        have hlength : position + 1 + rest.length = position + (c :: rest).length := by
          rw [List.length_cons]
          omega
        rw [ih h, hlength]
      cases skip with
      | succ skip => exact hbehind skip h
      | zero =>
          rw [lexemesFrom] at h ⊢
          split at h
          · next hc => rw [if_pos hc]; exact hbehind 0 h
          · next hc =>
              rw [if_neg hc]
              split at h
              · next hsign => rw [if_pos hsign]; exact hbehind _ h
              · split at h
                · cases h
                · -- a token would be followed by at least one more lexeme
                  rw [List.map_cons] at h
                  have hnil := List.map_eq_nil_iff.mp (List.cons.inj h).2
                  exact absurd hnil (lexemesFrom_ne_nil _ _ _)

end Lexer

/-- A text without tokens is no document: its end is not expected. -/
theorem Text.Tokenless.parse {text : Text} (h : text.Tokenless) :
    Document.parse text = .error ⟨.unexpected .endOfText, text, text.length⟩ := by
  have hlexemes : Lexer.lexemes text = [⟨.ok .endOfText, text.length, text.length⟩] := by
    have hend := Lexer.lexemesFrom_of_end h
    rw [Nat.zero_add] at hend
    exact hend
  rw [Document.parse, Parser.whole, hlexemes]
  rfl

theorem Text.Tokenless.refusal? {text : Text} (h : text.Tokenless) : (Source.text text).refusal?
    = some (.malformed ⟨.unexpected .endOfText, text, text.length⟩) := by
  rw [Source.refusal?, h.parse]

/-- The item that something is found for comes before all others for which there would be
    something. -/
theorem exists_first_of_pairwise {α β : Type} {r : α → α → Prop} {f : α → Option β} {items : List α}
    {value : β} (hp : items.Pairwise r) (h : items.findSome? f = some value) :
    ∃ first ∈ items, f first = some value
      ∧ ∀ item ∈ items, f item ≠ none → item = first ∨ r first item := by
  obtain ⟨before, first, behind, rfl, hfirst, hbefore⟩ := List.findSome?_eq_some_iff.mp h
  refine ⟨first, List.mem_append_right _ (List.mem_cons_self ..), hfirst, ?_⟩
  intro item hitem hsome
  rcases List.mem_append.mp hitem with hitem | hitem
  · exact absurd (hbefore item hitem) hsome
  · rcases List.mem_cons.mp hitem with heq | hitem
    · exact .inl heq
    · rw [List.pairwise_append, List.pairwise_cons] at hp
      exact .inr (hp.2.1.1 item hitem)

/-! ## Files without tokens -/

namespace Placed

variable {file : Placed Bytes} {added : List (Placed Bytes)}

/-- A schema file whose text holds no token. -/
structure Tokenless (file : Placed Bytes) : Prop where
  named : isSchemaName file.name = true
  read : ∃ text, readFile file.content = .ok text ∧ text.Tokenless

/-- A file whose text is blank. -/
def IsBlank (file : Placed Bytes) : Prop :=
  ∃ text, readFile file.content = .ok text ∧ text.isAllBlank = true

/-- A blank file is left out. -/
theorem IsBlank.schemaText?_eq_none (h : file.IsBlank) : file.schemaText? = none := by
  obtain ⟨text, hread, hblank⟩ := h
  rw [schemaText?, hread]
  split
  · exact if_pos hblank
  · rfl

/-- A schema file without tokens is left out only if it is blank. -/
theorem Tokenless.exists_schemaText? (h : file.Tokenless) (hb : ¬ file.IsBlank) :
    ∃ text, text.Tokenless ∧ file.schemaText? = some ⟨file.place, file.name, text⟩ := by
  obtain ⟨text, hread, htokenless⟩ := h.read
  have hvisible : text.isAllBlank = false := by
    rw [Bool.eq_false_iff]
    intro hblank
    exact hb ⟨text, hread, hblank⟩
  refine ⟨text, htokenless, ?_⟩
  exact schemaText?_eq_some.mpr ⟨h.named, hvisible, hread, rfl, rfl⟩

/-- The first of some files that is not blank, in the order of a walk. -/
structure FirstVisible (added : List (Placed Bytes)) (first : Placed Bytes) : Prop where
  mem : first ∈ added
  visible : ¬ first.IsBlank
  first : ∀ file ∈ added, ¬ file.IsBlank → file = first ∨ first.Precedes file

end Placed

namespace Directory

variable {directory wider : Directory} {added : List (Placed Bytes)}

/-- Of the added files, at most one is at a place. -/
theorem Gains.eq_of_place (hg : directory.Gains added wider) {file other : Placed Bytes}
    (hf : file ∈ added) (ho : other ∈ added) (hp : file.place = other.place)
    (hn : file.name = other.name) : file = other := by
  have hfile := (hg _ _ _).mpr (.inr ⟨file, hf, rfl, rfl, rfl⟩)
  have hother := (hg _ _ _).mpr (.inr ⟨other, ho, rfl, rfl, rfl⟩)
  rw [hp, hn, hother] at hfile
  obtain ⟨place, name, content⟩ := file
  obtain ⟨there, key, same⟩ := other
  obtain rfl : place = there := hp
  obtain rfl : name = key := hn
  obtain rfl := Option.some.inj hfile
  rfl

/-- A refused text that stands before all other refused ones is that of the first added file that
    is not blank, if what was there can be read. -/
theorem Gains.exists_firstVisible (hg : directory.Gains added wider)
    (ha : ∀ file ∈ added, file.Tokenless)
    (hr : ∀ file ∈ directory.schemaTexts, (Source.text file.content).refusal? = none)
    {found : Placed Text} (hfound : found ∈ wider.schemaTexts)
    (hrefused : (Source.text found.content).refusal? ≠ none)
    (hothers : ∀ other ∈ wider.schemaTexts, (Source.text other.content).refusal? ≠ none →
      other = found ∨ found.Precedes other) :
    ∃ first ∈ added, first.schemaText? = some found ∧ Placed.FirstVisible added first := by
  rcases (hg.mem_schemaTexts).mp hfound with hold | ⟨first, hfirst, hsome⟩
  · exact absurd (hr found hold) hrefused
  · have hvisible : ¬ first.IsBlank := by
      intro hblank
      rw [hblank.schemaText?_eq_none] at hsome
      cases hsome
    refine ⟨first, hfirst, hsome, hfirst, hvisible, fun file hfile hother => ?_⟩
    obtain ⟨content, htokenless, hthere⟩ := (ha file hfile).exists_schemaText? hother
    have hmem := (hg.mem_schemaTexts).mpr (.inr ⟨file, hfile, hthere⟩)
    have hfails : (Source.text content).refusal? ≠ none := by
      rw [htokenless.refusal?]
      exact Option.some_ne_none _
    -- the texts stand where their files do
    obtain ⟨-, -, -, hplace, hname⟩ := Placed.schemaText?_eq_some.mp hsome
    rcases hothers _ hmem hfails with heq | hprecedes
    · subst heq
      exact .inl (hg.eq_of_place hfile hfirst hplace.symm hname.symm)
    · refine .inr ?_
      rw [Placed.Precedes, ← hplace, ← hname] at hprecedes
      exact hprecedes

/-- If what was there can be read and not all of the added files are blank, the first that is not
    is the first that is refused. -/
theorem Gains.exists_refusal? (hg : directory.Gains added wider)
    (ha : ∀ file ∈ added, file.Tokenless)
    (hr : ∀ file ∈ directory.schemaTexts, (Source.text file.content).refusal? = none)
    (hv : ∃ file ∈ added, ¬ file.IsBlank) :
    ∃ first text, Placed.FirstVisible added first ∧ readFile first.content = .ok text
      ∧ ((wider.schemaTexts.map Placed.content).map Source.text).findSome? Source.refusal?
        = some (.malformed ⟨.unexpected .endOfText, text, text.length⟩) := by
  rw [List.map_map, List.findSome?_map]
  -- some text is refused, and the first such text is one that was added
  cases hfind : wider.schemaTexts.findSome?
      (Source.refusal? ∘ (Source.text ∘ Placed.content)) with
  | none =>
      obtain ⟨file, hfile, hvisible⟩ := hv
      obtain ⟨text, htokenless, hsome⟩ := (ha file hfile).exists_schemaText? hvisible
      have hmem := (hg.mem_schemaTexts).mpr (.inr ⟨file, hfile, hsome⟩)
      have hnone := List.findSome?_eq_none_iff.mp hfind _ hmem
      rw [Function.comp_apply, Function.comp_apply, htokenless.refusal?] at hnone
      cases hnone
  | some error =>
      obtain ⟨found, hfound, herror, hothers⟩ :=
        exists_first_of_pairwise wider.pairwise_schemaTexts hfind
      have hrefused : (Source.text found.content).refusal? = some error := herror
      obtain ⟨first, hadded, hsome, hfirst⟩ := hg.exists_firstVisible ha hr hfound
        (hrefused ▸ Option.some_ne_none _) hothers
      obtain ⟨text, htokenless, hsome'⟩ := (ha first hadded).exists_schemaText? hfirst.visible
      obtain rfl := Option.some.inj (hsome.symm.trans hsome')
      rw [htokenless.refusal?] at hrefused
      exact ⟨first, text, hfirst, (Placed.schemaText?_eq_some.mp hsome).2.2.1, hrefused.symm⟩

end Directory

/-! ## Stitching with files without tokens -/

namespace FileTree

variable {tree other : FileTree} {o : Options} {name text : Text} {place : List Text}
  {directory : Directory} {added : List (Placed Bytes)} {texts : List Text}

/-- A directory that can be loaded can still be loaded after files that can be read were added
    below it: what was there is still there. -/
theorem Supplemented.exists_loadAll (hs : tree.Supplemented place added other)
    (hlook : tree.look? name = some (.directory directory)) (hplace : tree.place? name = some place)
    (ha : ∀ file ∈ added, ∃ text, readFile file.content = .ok text)
    (hload : tree.loadAll [name] = .ok texts) :
    ∃ wider, directory.Gains added wider ∧ texts = directory.schemaTexts.map Placed.content
      ∧ other.loadAll [name] = .ok (wider.schemaTexts.map Placed.content) := by
  obtain ⟨wider, hwider, hg⟩ := hs.exists_look? hplace hlook
  rw [loadAll_singleton] at hload ⊢
  obtain ⟨hdecodes, hsome, htexts⟩ := decodes_of_load hlook hload
  obtain ⟨file, hfile⟩ := List.exists_mem_of_ne_nil _ hsome
  have hsome' : wider.schemaTexts ≠ [] :=
    List.ne_nil_of_mem (hg.mem_schemaTexts.mpr (.inl hfile))
  exact ⟨wider, hg, htexts, (load_of_decodes hwider (hg.decodes hdecodes ha)).2 hsome'⟩

/-- What a directory is stitched into after schema files without tokens were added below it.  They
    can be loaded, and they do not matter iff they are blank: the first of them that is not is no
    document. -/
theorem stitchText_supplemented_iff (hlook : tree.look? name = some (.directory directory))
    (hplace : tree.place? name = some place)
    (hs : tree.Supplemented place added other) (ha : ∀ file ∈ added, file.Tokenless)
    (hload : tree.loadAll [name] = .ok texts)
    (hstitch : o.stitchText (texts.map .text) = .ok text) :
    ∃ wider, other.loadAll [name] = .ok wider
      ∧ (o.stitchText (wider.map .text) = .ok text ↔ ∀ file ∈ added, file.IsBlank)
      ∧ ((∃ file ∈ added, ¬ file.IsBlank) → ∃ first content, Placed.FirstVisible added first
        ∧ readFile first.content = .ok content
        ∧ o.stitchText (wider.map .text)
          = .error (.source (.malformed ⟨.unexpected .endOfText, content, content.length⟩))) := by
  have hdecoded : ∀ file ∈ added, ∃ text, readFile file.content = .ok text := by
    intro file hfile
    obtain ⟨content, hread, -⟩ := (ha file hfile).read
    exact ⟨content, hread⟩
  obtain ⟨wider, hg, rfl, hload'⟩ := hs.exists_loadAll hlook hplace hdecoded hload
  -- the texts that were there can be read, as they were stitched
  have hread : ∀ file ∈ directory.schemaTexts, (Source.text file.content).refusal? = none := by
    intro file hfile
    exact Options.refusal?_of_stitchText hstitch (List.mem_map_of_mem (List.mem_map_of_mem hfile))
  have hfails (hv : ∃ file ∈ added, ¬ file.IsBlank) :
      ∃ first content, Placed.FirstVisible added first ∧ readFile first.content = .ok content
        ∧ o.stitchText ((wider.schemaTexts.map Placed.content).map .text)
          = .error (.source (.malformed ⟨.unexpected .endOfText, content, content.length⟩)) := by
    obtain ⟨first, content, hfirst, hcontent, hrefused⟩ := hg.exists_refusal? ha hread hv
    exact ⟨first, content, hfirst, hcontent, Options.stitchText_of_refusal? hrefused⟩
  refine ⟨wider.schemaTexts.map Placed.content, hload', ⟨?_, ?_⟩, hfails⟩
  · intro hsame file hfile
    by_contra hvisible
    obtain ⟨first, content, -, -, herror⟩ := hfails ⟨file, hfile, hvisible⟩
    rw [hsame] at herror
    cases herror
  · intro hblank
    have hnone : ∀ stored ∈ added, stored.schemaText? = none :=
      fun stored hstored => (hblank stored hstored).schemaText?_eq_none
    rw [hg.schemaTexts_eq hnone]
    exact hstitch

/-- A directory with one schema file. -/
def sparse : FileTree where
  root := .of [] [("d", .of [("a.graphql", Utf8.encode "scalar A")] [])]
  here := []

/-- The tree with a file put below the directory. -/
def sparseWith (file : Placed Bytes) : FileTree where
  root := sparse.root.put file.name file.content ("d" :: file.place)
  here := []

theorem supplemented_sparse {file : Placed Bytes}
    (h : sparse.node? ("d" :: file.place) file.name = none) :
    sparse.Supplemented ["d"] [file] (sparseWith file) :=
  (supplemented_nil sparse ["d"]).put h

/-- What its only schema file is stitched into. -/
def sparseText : Text :=
  Text.join "\n" [r"schema {", "  query: Query", r"}", "", "scalar A"]

theorem stitchText_sparse : sparse.loadAll ["d"] = .ok ["scalar A"]
    ∧ ({} : Options).stitchText [.text "scalar A"]
      = .ok sparseText := by
  refine ⟨by rfl, ?_⟩
  decide +kernel

/-- A blank file in a directory of its own. -/
def blankFile : Placed Bytes :=
  ⟨["e"], "c.gql", Utf8.encode " \n"⟩

theorem stitchText_supplemented_blankFile :
    sparse.Supplemented ["d"] [blankFile] (sparseWith blankFile) ∧ blankFile.Tokenless
      ∧ ∃ wider, (sparseWith blankFile).loadAll ["d"] = .ok wider
        ∧ ({} : Options).stitchText (wider.map .text)
          = .ok sparseText := by
  have htokenless : blankFile.Tokenless := ⟨by decide, " \n", by rfl, by rfl⟩
  have hs : sparse.Supplemented ["d"] [blankFile] (sparseWith blankFile) :=
    supplemented_sparse (by rfl)
  have hlook : sparse.look? "d"
      = some (.directory (.of [("a.graphql", Utf8.encode "scalar A")] [])) := by
    rfl
  have hplace : sparse.place? "d" = some [("d" : Text)] := by rfl
  obtain ⟨hload, hstitch⟩ := stitchText_sparse
  obtain ⟨wider, hwider, hiff, -⟩ := stitchText_supplemented_iff hlook hplace hs
    (List.forall_mem_singleton.mpr htokenless) hload hstitch
  refine ⟨hs, htokenless, wider, hwider, hiff.mpr ?_⟩
  exact List.forall_mem_singleton.mpr ⟨" \n", by rfl, by decide⟩

/-- A file with nothing but a comment. -/
def remark : Placed Bytes :=
  ⟨[], "b.graphql", Utf8.encode "# nothing yet\n"⟩

/-- A comment alone in a file ends the stitching of the directory around. -/
theorem not_stitchText_supplemented :
    sparse.Supplemented ["d"] [remark] (sparseWith remark) ∧ remark.Tokenless
      ∧ sparse.loadAll ["d"] = .ok ["scalar A"]
      ∧ ({} : Options).stitchText [.text "scalar A"]
        = .ok sparseText
      ∧ (sparseWith remark).loadAll ["d"] = .ok ["scalar A", "# nothing yet\n"]
      ∧ ({} : Options).stitchText [.text "scalar A", .text "# nothing yet\n"]
        = .error (.source (.malformed ⟨.unexpected .endOfText, "# nothing yet\n", 14⟩)) := by
  have htokenless : remark.Tokenless := ⟨by decide, "# nothing yet\n", by rfl, by rfl⟩
  obtain ⟨hload, hstitch⟩ := stitchText_sparse
  refine ⟨supplemented_sparse (by rfl), htokenless, hload, hstitch, by rfl, ?_⟩
  decide +kernel

end FileTree

end SchemaStitch
