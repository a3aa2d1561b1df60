import SchemaStitch.Proofs.Loaded

/-! # Files that are added below a directory

    A path names a directory by its place in the tree (`FileTree.look?_eq_directory`).  If files of
    new names are added below the directory, no step of the path is lost, so the path still names
    the directory of this place (`FileTree.Supplemented.exists_look?`).  It now stands for the
    texts that it stood for and for those of the added schema files that are not blank, each at its
    place in the order of a walk (`Directory.Gains.mem_schemaTexts`).  If all of them are blank, it
    stands for what it stood for (`Directory.Gains.schemaTexts_eq`). -/

namespace SchemaStitch

/-! ## Directories and their places -/

theorem Directory.node?_eq_none {directory : Directory} {name : Text} :
    directory.node? name = none
      ↔ directory.file? name = none ∧ directory.directory? name = none := by
  rw [Directory.node?]
  cases directory.file? name with
  | some content =>
      constructor
      · intro h
        cases h
      · rintro ⟨h, -⟩
        cases h
  | none => rw [Option.map_eq_none_iff, and_iff_right rfl]

/-- What a directory comes to with files added below it. -/
def Directory.Gains (directory : Directory) (added : List (Placed Bytes)) (wider : Directory) :
    Prop :=
  ∀ there name content, wider.fileAt? there name = some content
    ↔ directory.fileAt? there name = some content
      ∨ ∃ file ∈ added, there = file.place ∧ name = file.name ∧ content = file.content

namespace FileTree

variable {tree other : FileTree} {text name : Text} {place : List Text} {directory : Directory}

/-- The place of the directory that a path leads to. -/
def place? (tree : FileTree) (text : Text) : Option (List Text) :=
  if text.isEmpty || Path.exceeds Path.longestPath text then none
  else
    let path := Path.ofText text
    match path.steps.getLast?, tree.parent path with
    | _, .error _ => none
    | none, .ok place => some place
    | some step, .ok place =>
        if Path.isDots step then (tree.enter place step).toOption
        else match tree.node? place step with
          | some (.directory _) => some (place ++ [step])
          | _ => none

/-- A directory of a name is the one at the place of this name. -/
theorem at?_of_node? (h : tree.node? place name = some (.directory directory)) :
    tree.root.at? (place ++ [name]) = some directory := by
  obtain ⟨around, haround, h⟩ := Option.bind_eq_some_iff.mp h
  rw [Directory.at?_concat, haround]
  exact (Directory.node?_eq_directory.mp h).2

/-- Where the last step of a path leads from the directory before it: nowhere else if there is no
    step, to where dots lead, or to the directory of a name. -/
inductive EndsAt (tree : FileTree) (around : List Text) : Option Text → List Text → Prop
  | stays : EndsAt tree around none around
  | dots {step : Text} {place : List Text} : Path.isDots step = true →
      tree.enter around step = .ok place → EndsAt tree around (some step) place
  | named {step : Text} {directory : Directory} : Path.isDots step = false →
      tree.node? around step = some (.directory directory) →
      EndsAt tree around (some step) (around ++ [step])

/-- A path leads to where its last step does, from where its other steps lead. -/
theorem place?_eq_some : tree.place? text = some place
    ↔ (text.isEmpty || Path.exceeds Path.longestPath text) = false
      ∧ ∃ around, tree.parent (Path.ofText text) = .ok around
        ∧ tree.EndsAt around (Path.ofText text).steps.getLast? place := by
  rw [place?]
  constructor
  · intro h
    obtain ⟨hshort, h⟩ := Option.ite_none_left_eq_some.mp h
    refine ⟨Bool.eq_false_iff.mpr hshort, ?_⟩
    dsimp only at h
    split at h
    · cases h
    · next around hlast hparent =>
        rw [hlast, ← Option.some.inj h]
        exact ⟨around, hparent, .stays⟩
    · next step around hlast hparent =>
        rw [hlast]
        refine ⟨around, hparent, ?_⟩
        split at h
        · next hdots =>
            cases henter : tree.enter around step with
            | error fault =>
                rw [henter] at h
                cases h
            | ok there =>
                rw [henter] at h
                exact .dots hdots (henter.trans (congrArg _ (Option.some.inj h)))
        · next hnamed =>
            split at h
            · next directory hnode =>
                rw [← Option.some.inj h]
                exact .named (Bool.eq_false_iff.mpr hnamed) hnode
            · cases h
  · rintro ⟨hshort, around, hparent, hends⟩
    rw [if_neg (Bool.eq_false_iff.mp hshort)]
    dsimp only
    rw [hparent]
    -- the last step is one of the three
    generalize (Path.ofText text).steps.getLast? = last at hends
    cases hends with
    | stays => rfl
    | dots hdots henter =>
        dsimp only
        rw [if_pos hdots, henter]
        rfl
    | named hnamed hnode =>
        dsimp only
        rw [if_neg (Bool.eq_false_iff.mp hnamed), hnode]

/-- A path names the directory at the place that it leads to. -/
theorem look?_eq_directory : tree.look? text = some (.directory directory)
    ↔ ∃ place, tree.place? text = some place ∧ tree.root.at? place = some directory := by
  -- what stands at a place is a directory, whichever of the three ways led there
  have hplace (place : List Text) :
      (tree.root.at? place).map Node.directory = some (.directory directory)
        ↔ tree.root.at? place = some directory := by
    rw [Option.map_eq_some_iff]
    simp only [Node.directory.injEq, exists_eq_right]
  rw [look?]
  constructor
  · intro h
    obtain ⟨hshort, h⟩ := Option.ite_none_left_eq_some.mp h
    have hleads {around place : List Text} (hparent : tree.parent (Path.ofText text) = .ok around)
        (hends : tree.EndsAt around (Path.ofText text).steps.getLast? place) :
        tree.place? text = some place :=
      place?_eq_some.mpr ⟨Bool.eq_false_iff.mpr hshort, around, hparent, hends⟩
    dsimp only at h
    split at h
    · cases h
    · next around hlast hparent =>
        exact ⟨around, hleads hparent (hlast ▸ .stays), (hplace around).mp h⟩
    · next step around hlast hparent =>
        split at h
        · next hdots =>
            split at h
            · cases h
            · next there henter =>
                exact ⟨there, hleads hparent (hlast ▸ .dots hdots henter), (hplace there).mp h⟩
        · next hnamed =>
            split at h
            · split at h
              · cases h
              · cases h
            · exact ⟨around ++ [step],
                hleads hparent (hlast ▸ .named (Bool.eq_false_iff.mpr hnamed) h), at?_of_node? h⟩
  · rintro ⟨place, hleads, hdirectory⟩
    obtain ⟨hshort, around, hparent, hends⟩ := place?_eq_some.mp hleads
    rw [if_neg (Bool.eq_false_iff.mp hshort)]
    dsimp only
    rw [hparent]
    generalize (Path.ofText text).steps.getLast? = last at hends
    cases hends with
    | stays => exact (hplace _).mpr hdirectory
    | dots hdots henter =>
        dsimp only
        rw [if_pos hdots, henter]
        exact (hplace _).mpr hdirectory
    | named hnamed hnode =>
        dsimp only
        rw [at?_of_node? hnode] at hdirectory
        rw [if_neg (Bool.eq_false_iff.mp hnamed), hnode, Option.some.inj hdirectory]

theorem Keeps.endsAt {around : List Text} {last : Option Text} (hk : tree.Keeps other)
    (h : tree.EndsAt around last place) : other.EndsAt around last place := by
  cases h with
  | stays => exact .stays
  | dots hdots henter => exact .dots hdots (hk.enter henter)
  | named hnamed hnode =>
      obtain ⟨still, hstill⟩ := hk.node?_directory ⟨_, hnode⟩
      exact .named hnamed hstill

/-- A path still leads to its place where every step can still be taken. -/
theorem Keeps.place? (hk : tree.Keeps other) (h : tree.place? text = some place) :
    other.place? text = some place := by
  obtain ⟨hshort, around, hparent, hends⟩ := place?_eq_some.mp h
  exact place?_eq_some.mpr ⟨hshort, around, hk.parent hparent, hk.endsAt hends⟩

/-! ## Adding files -/

/-- A tree with files added below the directory of a place.  The names of the files are new there,
    and whatever directories they need may be new too. -/
structure Supplemented (tree : FileTree) (place : List Text) (added : List (Placed Bytes))
    (other : FileTree) : Prop where
  here : other.here = tree.here
  files : ∀ there name content, other.file? there name = some content
    ↔ tree.file? there name = some content
      ∨ ∃ file ∈ added, there = place ++ file.place ∧ name = file.name ∧ content = file.content
  directories : ∀ there, tree.isDirectory there = true → other.isDirectory there = true
  free : ∀ file ∈ added, tree.node? (place ++ file.place) file.name = none

variable {added : List (Placed Bytes)} {file : Placed Bytes} {wider : Directory}

theorem supplemented_nil (tree : FileTree) (place : List Text) :
    tree.Supplemented place [] tree where
  here := rfl
  files := by
    intro there name content
    rw [or_iff_left]
    rintro ⟨file, hfile, -⟩
    cases hfile
  directories := fun _ h => h
  free := by
    intro file hfile
    cases hfile

/-- A name that stands for nothing is that of no file and of no directory. -/
theorem node?_eq_none : tree.node? place name = none
    ↔ tree.file? place name = none ∧ tree.isDirectory (place ++ [name]) = false := by
  rw [node?, file?, isDirectory, Directory.fileAt?, Directory.at?_concat]
  cases tree.root.at? place with
  | none => exact ⟨fun _ => ⟨rfl, rfl⟩, fun _ => rfl⟩
  | some around =>
      simp only [Option.bind_some, Directory.node?_eq_none, Option.isSome_eq_false_iff,
        Option.isNone_iff_eq_none]

/-- A name that stands for nothing in the wider tree stood for nothing before. -/
theorem Supplemented.node?_eq_none (hs : tree.Supplemented place added other) {there : List Text}
    (h : other.node? there name = none) : tree.node? there name = none := by
  obtain ⟨hfile, hdirectory⟩ := FileTree.node?_eq_none.mp h
  refine FileTree.node?_eq_none.mpr ⟨?_, ?_⟩
  · rw [Option.eq_none_iff_forall_ne_some]
    intro content hcontent
    rw [(hs.files _ _ _).mpr (.inl hcontent)] at hfile
    cases hfile
  · rw [Bool.eq_false_iff]
    intro hthere
    rw [hs.directories _ hthere] at hdirectory
    cases hdirectory

/-- One more file can be added where its name is new. -/
theorem Supplemented.put (hs : tree.Supplemented place added other)
    (hfree : other.node? (place ++ file.place) file.name = none) :
    tree.Supplemented place (added ++ [file])
      ⟨other.root.put file.name file.content (place ++ file.place), other.here⟩ where
  here := hs.here
  files := by
    intro there name content
    show (other.root.put file.name file.content (place ++ file.place)).fileAt? there name
      = some content ↔ _
    simp only [List.mem_append, List.mem_singleton, or_and_right, exists_or, exists_eq_left]
    rw [Directory.fileAt?_put, ← or_assoc, ← hs.files]
    by_cases hsame : there = place ++ file.place ∧ name = file.name
    · -- the name was new, so nothing else is at this place
      obtain ⟨rfl, rfl⟩ := hsame
      rw [if_pos ⟨rfl, rfl⟩, (FileTree.node?_eq_none.mp hfree).1, Option.some_inj]
      simp only [reduceCtorEq, false_or, true_and, eq_comm]
    · rw [if_neg hsame, or_iff_left fun h => hsame ⟨h.1, h.2.1⟩]
      rfl
  directories := by
    intro there hthere
    exact Directory.isSome_at?_put.mpr (.inl (hs.directories there hthere))
  free := by
    intro same hmem
    rcases List.mem_append.mp hmem with hmem | hnew
    · exact hs.free same hmem
    · rw [List.mem_singleton.mp hnew]
      exact hs.node?_eq_none hfree

namespace Supplemented

/-- The files that are added stand in the way of no directory. -/
theorem keeps (hs : tree.Supplemented place added other) : tree.Keeps other where
  here := hs.here
  directories := hs.directories
  clear := by
    intro there step hnode
    rw [Option.eq_none_iff_forall_ne_some]
    intro content hcontent
    rcases (hs.files _ _ _).mp hcontent with hold | ⟨file, hfile, rfl, rfl, -⟩
    · rw [(node?_eq_directory.mp hnode).1] at hold
      cases hold
    · obtain ⟨directory, hnode⟩ := hnode
      rw [hs.free file hfile] at hnode
      cases hnode

/-- The path of the directory still names a directory, and this holds the files that were added. -/
theorem exists_look? (hs : tree.Supplemented place added other)
    (hplace : tree.place? name = some place)
    (hlook : tree.look? name = some (.directory directory)) :
    ∃ wider, other.look? name = some (.directory wider) ∧ directory.Gains added wider := by
  obtain ⟨same, hsame, hdirectory⟩ := look?_eq_directory.mp hlook
  obtain rfl := Option.some.inj (hplace.symm.trans hsame)
  have hkept : other.isDirectory place = true := by
    refine hs.directories place ?_
    rw [isDirectory, hdirectory]
    rfl
  obtain ⟨wider, hwider⟩ := Option.isSome_iff_exists.mp hkept
  refine ⟨wider, look?_eq_directory.mpr ⟨place, hs.keeps.place? hplace, hwider⟩, ?_⟩
  intro there key content
  have hbelow {around : FileTree} {inner : Directory} (h : around.root.at? place = some inner) :
      inner.fileAt? there key = around.file? (place ++ there) key := by
    rw [FileTree.file?, Directory.fileAt?, Directory.fileAt?, Directory.at?_append, h]
    rfl
  rw [hbelow hwider, hbelow hdirectory, hs.files]
  simp only [List.append_cancel_left_eq]

end Supplemented

end FileTree

/-! ## Texts of added files -/

namespace Directory

variable {directory wider : Directory} {added : List (Placed Bytes)}

/-- The schema files are those that were there and those that are added and not blank. -/
theorem Gains.mem_schemaTexts (hg : directory.Gains added wider) {file : Placed Text} :
    file ∈ wider.schemaTexts
      ↔ file ∈ directory.schemaTexts ∨ ∃ stored ∈ added, stored.schemaText? = some file := by
  rw [Directory.mem_schemaTexts, Directory.mem_schemaTexts]
  constructor
  · rintro ⟨hnamed, hvisible, content, hstored, hread⟩
    rcases (hg _ _ _).mp hstored with hold | ⟨stored, hadded, hplace, hname, rfl⟩
    · exact .inl ⟨hnamed, hvisible, content, hold, hread⟩
    · refine .inr ⟨stored, hadded, ?_⟩
      exact Placed.schemaText?_eq_some.mpr ⟨hnamed, hvisible, hread, hplace.symm, hname.symm⟩
  · rintro (⟨hnamed, hvisible, content, hstored, hread⟩ | ⟨stored, hadded, h⟩)
    · exact ⟨hnamed, hvisible, content, (hg _ _ _).mpr (.inl hstored), hread⟩
    · obtain ⟨hnamed, hvisible, hread, hplace, hname⟩ := Placed.schemaText?_eq_some.mp h
      refine ⟨hnamed, hvisible, stored.content, ?_, hread⟩
      exact (hg _ _ _).mpr (.inr ⟨stored, hadded, hplace.symm, hname.symm, rfl⟩)

/-- Blank files make no difference. -/
theorem Gains.schemaTexts_eq (hg : directory.Gains added wider)
    (hb : ∀ stored ∈ added, stored.schemaText? = none) :
    wider.schemaTexts = directory.schemaTexts := by
  refine Placed.eq_of_pairwise wider.pairwise_schemaTexts directory.pairwise_schemaTexts
    fun file => ?_
  rw [hg.mem_schemaTexts, or_iff_left]
  rintro ⟨stored, hadded, h⟩
  rw [hb stored hadded] at h
  cases h

/-- Schema files can be read if they could be and those that are added can. -/
theorem Gains.decodes (hg : directory.Gains added wider) (h : directory.Decodes)
    (ha : ∀ stored ∈ added, ∃ text, readFile stored.content = .ok text) : wider.Decodes := by
  intro there name content hstored hnamed
  rcases (hg _ _ _).mp hstored with hold | ⟨stored, hadded, -, -, rfl⟩
  · exact h there name content hold hnamed
  · exact ha stored hadded

end Directory

namespace FileTree

variable {tree : FileTree} {name : Text} {directory : Directory} {texts : List Text}

/-- A directory that can be loaded stands for the texts of its schema files. -/
theorem decodes_of_load (hlook : tree.look? name = some (.directory directory))
    (h : tree.load name = .ok texts) :
    directory.Decodes ∧ directory.schemaTexts ≠ []
      ∧ texts = directory.schemaTexts.map Placed.content := by
  have hload := h
  rw [load, hlook] at h
  obtain ⟨read, hread, -⟩ := bind_eq_ok.mp h
  have hall := mapM_isOk.mp (isOk_eq_true.mpr ⟨read, mapError_eq_ok.mp hread⟩)
  -- every schema file was read, each under the path it is placed at
  have hdecodes : directory.Decodes := by
    intro place key content hstored hnamed
    refine isOk_eq_true.mp (hall (Placed.path ⟨place, key, content⟩ name, content) ?_)
    rw [Directory.schemaFiles_eq]
    refine List.mem_map.mpr ⟨⟨place, key, content⟩, List.mem_filter.mpr ⟨?_, hnamed⟩, rfl⟩
    exact Directory.mem_placed.mpr hstored
  obtain ⟨hfails, hloads⟩ := load_of_decodes hlook hdecodes
  have hsome : directory.schemaTexts ≠ [] := by
    intro hnil
    rw [hfails hnil] at hload
    cases hload
  rw [hloads hsome] at hload
  exact ⟨hdecodes, hsome, (Except.ok.inj hload).symm⟩

/-- Loading one name is loading it alone. -/
theorem loadAll_singleton (tree : FileTree) (name : Text) :
    tree.loadAll [name] = tree.load name := by
  rw [loadAll]
  cases tree.load name with
  | error error => rfl
  | ok texts => exact congrArg Except.ok (List.append_nil texts)

end FileTree

end SchemaStitch
