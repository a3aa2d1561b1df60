import SchemaStitch.Loading
import SchemaStitch.Proofs.Walking

/-! # What a directory stands for

    A directory stands for the texts of the schema files below it that are not blank, in the order
    of a walk.  If the files can be read, loading it gives the texts of just these, and it fails
    if there is none (`FileTree.loadsBelow_of_decodes`).  What is loaded is the same for every order
    in which directories list their entries (`FileTree.Relisted.load_eq`), and several names are
    loaded one after the other, up to the first that fails (`FileTree.loadsInTurn`). -/

namespace SchemaStitch

/-! ## Names of schema files -/

theorem slash_notMem_schemaEndings : ∀ ending ∈ schemaEndings, '/' ∉ ending := by
  decide

/-- What ends a path without a slash ends the last name of the path. -/
theorem suffix_behind_slash {ending front name : Text} (h : '/' ∉ ending) :
    ending <:+ front ++ '/' :: name ↔ ending <:+ name := by
  have hslash : '/' :: name <:+ front ++ '/' :: name := List.suffix_append ..
  constructor
  · intro hpath
    rcases List.suffix_or_suffix_of_suffix hpath hslash with hshort | hlong
    · rcases List.suffix_cons_iff.mp hshort with rfl | hname
      · exact absurd (List.mem_cons_self ..) h
      · exact hname
    · exact absurd (hlong.subset (List.mem_cons_self ..)) h
  · intro hname
    exact (hname.trans (List.suffix_cons ..)).trans hslash

/-- Whether a path is that of a schema file depends on the last name. -/
theorem isSchemaName_joinPath (path name : Text) :
    isSchemaName (Directory.joinPath path name) = isSchemaName name := by
  have hbehind (front : Text) : isSchemaName (front ++ '/' :: name) = isSchemaName name := by
    refine Bool.eq_iff_iff.mpr ?_
    rw [isSchemaName, isSchemaName, List.any_eq_true, List.any_eq_true]
    refine exists_congr fun ending => and_congr_right fun hending => ?_
    rw [List.isSuffixOf_iff_suffix, List.isSuffixOf_iff_suffix]
    exact suffix_behind_slash (slash_notMem_schemaEndings ending hending)
  rw [Directory.joinPath]
  -- nothing stands before the name, or a slash does, which may be the last character of the path
  by_cases hempty : path = []
  · rw [hempty]
    rfl
  · by_cases hlast : path.getLast? = some '/'
    · obtain ⟨front, rfl⟩ := List.getLast?_eq_some_iff.mp hlast
      rw [if_pos (by simp), List.append_assoc]
      exact hbehind front
    · rw [if_neg (by simp [hempty, hlast]), List.append_assoc]
      exact hbehind path

/-! ## Texts of schema files -/

namespace Placed

/-- The text of a file that is a schema file and not blank. -/
def schemaText? (file : Placed Bytes) : Option (Placed Text) :=
  if isSchemaName file.name then
    match readFile file.content with
    | .ok text => if text.isAllBlank then none else some ⟨file.place, file.name, text⟩
    | .error _ => none
  else none

/-- A schema file is one by its name, can be decoded and is not blank. -/
theorem schemaText?_eq_some {file : Placed Bytes} {found : Placed Text} :
    file.schemaText? = some found
      ↔ isSchemaName found.name = true ∧ found.content.isAllBlank = false
        ∧ readFile file.content = .ok found.content
        ∧ file.place = found.place ∧ file.name = found.name := by
  obtain ⟨place, name, content⟩ := file
  obtain ⟨there, other, text⟩ := found
  rw [schemaText?]
  constructor
  · intro h
    obtain ⟨hnamed, h⟩ := Option.ite_none_right_eq_some.mp h
    split at h
    · next read hread =>
        obtain ⟨hvisible, h⟩ := Option.ite_none_left_eq_some.mp h
        obtain ⟨rfl, rfl, rfl⟩ := Placed.mk.inj (Option.some.inj h)
        exact ⟨hnamed, Bool.eq_false_iff.mpr hvisible, hread, rfl, rfl⟩
    · cases h
  · rintro ⟨hnamed, hvisible, hread, rfl, rfl⟩
    dsimp only at hnamed hvisible hread ⊢
    rw [if_pos hnamed, hread]
    exact if_neg (Bool.eq_false_iff.mp hvisible)

/-- Of files that can be read, the texts that are not blank are those of schema files. -/
theorem exists_texts {files : List (Placed Bytes)}
    (h : ∀ file ∈ files, isSchemaName file.name = true → ∃ text, readFile file.content = .ok text) :
    ∃ texts, ((files.filter fun file => isSchemaName file.name).mapM fun file =>
        readFile file.content) = .ok texts
      ∧ (texts.filter fun text => !text.isAllBlank)
        = (files.filterMap schemaText?).map content := by
  -- by the files; a file is read only if it is named like a schema, and kept if it is not blank
  induction files with
  | nil => exact ⟨[], rfl, rfl⟩
  | cons file rest ih =>
      obtain ⟨texts, hread, hkept⟩ := ih fun other hother => h other (List.mem_cons_of_mem _ hother)
      rw [List.filter_cons]
      by_cases hnamed : isSchemaName file.name = true
      · obtain ⟨text, htext⟩ := h file (List.mem_cons_self ..) hnamed
        refine ⟨text :: texts, ?_, ?_⟩
        · rw [if_pos hnamed, List.mapM_cons, htext, hread]
          rfl
        · by_cases hblank : text.isAllBlank = true
          · have hnone : file.schemaText? = none := by
              rw [schemaText?, if_pos hnamed, htext]
              exact if_pos hblank
            rw [List.filterMap_cons_none hnone, List.filter_cons_of_neg (by simp [hblank]), hkept]
          · have hsome : file.schemaText? = some ⟨file.place, file.name, text⟩ := by
              rw [schemaText?, if_pos hnamed, htext]
              exact if_neg hblank
            rw [List.filterMap_cons_some hsome, List.filter_cons_of_pos (by simp [hblank]), hkept]
            rfl
      · have hnone : file.schemaText? = none := if_neg hnamed
        rw [if_neg hnamed, List.filterMap_cons_none hnone]
        exact ⟨texts, hread, hkept⟩

end Placed

namespace Directory

variable {directory : Directory}

/-- A schema file below a directory: it can be read as a text that is not blank. -/
structure HoldsSchema (directory : Directory) (file : Placed Text) : Prop where
  named : isSchemaName file.name = true
  visible : file.content.isAllBlank = false
  stored : ∃ content, directory.fileAt? file.place file.name = some content
    ∧ readFile content = .ok file.content

/-- Whether the schema files below a directory can be read. -/
def Decodes (directory : Directory) : Prop :=
  ∀ place name content, directory.fileAt? place name = some content → isSchemaName name = true →
    ∃ text, readFile content = .ok text

/-- The schema files below a directory that are not blank, in the order of a walk. -/
def schemaTexts (directory : Directory) : List (Placed Text) :=
  directory.placed.filterMap Placed.schemaText?

/-- The schema files of a directory are those of its files at their places that have such a name. -/
theorem schemaFiles_eq (path : Text) (directory : Directory) :
    directory.schemaFiles path
      = (directory.placed.filter fun file => isSchemaName file.name).map fun file =>
          (file.path path, file.content) := by
  rw [schemaFiles, walk_eq_map_placed, List.filter_map]
  refine congrArg _ (List.filter_congr fun file _ => ?_)
  exact isSchemaName_joinPath ..

/-- The schema texts of a directory are those that it holds anywhere below it. -/
theorem mem_schemaTexts {file : Placed Text} :
    file ∈ directory.schemaTexts ↔ directory.HoldsSchema file := by
  rw [schemaTexts, List.mem_filterMap]
  constructor
  · rintro ⟨stored, hstored, h⟩
    obtain ⟨hnamed, hvisible, hread, hplace, hname⟩ := Placed.schemaText?_eq_some.mp h
    refine ⟨hnamed, hvisible, stored.content, ?_, hread⟩
    rw [← hplace, ← hname]
    exact mem_placed.mp hstored
  · rintro ⟨hnamed, hvisible, content, hstored, hread⟩
    refine ⟨⟨file.place, file.name, content⟩, mem_placed.mpr hstored, ?_⟩
    exact Placed.schemaText?_eq_some.mpr ⟨hnamed, hvisible, hread, rfl, rfl⟩

/-- The schema texts of a directory are in the order of a walk. -/
theorem pairwise_schemaTexts (directory : Directory) :
    directory.schemaTexts.Pairwise Placed.Precedes := by
  refine directory.pairwise_placed.filterMap _ fun stored other hbefore file hfile there hthere => ?_
  obtain ⟨-, -, -, hplace, hname⟩ := Placed.schemaText?_eq_some.mp hfile
  obtain ⟨-, -, -, hplace', hname'⟩ := Placed.schemaText?_eq_some.mp hthere
  rwa [Placed.Precedes, hplace, hname, hplace', hname'] at hbefore

/-- The texts of the schema files below a directory that can be read. -/
theorem exists_texts (h : directory.Decodes) (path : Text) :
    ∃ texts, ((directory.schemaFiles path).mapM fun file => readFile file.2) = .ok texts
      ∧ (texts.filter fun text => !text.isAllBlank)
        = directory.schemaTexts.map Placed.content := by
  rw [schemaFiles_eq, List.mapM_map]
  exact Placed.exists_texts fun file hfile => h _ _ _ (mem_placed.mp hfile)

end Directory

/-! ## Trees in another order -/

namespace FileTree

/-- Trees whose directories list the same in any order. -/
structure Relisted (tree other : FileTree) : Prop where
  root : tree.root.Relisted other.root
  here : other.here = tree.here

end FileTree

/-- What a name stands for in directories that list the same in any order. -/
inductive Node.Relists : Node → Node → Prop
  | file (content : Bytes) : Relists (.file content) (.file content)
  | directory {inner other : Directory} :
      inner.Relisted other → Relists (.directory inner) (.directory other)

/-- Relisting changes what a name leads to by relisting only. -/
theorem Directory.Relisted.node? {directory other : Directory} (h : directory.Relisted other)
    (name : Text) : Option.Rel Node.Relists (directory.node? name) (other.node? name) := by
  rw [Directory.node?, Directory.node?, h.file?_eq]
  cases directory.file? name with
  | some content => exact .some (.file content)
  | none => exact Directory.rel_map (h.directory? name) fun _ _ => .directory

namespace FileTree

variable {tree other : FileTree}

section

variable (hr : tree.Relisted other)

include hr

/-- Relisting a tree changes what a name leads to, at any place, by relisting only. -/
theorem Relisted.node? (place : List Text) (name : Text) :
    Option.Rel Node.Relists (tree.node? place name) (other.node? place name) := by
  refine Directory.rel_bind (hr.root.at? place) fun _ _ hbelow => ?_
  exact hbelow.node? name

/-- Where a step leads does not depend on the order of listings. -/
theorem Relisted.enter_eq : other.enter = tree.enter := by
  funext place step
  have hnode := hr.node? place step
  rw [enter, enter]
  generalize tree.node? place step = found, other.node? place step = there at hnode ⊢
  cases hnode with
  | none => rfl
  | some hbelow =>
      cases hbelow with
      | file => rfl
      | directory => rfl

theorem Relisted.parent_eq (path : Path) : other.parent path = tree.parent path := by
  rw [parent, parent, hr.enter_eq, hr.here]

/-- A path stands for the same. -/
theorem Relisted.look? (text : Text) :
    Option.Rel Node.Relists (tree.look? text) (other.look? text) := by
  have hplace (place : List Text) : Option.Rel Node.Relists
      ((tree.root.at? place).map .directory) ((other.root.at? place).map .directory) :=
    Directory.rel_map (hr.root.at? place) fun _ _ => .directory
  rw [FileTree.look?, FileTree.look?]
  split
  · exact .none
  · dsimp only
    rw [hr.parent_eq, hr.enter_eq]
    -- a path may have no steps, end in dots, or end in a name
    cases (Path.ofText text).steps.getLast? with
    | none =>
        cases tree.parent (Path.ofText text) with
        | error fault => exact .none
        | ok place => exact hplace place
    | some step =>
        cases tree.parent (Path.ofText text) with
        | error fault => exact .none
        | ok place =>
            dsimp only
            split
            · cases tree.enter place step with
              | error fault => exact .none
              | ok there => exact hplace there
            · have hnode := hr.node? place step
              generalize tree.node? place step = found, other.node? place step = there at hnode ⊢
              cases hnode with
              | none => exact .none
              | some hbelow =>
                  cases hbelow with
                  | directory hbelow => exact .some (.directory hbelow)
                  | file content =>
                      dsimp only
                      split
                      · exact .none
                      · exact .some (.file content)

/-- What is loaded does not depend on the order in which directories list their entries. -/
theorem Relisted.load_eq (name : Text) : other.load name = tree.load name := by
  have hlook := hr.look? name
  rw [load, load]
  generalize tree.look? name = found, other.look? name = there at hlook ⊢
  cases hlook with
  | none => rfl
  | some hbelow =>
      cases hbelow with
      | file content => rfl
      | directory hbelow =>
          dsimp only
          rw [Directory.schemaFiles, hbelow.walk_eq]
          rfl

end

variable {name : Text} {directory : Directory}

/-! ## Loading -/

/-- What loading a directory comes to: the schema files below it, in the order of their places,
    and their texts if there are any. -/
structure LoadsBelow (tree : FileTree) (name : Text) (directory : Directory)
    (found : List (Placed Text)) : Prop where
  complete : ∀ file, file ∈ found ↔ directory.HoldsSchema file
  once : found.Nodup
  ordered : found.Pairwise Placed.Precedes
  loaded : found ≠ [] → tree.load name = .ok (found.map Placed.content)
  failed : tree.load name = .error (.noFiles name) ↔ ∀ file, ¬ directory.HoldsSchema file

/-- Loading a directory whose schema files can be read gives their texts, and fails if there are
    none. -/
theorem load_of_decodes (hlook : tree.look? name = some (.directory directory))
    (h : directory.Decodes) :
    (directory.schemaTexts = [] → tree.load name = .error (.noFiles name))
      ∧ (directory.schemaTexts ≠ [] →
        tree.load name = .ok (directory.schemaTexts.map Placed.content)) := by
  obtain ⟨texts, hread, hkept⟩ := Directory.exists_texts h name
  rw [load, hlook]
  dsimp only
  rw [hread]
  dsimp only [Except.mapError, bind, Except.bind]
  rw [hkept]
  cases directory.schemaTexts with
  | nil => exact ⟨fun _ => rfl, fun hsome => absurd rfl hsome⟩
  | cons file rest => exact ⟨fun hnil => absurd hnil (List.cons_ne_nil _ _), fun _ => rfl⟩

/-- If its schema files can be decoded, a directory yields their texts in the order of a walk. -/
theorem loadsBelow_of_decodes (hlook : tree.look? name = some (.directory directory))
    (h : directory.Decodes) :
    tree.LoadsBelow name directory directory.schemaTexts := by
  have hmem (file : Placed Text) :
      file ∈ directory.schemaTexts ↔ directory.HoldsSchema file :=
    Directory.mem_schemaTexts
  have hordered := directory.pairwise_schemaTexts
  obtain ⟨hfails, hloads⟩ := load_of_decodes hlook h
  refine ⟨hmem, Placed.nodup_of_pairwise hordered, hordered, hloads, ?_⟩
  constructor
  · intro herror file hfile
    have hsome := List.ne_nil_of_mem ((hmem file).mpr hfile)
    rw [hloads hsome] at herror
    cases herror
  · intro hnone
    exact hfails (List.eq_nil_iff_forall_not_mem.mpr fun file => mt (hmem file).mp (hnone file))

/-- Names are loaded one after the other: all of them, or up to the first that fails. -/
def LoadsInTurn (tree : FileTree) (names : List Text) : Prop :=
  (∃ lists, List.Forall₂ (fun name texts => tree.load name = .ok texts) names lists
    ∧ tree.loadAll names = .ok lists.flatten)
  ∨ ∃ (before : List Text) (name : Text) (behind : List Text) (error : LoadError),
    names = before ++ name :: behind ∧ (∀ earlier ∈ before, ∃ texts, tree.load earlier = .ok texts)
      ∧ tree.load name = .error error ∧ tree.loadAll names = .error error

/-- Names are loaded one after the other, and the first error ends the loading. -/
theorem loadsInTurn (tree : FileTree) (names : List Text) : tree.LoadsInTurn names := by
  induction names with
  | nil => exact .inl ⟨[], .nil, rfl⟩
  | cons name rest ih =>
      cases hname : tree.load name with
      | error error =>
          refine .inr ⟨[], name, rest, error, rfl, List.forall_mem_nil _, hname, ?_⟩
          rw [loadAll, hname]
          rfl
      | ok texts =>
          rcases ih with ⟨lists, hlists, hall⟩
            | ⟨before, failing, behind, error, rfl, hbefore, hfails, hall⟩
          · refine .inl ⟨texts :: lists, .cons hname hlists, ?_⟩
            rw [loadAll, hname, hall]
            rfl
          · refine .inr ⟨name :: before, failing, behind, error, rfl, ?_, hfails, ?_⟩
            · exact List.forall_mem_cons.mpr ⟨⟨texts, hname⟩, hbefore⟩
            · rw [loadAll, hname, hall]
              rfl

/-- What loading comes to in a tree. -/
structure LoadsSchemas (tree : FileTree) : Prop where
  /-- A directory stands for the texts of just the schema files below it, in order. -/
  directories : ∀ name directory, tree.look? name = some (.directory directory) →
    directory.Decodes → ∃ found, tree.LoadsBelow name directory found
  /-- The order in which directories list their entries makes no difference. -/
  relisted : ∀ other, tree.Relisted other → ∀ name, other.load name = tree.load name
  /-- Several names are loaded one after the other. -/
  inTurn : ∀ names, tree.LoadsInTurn names

/-- Loading a directory is complete, without repeats and independent of the order in which
    directories list their entries. -/
theorem loadsSchemas (tree : FileTree) : tree.LoadsSchemas where
  directories := by
    intro name directory hlook hdecodes
    exact ⟨directory.schemaTexts, loadsBelow_of_decodes hlook hdecodes⟩
  relisted := by
    intro other hr name
    exact hr.load_eq name
  inTurn := tree.loadsInTurn

/-- Files and directories of related names, listed in no order; one file is blank and one is no
    schema file. -/
def nested : FileTree where
  root := .of
    [("b.gql", Utf8.encode "scalar B"), ("notes.txt", Utf8.encode "?"),
      ("a.graphql", Utf8.encode "scalar A"), ("c.gql", Utf8.encode " ")]
    [("a.gql", .of [("z.graphqls", Utf8.encode "scalar Z")] []),
      ("a", .of [("d.gql", Utf8.encode "scalar D")]
        [("a", .of [("c.gql", Utf8.encode "scalar C")] [])])]
  here := []

theorem loadsSchemas_nested :
    nested.look? "/" = some (.directory nested.root) ∧ nested.LoadsSchemas :=
  ⟨rfl, loadsSchemas nested⟩

example : nested.load "/" = .ok ["scalar A", "scalar B", "scalar D", "scalar C", "scalar Z"] := by
  rfl

end FileTree

end SchemaStitch
