import Mathlib.Data.Char
import Mathlib.Data.List.Lex
import Mathlib.Data.List.Sort
import SchemaStitch.Proofs.Writing

/-! # Walking over the files below a directory

    A file below a directory has a place there: the names of the directories that lead to it, and
    its own name.  A walk comes to every file once (`Directory.mem_placed`), to the files of a
    directory itself before those of the directories in it, and to files and to directories in the
    order of their names (`Directory.pairwise_placed`).  The order in which a directory lists its
    entries makes no difference (`Directory.Relisted.walk_eq`).

    Names are compared by code points, which is the library's order of lists of characters
    (`Text.atMost_iff`), and entries are sorted by the library's insertion sort
    (`sortedBy_eq_insertionSort`), so that names that are distinct ascend strictly
    (`Directory.pairwise_sortedByName`). -/

namespace SchemaStitch

/-! ## Entries in the order of their names -/

/-- Texts are compared by the code points of their characters, the first difference decides. -/
theorem Text.atMost_iff {s t : Text} : Text.atMost s t = true ↔ s ≤ t := by
  rw [← not_lt]
  induction s generalizing t with
  | nil => simp [atMost]
  | cons c cs ih =>
      cases t with
      | nil => simp [atMost]
      | cons d ds =>
          rw [atMost, Bool.or_eq_true, Bool.and_eq_true, decide_eq_true_eq, decide_eq_true_eq, ih,
            List.cons_lt_cons_iff, ← Char.ext_iff, ← Char.lt_def]
          rcases lt_trichotomy c d with hlt | rfl | hgt
          · simp [hlt, hlt.ne', hlt.asymm]
          · simp
          · simp [hgt, hgt.ne', hgt.asymm]

section

variable {α β : Type} (atMost : α → α → Bool)

/-- Inserting an item is the library's ordered insertion. -/
theorem insertSorted_eq_orderedInsert (item : α) (items : List α) :
    insertSorted atMost item items
      = items.orderedInsert (fun first second => atMost first second = true) item := by
  induction items with
  | nil => rfl
  | cons other rest ih => rw [insertSorted, List.orderedInsert_cons, ih]

/-- Sorting is the library's insertion sort. -/
theorem sortedBy_eq_insertionSort (items : List α) :
    sortedBy atMost items
      = items.insertionSort fun first second => atMost first second = true := by
  induction items with
  | nil => rfl
  | cons item rest ih =>
      rw [List.insertionSort_cons, ← ih, ← insertSorted_eq_orderedInsert]
      rfl

end

namespace Directory

variable {α β : Type} {entries : Keyed α}

/-- Entries are sorted by the library's order of lists. -/
theorem sortedByName_eq_insertionSort (entries : Keyed α) :
    sortedByName entries = entries.insertionSort fun first second => first.1 ≤ second.1 := by
  rw [sortedByName, sortedBy_eq_insertionSort]
  simp only [Text.atMost_iff]

/-- Sorting keeps the entries. -/
theorem sortedByName_perm (entries : Keyed α) : (sortedByName entries).Perm entries := by
  rw [sortedByName_eq_insertionSort]
  exact List.perm_insertionSort ..

/-- Sorting looks at names only. -/
theorem sortedByName_map (value : Text × α → β) (entries : Keyed α) :
    sortedByName (entries.map fun entry => (entry.1, value entry))
      = (sortedByName entries).map fun entry => (entry.1, value entry) := by
  rw [sortedByName_eq_insertionSort, sortedByName_eq_insertionSort]
  refine (List.map_insertionSort _ _ _ entries fun first _ second _ => ?_).symm
  exact Iff.rfl

/-- Distinct names ascend strictly. -/
theorem pairwise_sortedByName (h : (Keyed.names entries).Nodup) :
    (sortedByName entries).Pairwise fun first second => first.1 < second.1 := by
  have htotal : Std.Total fun first second : Text × α => first.1 ≤ second.1 :=
    ⟨fun first second => le_total first.1 second.1⟩
  have htrans : IsTrans (Text × α) fun first second => first.1 ≤ second.1 :=
    ⟨fun _ _ _ => le_trans⟩
  have hsorted : (sortedByName entries).Pairwise fun first second => first.1 ≤ second.1 := by
    rw [sortedByName_eq_insertionSort]
    exact List.pairwise_insertionSort _ entries
  have hnodup : (sortedByName entries).Pairwise fun first second => first.1 ≠ second.1 :=
    List.pairwise_map.mp (((sortedByName_perm entries).map Prod.fst).nodup_iff.mpr h)
  exact hsorted.imp₂ (fun _ _ => lt_of_le_of_ne) hnodup

end Directory

/-! ## Places -/

/-- A file at its place below a directory: the names of the directories that lead to it, its own
    name, and what it holds. -/
structure Placed (α : Type) where
  place : List Text
  name : Text
  content : α

namespace Placed

variable {α : Type}

/-- A file of a directory itself. -/
def own (entry : Text × α) : Placed α :=
  ⟨[], entry.1, entry.2⟩

/-- A file seen from the directory around. -/
def within (inner : Text) (file : Placed α) : Placed α :=
  ⟨inner :: file.place, file.name, file.content⟩

/-- The path of a file below the directory of a path. -/
def path (file : Placed α) (above : Text) : Text :=
  Directory.joinPath (file.place.foldl Directory.joinPath above) file.name

/-- The order of places: the files of a directory itself by name, then those of the directories in
    it, directories by name. -/
inductive Before : List Text → Text → List Text → Text → Prop
  | names {name other : Text} : name < other → Before [] name [] other
  | own {name other step : Text} {there : List Text} : Before [] name (step :: there) other
  | directories {name other inner step : Text} {place there : List Text} :
      inner < step → Before (inner :: place) name (step :: there) other
  | within {name other inner : Text} {place there : List Text} :
      Before place name there other → Before (inner :: place) name (inner :: there) other

/-- Whether a file stands before another. -/
def Precedes (file other : Placed α) : Prop :=
  Before file.place file.name other.place other.name

/-- Of two files only one stands before the other. -/
theorem Before.asymm {place there : List Text} {name other : Text}
    (h : Before place name there other) : ¬ Before there other place name := by
  induction h with
  | names hlt =>
      intro h
      cases h with
      | names hgt => exact lt_asymm hlt hgt
  | own =>
      intro h
      cases h
  | directories hlt =>
      intro h
      cases h with
      | directories hgt => exact lt_asymm hlt hgt
      | within => exact lt_irrefl _ hlt
  | within _ ih =>
      intro h
      cases h with
      | directories hlt => exact lt_irrefl _ hlt
      | within h => exact ih h

/-- No file stands before itself, so files in order are given once. -/
theorem nodup_of_pairwise {files : List (Placed α)} (h : files.Pairwise Precedes) :
    files.Nodup := by
  refine h.imp ?_
  rintro file _ hbefore rfl
  exact hbefore.asymm hbefore

/-- There is one way to put files in order. -/
theorem eq_of_pairwise {files others : List (Placed α)} (hf : files.Pairwise Precedes)
    (ho : others.Pairwise Precedes) (h : ∀ file, file ∈ files ↔ file ∈ others) : files = others := by
  have hperm : files.Perm others :=
    (List.perm_ext_iff_of_nodup (nodup_of_pairwise hf) (nodup_of_pairwise ho)).mpr h
  refine hperm.eq_of_pairwise ?_ hf ho
  intro file other _ _ hbefore hbehind
  exact absurd hbehind (Before.asymm hbefore)

end Placed

/-! ## Walks -/

mutual

/-- The files of a catalog at their places, in the order of a walk. -/
def Catalog.placed : Catalog → List (Placed Bytes)
  | .of files directories =>
      (Directory.sortedByName files).map Placed.own
        ++ (Directory.sortedByName (placedIn directories)).flatMap Prod.snd

/-- The files of each of several catalogs, by the name of the directory. -/
def Catalog.placedIn : List (Text × Catalog) → List (Text × List (Placed Bytes))
  | [] => []
  | (name, catalog) :: rest => (name, catalog.placed.map (Placed.within name)) :: placedIn rest

end

namespace Catalog

theorem placedIn_eq_map (catalogs : Keyed Catalog) :
    placedIn catalogs
      = catalogs.map fun entry => (entry.1, entry.2.placed.map (Placed.within entry.1)) := by
  induction catalogs with
  | nil => rfl
  | cons entry rest ih => rw [placedIn, ih, List.map_cons]

/-- Files at their places are those of the directory itself and then those of the directories in
    it. -/
theorem placed_eq (catalog : Catalog) :
    catalog.placed = (Directory.sortedByName catalog.files).map Placed.own
      ++ (Directory.sortedByName catalog.directories).flatMap fun entry =>
          entry.2.placed.map (Placed.within entry.1) := by
  cases catalog with
  | of files directories =>
      rw [placed, placedIn_eq_map, Directory.sortedByName_map, List.flatMap_map]
      rfl

theorem walks_eq_map (path : Text) (catalogs : Keyed Catalog) :
    walks path catalogs
      = catalogs.map fun entry => (entry.1, entry.2.walk (Directory.joinPath path entry.1)) := by
  induction catalogs with
  | nil => rfl
  | cons entry rest ih => rw [walks, ih, List.map_cons]

/-- A walk takes the files of the directory itself and then walks over the directories in it. -/
theorem walk_eq (path : Text) (catalog : Catalog) :
    catalog.walk path
      = (Directory.sortedByName catalog.files).map
          (fun entry => (Directory.joinPath path entry.1, entry.2))
        ++ (Directory.sortedByName catalog.directories).flatMap fun entry =>
            entry.2.walk (Directory.joinPath path entry.1) := by
  cases catalog with
  | of files directories =>
      rw [walk, walks_eq_map, Directory.sortedByName_map, List.flatMap_map]
      rfl

end Catalog

namespace Directory

variable {directory other : Directory} {name : Text}

/-- The files below a directory at their places, in the order of a walk. -/
def placed (directory : Directory) : List (Placed Bytes) :=
  directory.catalog.placed

/-- The files of a directory come before those of the directories in it. -/
theorem placed_eq (directory : Directory) :
    directory.placed = (sortedByName directory.files).map Placed.own
      ++ (sortedByName directory.directories).flatMap fun entry =>
          entry.2.placed.map (Placed.within entry.1) := by
  rw [placed, Catalog.placed_eq, ← catalogs_directories, catalogs, sortedByName_map,
    List.flatMap_map]
  rfl

/-- A walk comes to the files of a directory before those of the directories in it. -/
theorem walk_eq (path : Text) (directory : Directory) :
    directory.walk path
      = (sortedByName directory.files).map (fun entry => (joinPath path entry.1, entry.2))
        ++ (sortedByName directory.directories).flatMap fun entry =>
            entry.2.walk (joinPath path entry.1) := by
  rw [walk, Catalog.walk_eq, ← catalogs_directories, catalogs, sortedByName_map,
    List.flatMap_map]
  rfl

/-- A walk comes to the files at their places, and tells their paths. -/
theorem walk_eq_map_placed (path : Text) (directory : Directory) :
    directory.walk path = directory.placed.map fun file => (file.path path, file.content) := by
  induction directory using Directory.induct generalizing path with
  | of directory ih =>
      rw [walk_eq, placed_eq, List.map_append, List.map_map, List.map_flatMap]
      refine congrArg _ (List.flatMap_congr fun entry hentry => ?_)
      rw [ih entry ((sortedByName_perm directory.directories).mem_iff.mp hentry), List.map_map]
      rfl

/-- A walk comes to every file that names lead to. -/
theorem mem_placed {file : Placed Bytes} :
    file ∈ directory.placed
      ↔ directory.fileAt? file.place file.name = some file.content := by
  obtain ⟨place, name, content⟩ := file
  induction directory using Directory.induct generalizing place with
  | of directory ih =>
      rw [placed_eq, List.mem_append, List.mem_map, List.mem_flatMap]
      -- files of the directory itself are those that no directory leads to
      cases place with
      | nil =>
          show _ ↔ Keyed.get? name directory.files = some content
          rw [Keyed.get?_eq_some directory.nodup_files,
            ← (sortedByName_perm directory.files).mem_iff]
          constructor
          · rintro (⟨entry, hentry, heq⟩ | ⟨entry, -, hmem⟩)
            · obtain ⟨-, rfl, rfl⟩ := Placed.mk.inj heq
              exact hentry
            · obtain ⟨inner, -, heq⟩ := List.mem_map.mp hmem
              cases heq
          · intro hmem
            exact .inl ⟨(name, content), hmem, rfl⟩
      | cons inner place =>
          rw [fileAt?_cons, Option.bind_eq_some_iff]
          constructor
          · rintro (⟨entry, -, heq⟩ | ⟨entry, hentry, hmem⟩)
            · cases heq
            · obtain ⟨file, hfile, heq⟩ := List.mem_map.mp hmem
              obtain ⟨hplace, rfl, rfl⟩ := Placed.mk.inj heq
              obtain ⟨rfl, rfl⟩ := List.cons.inj hplace
              rw [(sortedByName_perm directory.directories).mem_iff] at hentry
              exact ⟨entry.2, (Keyed.get?_eq_some directory.nodup_directories).mpr hentry,
                (ih entry hentry _).mp hfile⟩
          · rintro ⟨below, hbelow, hfile⟩
            have hentry := (Keyed.get?_eq_some directory.nodup_directories).mp hbelow
            refine .inr ⟨(inner, below),
              (sortedByName_perm directory.directories).mem_iff.mpr hentry, ?_⟩
            exact List.mem_map_of_mem ((ih _ hentry place).mpr hfile)

/-- A walk comes to files in the order of their places. -/
theorem pairwise_placed (directory : Directory) :
    directory.placed.Pairwise Placed.Precedes := by
  induction directory using Directory.induct with
  | of directory ih =>
      rw [placed_eq, List.pairwise_append, List.pairwise_map, List.pairwise_flatMap]
      refine ⟨(pairwise_sortedByName directory.nodup_files).imp .names, ⟨?_, ?_⟩, ?_⟩
      · -- files of one directory, of two directories, and own files before those of directories
        intro entry hentry
        rw [(sortedByName_perm directory.directories).mem_iff] at hentry
        rw [List.pairwise_map]
        exact (ih entry hentry).imp .within
      · refine (pairwise_sortedByName directory.nodup_directories).imp
          fun hlt file hfile other hother => ?_
        obtain ⟨file, -, rfl⟩ := List.mem_map.mp hfile
        obtain ⟨other, -, rfl⟩ := List.mem_map.mp hother
        exact .directories hlt
      · intro file hfile other hother
        obtain ⟨own, -, rfl⟩ := List.mem_map.mp hfile
        obtain ⟨entry, -, hother⟩ := List.mem_flatMap.mp hother
        obtain ⟨below, -, rfl⟩ := List.mem_map.mp hother
        exact .own

/-! ## Listing in another order -/

/-- Directories that list the same files and the same names of directories in any order, and so do
    the directories of one name in them. -/
inductive Relisted : Directory → Directory → Prop
  | of {directory other : Directory} :
      other.files.Perm directory.files →
      (Keyed.names other.directories).Perm (Keyed.names directory.directories) →
      (∀ name inner moved, (name, inner) ∈ directory.directories →
        (name, moved) ∈ other.directories → Relisted inner moved) →
      Relisted directory other

/-- Files have their names in any order. -/
theorem Relisted.file?_eq (h : directory.Relisted other) (name : Text) :
    other.file? name = directory.file? name := by
  cases h with
  | of hfiles _ _ =>
      refine Option.ext fun content => ?_
      rw [file?, file?, Keyed.get?_eq_some other.nodup_files,
        Keyed.get?_eq_some directory.nodup_files, hfiles.mem_iff]

theorem rel_bind {α β : Type} {R : α → α → Prop} {S : β → β → Prop} {found there : Option α}
    {f g : α → Option β} (h : Option.Rel R found there)
    (hstep : ∀ a b, R a b → Option.Rel S (f a) (g b)) :
    Option.Rel S (found.bind f) (there.bind g) := by
  cases h with
  | none => exact .none
  | some hrel => exact hstep _ _ hrel

theorem rel_map {α β : Type} {R : α → α → Prop} {S : β → β → Prop} {found there : Option α}
    {f : α → β} (h : Option.Rel R found there) (hstep : ∀ a b, R a b → S (f a) (f b)) :
    Option.Rel S (found.map f) (there.map f) := by
  cases h with
  | none => exact .none
  | some hrel => exact .some (hstep _ _ hrel)

/-- A name leads to directories that list the same in any order. -/
theorem Relisted.directory? (h : directory.Relisted other) (name : Text) :
    Option.Rel Relisted (directory.directory? name) (other.directory? name) := by
  cases h with
  | of _ hnames hinner =>
      rw [Directory.directory?, Directory.directory?]
      cases hget : Keyed.get? name directory.directories with
      | some inner =>
          have hmem := (Keyed.get?_eq_some directory.nodup_directories).mp hget
          obtain ⟨there, hthere⟩ :=
            Keyed.exists_of_mem_names (hnames.mem_iff.mpr (List.mem_map_of_mem hmem))
          rw [(Keyed.get?_eq_some other.nodup_directories).mpr hthere]
          exact .some (hinner name inner there hmem hthere)
      | none =>
          cases hthere : Keyed.get? name other.directories with
          | none => exact .none
          | some there =>
              have hmem := (Keyed.get?_eq_some other.nodup_directories).mp hthere
              obtain ⟨inner, hinner⟩ :=
                Keyed.exists_of_mem_names (hnames.mem_iff.mp (List.mem_map_of_mem hmem))
              rw [(Keyed.get?_eq_some directory.nodup_directories).mpr hinner] at hget
              cases hget

/-- Names lead to the same in directories that list it in another order. -/
theorem Relisted.at? (h : directory.Relisted other) (place : List Text) :
    Option.Rel Relisted (directory.at? place) (other.at? place) := by
  induction place generalizing directory other with
  | nil => exact .some h
  | cons inner rest ih => exact rel_bind (h.directory? inner) fun _ _ hinner => ih hinner

/-- Files are at their places in any order. -/
theorem Relisted.placed_eq (h : directory.Relisted other) : other.placed = directory.placed := by
  refine Placed.eq_of_pairwise other.pairwise_placed directory.pairwise_placed fun file => ?_
  rw [mem_placed, mem_placed, fileAt?, fileAt?]
  have hplace := h.at? file.place
  generalize directory.at? file.place = found, other.at? file.place = there at hplace ⊢
  cases hplace with
  | none => rfl
  | some hinner => rw [Option.bind_some, Option.bind_some, hinner.file?_eq]

/-- A walk does not depend on the order in which directories list their entries. -/
theorem Relisted.walk_eq (h : directory.Relisted other) (path : Text) :
    other.walk path = directory.walk path := by
  rw [walk_eq_map_placed, walk_eq_map_placed, h.placed_eq]

end Directory

end SchemaStitch
