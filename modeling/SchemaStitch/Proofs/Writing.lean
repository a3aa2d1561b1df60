import SchemaStitch.FileTree
import SchemaStitch.Proofs.Results

/-! # Writing one file

    Writing goes down the tree to where a path leads and sets one file there.  Files are told
    apart by their directory and their name: the file that was written has the new content,
    every other file is as it was, and no directory is made or lost
    (`FileTree.writes_of_write`). -/

namespace SchemaStitch

/-! ## Directories -/

namespace Directory

variable {directory : Directory} {place : List Text} {name : Text} {content : Bytes}

/-- The file of a name in the directory that names lead to. -/
def fileAt? (place : List Text) (name : Text) (directory : Directory) : Option Bytes :=
  (directory.at? place).bind (file? name)

/-- Going to a place starts with its first step. -/
theorem at?_cons (inner : Text) (place : List Text) (directory : Directory) :
    directory.at? (inner :: place) = (directory.directory? inner).bind (at? place) :=
  rfl

/-- An empty directory holds no file at any place. -/
theorem fileAt?_empty (place : List Text) (name : Text) : empty.fileAt? place name = none := by
  cases place <;> rfl

/-- A file at a place is at the rest of the place, behind the first step. -/
theorem fileAt?_cons (inner : Text) (place : List Text) (name : Text) (directory : Directory) :
    directory.fileAt? (inner :: place) name
      = (directory.directory? inner).bind (fileAt? place name) := by
  show ((directory.directory? inner).bind (at? place)).bind (file? name) = _
  rw [Option.bind_assoc]
  rfl

/-- A place may be gone to in two parts. -/
theorem at?_append (front behind : List Text) (directory : Directory) :
    directory.at? (front ++ behind) = (directory.at? front).bind (at? behind) := by
  induction front generalizing directory with
  | nil => rfl
  | cons inner rest ih =>
      show (directory.directory? inner).bind (at? (rest ++ behind))
        = ((directory.directory? inner).bind (at? rest)).bind (at? behind)
      rw [Option.bind_assoc]
      exact congrArg _ (funext ih)

/-- The last step of a place may be taken last. -/
theorem at?_concat (place : List Text) (step : Text) (directory : Directory) :
    directory.at? (place ++ [step]) = (directory.at? place).bind (directory? step) := by
  rw [at?_append]
  refine congrArg _ (funext fun inner => ?_)
  exact Option.bind_fun_some _

/-- On the way to a directory there are directories. -/
theorem isSome_at?_of_prefix {front : List Text} (hp : front <+: place)
    (h : (directory.at? place).isSome = true) : (directory.at? front).isSome = true := by
  obtain ⟨behind, rfl⟩ := hp
  rw [at?_append] at h
  cases hfront : directory.at? front with
  | none =>
      rw [hfront] at h
      cases h
  | some inner => rfl

/-- A file of the directory itself changes none of the directories in it. -/
theorem directory?_put_nil (other : Text) (directory : Directory) :
    (directory.put name content []).directory? other = directory.directory? other := by
  rw [put, directory?, directories_of, directory?]

/-- A file further down changes one of the directories in a directory. -/
theorem directory?_put_cons (inner other : Text) (rest : List Text) (directory : Directory) :
    (directory.put name content (inner :: rest)).directory? other
      = if other = inner then some (put name content rest ((directory.directory? inner).getD empty))
        else directory.directory? other := by
  rw [put, directory?, directories_of, Keyed.get?_alter]
  by_cases heq : other = inner
  · rw [if_pos heq, if_pos heq, heq]
    rfl
  · rw [if_neg heq, if_neg heq]
    rfl

/-- One file is set, and no other file changes. -/
theorem fileAt?_put (place other : List Text) (name key : Text) (content : Bytes)
    (directory : Directory) :
    (directory.put name content place).fileAt? other key
      = if other = place ∧ key = name then some content else directory.fileAt? other key := by
  -- down the way to the file, as long as the other way is the same
  induction place generalizing directory other with
  | nil =>
      cases other with
      | nil =>
          show Keyed.get? key (Keyed.set name content directory.files) = _
          rw [Keyed.set, Keyed.get?_alter]
          by_cases hk : key = name
          · rw [if_pos hk, if_pos ⟨rfl, hk⟩]
          · rw [if_neg hk, if_neg fun h => hk h.2]
            rfl
      | cons inner rest =>
          rw [if_neg fun h => List.cons_ne_nil _ _ h.1, fileAt?_cons, directory?_put_nil,
            fileAt?_cons]
  | cons step place ih =>
      cases other with
      | nil =>
          rw [if_neg fun h => List.cons_ne_nil _ _ h.1.symm]
          rfl
      | cons inner rest =>
          rw [fileAt?_cons, directory?_put_cons, fileAt?_cons]
          by_cases heq : inner = step
          · -- a directory that was not there is made empty and so holds no other file
            have hold : ((directory.directory? inner).getD empty).fileAt? rest key
                = (directory.directory? inner).bind (fileAt? rest key) := by
              cases directory.directory? inner with
              | none => exact fileAt?_empty rest key
              | some old => rfl
            rw [if_pos heq, ← heq, Option.bind_some, ih, hold]
            simp only [List.cons.injEq, true_and]
          · rw [if_neg heq, if_neg fun h => heq (List.cons.inj h.1).1]

/-- No directory is lost, and only those on the way to the file are made. -/
theorem isSome_at?_put {other : List Text} :
    ((directory.put name content place).at? other).isSome = true
      ↔ (directory.at? other).isSome = true ∨ other <+: place := by
  induction place generalizing directory other with
  | nil =>
      cases other with
      | nil => exact ⟨fun _ => .inl rfl, fun _ => rfl⟩
      | cons inner rest =>
          rw [or_iff_left fun h => List.cons_ne_nil _ _ (List.prefix_nil.mp h), at?_cons,
            directory?_put_nil, at?_cons]
  | cons step place ih =>
      cases other with
      | nil => exact ⟨fun _ => .inl rfl, fun _ => rfl⟩
      | cons inner rest =>
          rw [at?_cons, at?_cons, directory?_put_cons, List.cons_prefix_cons]
          by_cases heq : inner = step
          · rw [if_pos heq, ← heq, Option.bind_some, ih, and_iff_right rfl]
            cases directory.directory? inner with
            | some old => rfl
            | none =>
                -- a directory that is made holds no others
                have hempty : (empty.at? rest).isSome = true → rest <+: place := by
                  cases rest with
                  | nil => exact fun _ => List.nil_prefix
                  | cons next others => exact fun h => by cases h
                constructor
                · rintro (h | h)
                  · exact .inr (hempty h)
                  · exact .inr h
                · rintro (h | h)
                  · cases h
                  · exact .inr h
          · rw [if_neg heq, or_iff_left fun h => heq h.1]

/-- A name stands for a directory where no file has it. -/
theorem node?_eq_directory {inner : Directory} :
    directory.node? name = some (.directory inner)
      ↔ directory.file? name = none ∧ directory.directory? name = some inner := by
  rw [node?]
  cases directory.file? name with
  | some content =>
      constructor
      · intro h
        cases h
      · rintro ⟨h, -⟩
        cases h
  | none =>
      constructor
      · intro h
        obtain ⟨found, hfound, heq⟩ := Option.map_eq_some_iff.mp h
        obtain rfl := Node.directory.inj heq
        exact ⟨rfl, hfound⟩
      · rintro ⟨-, h⟩
        exact Option.map_eq_some_iff.mpr ⟨inner, h, rfl⟩

end Directory

/-! ## File trees -/

namespace FileTree

variable {tree changed : FileTree} {text : Text} {place : List Text} {name : Text} {content : Bytes}

/-- The file of a name in the directory that names lead to. -/
def file? (tree : FileTree) (place : List Text) (name : Text) : Option Bytes :=
  tree.root.fileAt? place name

/-- Whether names lead to a directory. -/
def isDirectory (tree : FileTree) (place : List Text) : Bool :=
  (tree.root.at? place).isSome

/-- A name that stands for a directory is not that of a file. -/
theorem node?_eq_directory {step : Text} :
    (∃ directory, tree.node? place step = some (.directory directory))
      ↔ tree.file? place step = none ∧ tree.isDirectory (place ++ [step]) = true := by
  rw [node?, file?, isDirectory, Directory.fileAt?, Directory.at?_concat]
  cases tree.root.at? place with
  | none =>
      constructor
      · rintro ⟨directory, h⟩
        cases h
      · rintro ⟨-, h⟩
        cases h
  | some directory =>
      simp only [Option.bind_some, Directory.node?_eq_directory, exists_and_left,
        Option.isSome_iff_exists]

/-- A name that has a file leads to the file. -/
theorem node?_eq_file (h : tree.file? place name = some content) :
    tree.node? place name = some (.file content) := by
  obtain ⟨directory, hdirectory, hfile⟩ := Option.bind_eq_some_iff.mp h
  rw [node?, hdirectory, Option.bind_some, Directory.node?, hfile]

/-- A step to a directory stays where it is, goes up, or goes to a directory of that name. -/
theorem enter_eq_ok {step : Text} {next : List Text} : tree.enter place step = .ok next
    ↔ step = Path.stay ∧ next = place ∨ step = Path.up ∧ next = place.dropLast
      ∨ Path.isDots step = false ∧ Path.exceeds Path.longestName step = false
        ∧ (∃ directory, tree.node? place step = some (.directory directory))
        ∧ next = place ++ [step] := by
  constructor
  · intro h
    rw [enter] at h
    -- the guards in the order in which they are looked at
    split at h
    · next hstay => exact .inl ⟨hstay, (Except.ok.inj h).symm⟩
    · next hstay =>
        split at h
        · next hup => exact .inr (.inl ⟨hup, (Except.ok.inj h).symm⟩)
        · next hup =>
            split at h
            · cases h
            · next hshort =>
                split at h
                · cases h
                · cases h
                · next directory hnode =>
                    refine .inr (.inr ⟨?_, Bool.eq_false_iff.mpr hshort, ⟨directory, hnode⟩,
                      (Except.ok.inj h).symm⟩)
                    simp [Path.isDots, hstay, hup]
  · rintro (⟨rfl, rfl⟩ | ⟨rfl, rfl⟩ | ⟨hdots, hshort, ⟨directory, hnode⟩, rfl⟩)
    · exact if_pos rfl
    · rfl
    · rw [Path.isDots, Bool.or_eq_false_iff, decide_eq_false_iff_not,
        decide_eq_false_iff_not] at hdots
      rw [enter, if_neg hdots.1, if_neg hdots.2, if_neg (Bool.eq_false_iff.mp hshort), hnode]

/-- A step into a directory ends in a directory. -/
theorem isDirectory_enter {step : Text} {next : List Text} (hp : tree.isDirectory place = true)
    (h : tree.enter place step = .ok next) : tree.isDirectory next = true := by
  rcases enter_eq_ok.mp h with ⟨-, rfl⟩ | ⟨-, rfl⟩ | ⟨-, -, hnode, rfl⟩
  · exact hp
  · exact Directory.isSome_at?_of_prefix (List.dropLast_prefix place) hp
  · exact (node?_eq_directory.mp hnode).2

/-- Trees the second of which has the directories of the first, and no file in the way to one of
    them. -/
structure Keeps (tree other : FileTree) : Prop where
  here : other.here = tree.here
  directories : ∀ place, tree.isDirectory place = true → other.isDirectory place = true
  clear : ∀ place step, (∃ directory, tree.node? place step = some (.directory directory)) →
    other.file? place step = none

namespace Keeps

variable {other : FileTree}

theorem node?_directory (hk : tree.Keeps other) {step : Text}
    (h : ∃ directory, tree.node? place step = some (.directory directory)) :
    ∃ directory, other.node? place step = some (.directory directory) := by
  have hdirectory := (node?_eq_directory.mp h).2
  exact node?_eq_directory.mpr ⟨hk.clear place step h, hk.directories _ hdirectory⟩

/-- Every step that can be taken can still be taken. -/
theorem enter (hk : tree.Keeps other) {step : Text} {next : List Text}
    (h : tree.enter place step = .ok next) : other.enter place step = .ok next := by
  refine enter_eq_ok.mpr ?_
  rcases enter_eq_ok.mp h with hstay | hup | ⟨hdots, hshort, hnode, hnext⟩
  · exact .inl hstay
  · exact .inr (.inl hup)
  · exact .inr (.inr ⟨hdots, hshort, hk.node?_directory hnode, hnext⟩)

/-- The directory around a path stays where it was. -/
theorem parent (hk : tree.Keeps other) {path : Path} (h : tree.parent path = .ok place) :
    other.parent path = .ok place := by
  -- the steps are taken one by one, so the induction is over any place to start from
  have hfold : ∀ (steps front : List Text), steps.foldlM tree.enter front = .ok place →
      steps.foldlM other.enter front = .ok place := by
    intro steps
    induction steps with
    | nil => exact fun _ h => h
    | cons step rest ih =>
        intro front h
        rw [List.foldlM_cons] at h ⊢
        obtain ⟨next, hnext, h⟩ := bind_eq_ok.mp h
        exact bind_eq_ok.mpr ⟨next, hk.enter hnext, ih next h⟩
  rw [FileTree.parent, hk.here]
  exact hfold _ _ h

end Keeps

/-- What a file can be written to: a path that is no directory, in the directory its other steps
    lead to. -/
structure Target (tree : FileTree) (text : Text) (place : List Text) (name : Text) : Prop where
  nonempty : text.isEmpty = false
  short : Path.exceeds Path.longestPath text = false
  last : (Path.ofText text).steps.getLast? = some name
  parent : tree.parent (Path.ofText text) = .ok place
  unslashed : (Path.ofText text).slashed = false
  named : Path.isDots name = false
  free : ∀ directory, tree.node? place name ≠ some (.directory directory)

theorem target_eq_ok (h : tree.target text = .ok (place, name)) : tree.Target text place name := by
  -- each guard that is passed is one field of what is claimed
  rw [target] at h
  split at h
  · cases h
  · split at h
    · cases h
    · next hempty =>
        split at h
        · cases h
        · next hshort =>
            dsimp only at h
            split at h
            · cases h
            · next step hlast =>
                obtain ⟨found, hparent, h⟩ := bind_eq_ok.mp h
                split at h
                · cases h
                · next hplain =>
                    rw [Bool.or_eq_true, not_or] at hplain
                    split at h
                    · cases h
                    · split at h
                      · cases h
                      · next hnode =>
                          obtain ⟨rfl, rfl⟩ := Prod.mk.inj (Except.ok.inj h)
                          exact ⟨Bool.eq_false_iff.mpr hempty, Bool.eq_false_iff.mpr hshort, hlast,
                            hparent, Bool.eq_false_iff.mpr hplain.1,
                            Bool.eq_false_iff.mpr hplain.2, hnode⟩

/-- What writing one file does: a path leads to a file with the new content, and no other file
    and no directory is changed. -/
structure Writes (tree : FileTree) (text : Text) (content : Bytes) (changed : FileTree) : Prop where
  written : changed.look? text = some (.file content)
  here : changed.here = tree.here
  files : ∃ place name, tree.Target text place name ∧ ∀ other key, changed.file? other key
    = if other = place ∧ key = name then some content else tree.file? other key
  directories : tree.isDirectory tree.here = true →
    ∀ other, changed.isDirectory other = tree.isDirectory other

section

variable (ht : tree.Target text place name)
  (hfiles : ∀ other key, changed.file? other key
    = if other = place ∧ key = name then some content else tree.file? other key)
  (hkept : ∀ other, tree.isDirectory other = true → changed.isDirectory other = true)
  (hhere : changed.here = tree.here)

include ht hfiles hkept hhere

/-- The file that is written stands in the way of no directory. -/
theorem Target.keeps : tree.Keeps changed where
  here := hhere
  directories := hkept
  clear := by
    intro front step hnode
    have hother : ¬ (front = place ∧ step = name) := by
      rintro ⟨rfl, rfl⟩
      obtain ⟨directory, hnode⟩ := hnode
      exact ht.free directory hnode
    rw [hfiles, if_neg hother]
    exact (node?_eq_directory.mp hnode).1

/-- What was written is found where it was written. -/
theorem Target.look_changed : changed.look? text = some (.file content) := by
  have hparent := (ht.keeps hfiles hkept hhere).parent ht.parent
  have hnode : changed.node? place name = some (.file content) := by
    refine node?_eq_file ?_
    rw [hfiles, if_pos ⟨rfl, rfl⟩]
  rw [look?, ht.nonempty, ht.short]
  simp only [Bool.or_self, Bool.false_eq_true, if_false, ht.last, hparent, ht.named, hnode,
    ht.unslashed]

end

theorem isDirectory_parent {path : Path} (hh : tree.isDirectory tree.here = true)
    (h : tree.parent path = .ok place) : tree.isDirectory place = true := by
  have hfold : ∀ (steps : List Text) (front : List Text), tree.isDirectory front = true →
      steps.foldlM tree.enter front = .ok place → tree.isDirectory place = true := by
    intro steps
    induction steps with
    | nil =>
        intro front hfront h
        exact Except.ok.inj h ▸ hfront
    | cons step rest ih =>
        intro front hfront h
        rw [List.foldlM_cons] at h
        obtain ⟨next, hnext, h⟩ := bind_eq_ok.mp h
        exact ih next (isDirectory_enter hfront hnext) h
  refine hfold _ _ ?_ h
  split
  · rfl
  · exact hh

/-- Writing changes the one file that is named. -/
theorem writes_of_write (h : tree.write text content = .ok changed) :
    tree.Writes text content changed := by
  obtain ⟨⟨place, name⟩, htarget, rfl⟩ := map_eq_ok.mp h
  have ht := target_eq_ok htarget
  have hfiles := fun other key => tree.root.fileAt?_put place other name key content
  have hkept (other : List Text) (hother : tree.isDirectory other = true) :
      isDirectory ⟨tree.root.put name content place, tree.here⟩ other = true :=
    Directory.isSome_at?_put.mpr (.inl hother)
  refine ⟨ht.look_changed hfiles hkept rfl, rfl, ⟨place, name, ht, hfiles⟩, fun hhere other => ?_⟩
  have hplace := isDirectory_parent hhere ht.parent
  rw [Bool.eq_iff_iff]
  constructor
  · intro hother
    rcases Directory.isSome_at?_put.mp hother with hother | hprefix
    · exact hother
    · exact Directory.isSome_at?_of_prefix hprefix hplace
  · exact hkept other

end FileTree

end SchemaStitch
