import SchemaStitch.Text

/-! # Values by name

    A list of values by name, each name once, in the order in which the names came
    first.  Giving a name another value leaves it where it stands, so a name that has a
    place is not given another (`Keyed.nodup_names_alter`), and other names keep their
    values (`Keyed.get?_alter`).  Names are texts, or of another type whose values can be
    compared. -/

namespace SchemaStitch

/-- Values by name, in order. -/
abbrev Keyed (α : Type) := List (Text × α)

namespace Keyed

variable {κ α : Type}

/-- The names, in order. -/
def names (entries : List (κ × α)) : List κ :=
  entries.map Prod.fst

/-- A name among the names has a value. -/
theorem exists_of_mem_names {entries : List (κ × α)} {name : κ} (h : name ∈ names entries) :
    ∃ value, (name, value) ∈ entries := by
  obtain ⟨⟨_, value⟩, hmem, rfl⟩ := List.mem_map.mp h
  exact ⟨value, hmem⟩

/-- Nothing has no name twice. -/
theorem nodup_nil : (names ([] : List (κ × α))).Nodup :=
  List.nodup_nil

variable [DecidableEq κ]

/-- The value of a name. -/
def get? (name : κ) (entries : List (κ × α)) : Option α :=
  (entries.find? fun entry => entry.1 = name).map Prod.snd

/-- Change the value of a name, or put the name behind the others. -/
def alter (name : κ) (change : Option α → α) : List (κ × α) → List (κ × α)
  | [] => [(name, change none)]
  | (other, value) :: rest =>
      if other = name then (other, change (some value)) :: rest
      else (other, value) :: alter name change rest

/-- Give a name a value. -/
def set (name : κ) (value : α) (entries : List (κ × α)) : List (κ × α) :=
  alter name (fun _ => value) entries

/-! ## Names and their values -/

variable {entries : List (κ × α)} {name : κ} {value : α} {change : Option α → α}

/-- The value of a name is found at the first entry of this name. -/
theorem get?_cons (name key : κ) (value : α) (rest : List (κ × α)) :
    get? name ((key, value) :: rest) = if key = name then some value else get? name rest := by
  rw [get?, List.find?_cons]
  by_cases hkey : key = name
  · simp [hkey]
  · simp [hkey, get?]

/-- Where every name is given once, the value of a name is the one it is given. -/
theorem get?_eq_some (h : (names entries).Nodup) :
    get? name entries = some value ↔ (name, value) ∈ entries := by
  induction entries with
  | nil => exact ⟨fun hget => (by cases hget), fun hmem => (by cases hmem)⟩
  | cons first rest ih =>
      obtain ⟨key, old⟩ := first
      obtain ⟨hfirst, hrest⟩ := List.nodup_cons.mp h
      rw [get?_cons, List.mem_cons, Prod.mk.injEq]
      by_cases hkey : key = name
      · -- no entry behind the first one has this name
        have hlater : (name, value) ∉ rest := by
          intro hmem
          have hname : name ∈ names rest := List.mem_map_of_mem hmem
          exact hfirst (hkey ▸ hname)
        simp [hkey, hlater, eq_comm]
      · rw [if_neg hkey, ih hrest]
        simp [Ne.symm hkey]

/-! ## Changing a value -/

/-- One name gets another value, and the others keep theirs. -/
theorem get?_alter (name key : κ) (change : Option α → α) (entries : List (κ × α)) :
    get? name (alter key change entries)
      = if name = key then some (change (get? name entries)) else get? name entries := by
  induction entries with
  | nil =>
      rw [alter, get?_cons]
      by_cases heq : name = key
      · rw [if_pos heq, if_pos heq.symm]
        rfl
      · rw [if_neg heq, if_neg (Ne.symm heq)]
  | cons first rest ih =>
      obtain ⟨found, value⟩ := first
      rw [alter]
      by_cases hfound : found = key
      · rw [if_pos hfound, get?_cons, get?_cons, hfound]
        by_cases heq : name = key
        · rw [if_pos heq, if_pos heq.symm, if_pos heq.symm]
        · rw [if_neg heq, if_neg (Ne.symm heq), if_neg (Ne.symm heq)]
      · rw [if_neg hfound, get?_cons, ih, get?_cons]
        by_cases heq : name = key
        · rw [if_pos heq, heq, if_neg hfound, if_neg hfound, if_pos rfl]
        · rw [if_neg heq, if_neg heq]

/-- An entry is as it was, or it is that of the name whose value is changed. -/
theorem mem_of_mem_alter {entry : κ × α} (h : entry ∈ alter name change entries) :
    entry ∈ entries ∨ entry = (name, change none)
      ∨ ∃ old, (name, old) ∈ entries ∧ entry = (name, change (some old)) := by
  induction entries with
  | nil => exact .inr (.inl (List.mem_singleton.mp h))
  | cons first rest ih =>
      rw [alter] at h
      split at h
      · next heq =>
          rcases List.mem_cons.mp h with rfl | hrest
          · exact .inr (.inr ⟨first.2, heq ▸ List.mem_cons_self .., by rw [heq]⟩)
          · exact .inl (List.mem_cons_of_mem _ hrest)
      · rcases List.mem_cons.mp h with rfl | hrest
        · exact .inl (List.mem_cons_self ..)
        · rcases ih hrest with hold | hnew | ⟨old, hold, heq⟩
          · exact .inl (List.mem_cons_of_mem _ hold)
          · exact .inr (.inl hnew)
          · exact .inr (.inr ⟨old, List.mem_cons_of_mem _ hold, heq⟩)

/-- A name that has a place is not given another. -/
theorem nodup_names_alter (name : κ) (h : (names entries).Nodup) :
    (names (alter name change entries)).Nodup := by
  induction entries with
  | nil => exact List.nodup_cons.mpr ⟨List.not_mem_nil, List.nodup_nil⟩
  | cons first rest ih =>
      obtain ⟨hfirst, hrest⟩ := List.nodup_cons.mp h
      rw [alter]
      split
      · exact h
      · next hne =>
          refine List.nodup_cons.mpr ⟨fun hmem => ?_, ih hrest⟩
          obtain ⟨entry, hentry, heq⟩ := List.mem_map.mp hmem
          rcases mem_of_mem_alter hentry with hold | rfl | ⟨old, -, rfl⟩
          · exact hfirst (heq ▸ List.mem_map_of_mem hold)
          · exact hne heq.symm
          · exact hne heq.symm

theorem nodup_names_set (name : κ) (value : α) (h : (names entries).Nodup) :
    (names (set name value entries)).Nodup :=
  nodup_names_alter name h

end Keyed

end SchemaStitch
