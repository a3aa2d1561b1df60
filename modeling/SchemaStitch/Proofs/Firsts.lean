import Mathlib.Data.List.Basic
import Mathlib.Data.List.Induction
import Mathlib.Data.List.Nodup
import SchemaStitch.Keyed

/-! # First occurrences

    Items that come again are dropped: what is kept of a list are the items whose key is not
    among the keys seen before (`firsts`).  Dropping repeated items from parts of a list and
    then from the whole is the same as dropping them from the whole at once
    (`firsts_flatMap_firsts`).

    Which positions are kept depends on the keys only (`firsts_eq_filterMap`).

    A list of values by name is often filled step by step: a name is given a new value that
    depends on the old one, and a name without a value goes behind the others.  Seen as a
    whole such a list has every name where it comes first (`Keyed.alter_firsts`). -/

namespace SchemaStitch

variable {α β κ : Type} [DecidableEq κ]

/-- The items whose key comes for the first time, where some keys were seen already. -/
def firsts (key : α → κ) (seen : List κ) : List α → List α
  | [] => []
  | a :: rest =>
      if key a ∈ seen then firsts key seen rest else a :: firsts key (key a :: seen) rest

section

variable {key : α → κ} {seen others : List κ} {a : α} {items : List α}

/-- An item whose key was seen is dropped. -/
theorem firsts_cons_pos (h : key a ∈ seen) : firsts key seen (a :: items) = firsts key seen items :=
  if_pos h

/-- An item whose key was not seen is kept, and its key is seen from there on. -/
theorem firsts_cons_neg (h : key a ∉ seen) :
    firsts key seen (a :: items) = a :: firsts key (key a :: seen) items :=
  if_neg h

/-- Of the keys seen before, only those that come again matter. -/
theorem firsts_congr_of_mem (h : ∀ a ∈ items, key a ∈ seen ↔ key a ∈ others) :
    firsts key seen items = firsts key others items := by
  induction items generalizing seen others with
  | nil => rfl
  | cons a rest ih =>
      have hrest : ∀ b ∈ rest, key b ∈ seen ↔ key b ∈ others := fun b hb =>
        h b (List.mem_cons_of_mem _ hb)
      by_cases ha : key a ∈ seen
      · rw [firsts_cons_pos ha, firsts_cons_pos ((h a (List.mem_cons_self ..)).mp ha), ih hrest]
      · rw [firsts_cons_neg ha, firsts_cons_neg fun hb => ha ((h a (List.mem_cons_self ..)).mpr hb)]
        refine congrArg _ (ih fun b hb => ?_)
        rw [List.mem_cons, List.mem_cons, hrest b hb]

/-- Only which keys were seen matters, not in which order. -/
theorem firsts_congr (h : ∀ k, k ∈ seen ↔ k ∈ others) :
    firsts key seen items = firsts key others items :=
  firsts_congr_of_mem fun a _ => h (key a)

/-- Behind other items, the keys of those are seen. -/
theorem firsts_append (first second : List α) :
    firsts key seen (first ++ second)
      = firsts key seen first ++ firsts key (first.map key ++ seen) second := by
  induction first generalizing seen with
  | nil => rfl
  | cons a rest ih =>
      rw [List.cons_append]
      -- either way the second part starts with the same keys seen, if in another order
      by_cases ha : key a ∈ seen
      · rw [firsts_cons_pos ha, firsts_cons_pos ha, ih]
        refine congrArg _ (firsts_congr fun k => ?_)
        simp only [List.map_cons, List.mem_append, List.mem_cons]
        constructor
        · rintro (hk | hk)
          · exact .inl (.inr hk)
          · exact .inr hk
        · rintro ((rfl | hk) | hk)
          · exact .inr ha
          · exact .inl hk
          · exact .inr hk
      · rw [firsts_cons_neg ha, firsts_cons_neg ha, ih, List.cons_append]
        refine congrArg _ (congrArg _ (firsts_congr fun k => ?_))
        simp only [List.map_cons, List.mem_append, List.mem_cons]
        constructor
        · rintro (hk | rfl | hk)
          · exact .inl (.inr hk)
          · exact .inl (.inl rfl)
          · exact .inr hk
        · rintro ((rfl | hk) | hk)
          · exact .inr (.inl rfl)
          · exact .inl hk
          · exact .inr (.inr hk)

/-- What is kept keeps its order. -/
theorem firsts_sublist : (firsts key seen items).Sublist items := by
  induction items generalizing seen with
  | nil => exact .slnil
  | cons a rest ih =>
      by_cases ha : key a ∈ seen
      · rw [firsts_cons_pos ha]
        exact ih.cons a
      · rw [firsts_cons_neg ha]
        exact ih.cons_cons a

theorem mem_of_mem_firsts (h : a ∈ firsts key seen items) : a ∈ items :=
  firsts_sublist.mem h

/-- The keys that are kept are those that come and were not seen. -/
theorem mem_map_firsts {k : κ} :
    k ∈ (firsts key seen items).map key ↔ k ∈ items.map key ∧ k ∉ seen := by
  induction items generalizing seen with
  | nil => simp [firsts]
  | cons a rest ih =>
      by_cases ha : key a ∈ seen
      · rw [firsts_cons_pos ha, ih, List.map_cons, List.mem_cons]
        constructor
        · rintro ⟨hk, hs⟩
          exact ⟨.inr hk, hs⟩
        · rintro ⟨rfl | hk, hs⟩
          · exact absurd ha hs
          · exact ⟨hk, hs⟩
      · rw [firsts_cons_neg ha, List.map_cons, List.mem_cons, ih, List.map_cons, List.mem_cons,
          List.mem_cons]
        constructor
        · rintro (rfl | ⟨hk, hs⟩)
          · exact ⟨.inl rfl, ha⟩
          · exact ⟨.inr hk, fun h => hs (.inr h)⟩
        · rintro ⟨rfl | hk, hs⟩
          · exact .inl rfl
          · by_cases heq : k = key a
            · exact .inl heq
            · exact .inr ⟨hk, fun h => h.elim heq hs⟩

/-- The keys of what is kept are distinct. -/
theorem nodup_map_firsts : ((firsts key seen items).map key).Nodup := by
  induction items generalizing seen with
  | nil => exact List.nodup_nil
  | cons a rest ih =>
      by_cases ha : key a ∈ seen
      · rw [firsts_cons_pos ha]
        exact ih
      · rw [firsts_cons_neg ha, List.map_cons, List.nodup_cons, mem_map_firsts]
        exact ⟨fun h => h.2 (List.mem_cons_self ..), ih⟩

theorem firsts_eq_nil (h : ∀ a ∈ items, key a ∈ seen) : firsts key seen items = [] := by
  induction items with
  | nil => rfl
  | cons a rest ih =>
      rw [firsts_cons_pos (h a (List.mem_cons_self ..))]
      exact ih fun b hb => h b (List.mem_cons_of_mem _ hb)

/-- Items whose keys have come before add nothing behind. -/
theorem firsts_append_of_mem {again : List α} (h : ∀ a ∈ again, key a ∈ items.map key) :
    firsts key [] (items ++ again) = firsts key [] items := by
  rw [firsts_append, List.append_nil, firsts_eq_nil h, List.append_nil]

/-- Dropping what comes again by one key does not show once what comes again by a coarser key is
    dropped, if that time no less was seen. -/
theorem firsts_firsts_coarse {μ : Type} [DecidableEq μ] {coarse : α → μ} {found : List μ}
    (hkey : ∀ a b, key a = key b → coarse a = coarse b)
    (hseen : ∀ a ∈ items, key a ∈ seen → coarse a ∈ found) :
    firsts coarse found (firsts key seen items) = firsts coarse found items := by
  induction items generalizing seen found with
  | nil => rfl
  | cons a rest ih =>
      have hrest : ∀ b ∈ rest, key b ∈ seen → coarse b ∈ found := fun b hb =>
        hseen b (List.mem_cons_of_mem _ hb)
      -- an item that the finer key drops would be dropped by the coarser one as well
      by_cases ha : key a ∈ seen
      · rw [firsts_cons_pos ha, firsts_cons_pos (hseen a (List.mem_cons_self ..) ha), ih hrest]
      · rw [firsts_cons_neg ha]
        by_cases hf : coarse a ∈ found
        · rw [firsts_cons_pos hf, firsts_cons_pos hf]
          refine ih fun b hb hk => ?_
          rcases List.mem_cons.mp hk with hk | hk
          · rw [hkey b a hk]
            exact hf
          · exact hrest b hb hk
        · rw [firsts_cons_neg hf, firsts_cons_neg hf]
          refine congrArg _ (ih fun b hb hk => ?_)
          rcases List.mem_cons.mp hk with hk | hk
          · rw [hkey b a hk]
            exact List.mem_cons_self ..
          · exact List.mem_cons_of_mem _ (hrest b hb hk)

/-- Dropping what comes again twice is dropping it once, if the second time no less was
    seen. -/
theorem firsts_firsts (h : ∀ k ∈ others, k ∈ seen) :
    firsts key seen (firsts key others items) = firsts key seen items :=
  firsts_firsts_coarse (fun _ _ hab => hab) fun a _ ha => h (key a) ha

/-- Keys that tell the same items apart keep the same items. -/
theorem firsts_congr_key {μ : Type} [DecidableEq μ] {other : α → μ} {found : List μ}
    (hkey : ∀ a ∈ items, ∀ b ∈ items, key a = key b ↔ other a = other b)
    (hseen : ∀ a ∈ items, key a ∈ seen ↔ other a ∈ found) :
    firsts key seen items = firsts other found items := by
  induction items generalizing seen found with
  | nil => rfl
  | cons a rest ih =>
      have ha := hseen a (List.mem_cons_self ..)
      have hkeys : ∀ b ∈ rest, ∀ c ∈ rest, key b = key c ↔ other b = other c := fun b hb c hc =>
        hkey b (List.mem_cons_of_mem _ hb) c (List.mem_cons_of_mem _ hc)
      by_cases hs : key a ∈ seen
      · rw [firsts_cons_pos hs, firsts_cons_pos (ha.mp hs)]
        exact ih hkeys fun b hb => hseen b (List.mem_cons_of_mem _ hb)
      · rw [firsts_cons_neg hs, firsts_cons_neg fun hf => hs (ha.mpr hf)]
        refine congrArg _ (ih hkeys fun b hb => ?_)
        rw [List.mem_cons, List.mem_cons, hseen b (List.mem_cons_of_mem _ hb),
          hkey b (List.mem_cons_of_mem _ hb) a (List.mem_cons_self ..)]

/-- Items are chosen by their keys before or after those that come again are dropped. -/
theorem filter_firsts {p : α → Bool} (hp : ∀ a b, key a = key b → p a = p b) :
    (firsts key seen items).filter p = firsts key seen (items.filter p) := by
  induction items generalizing seen with
  | nil => rfl
  | cons a rest ih =>
      by_cases ha : key a ∈ seen
      · rw [firsts_cons_pos ha, ih, List.filter_cons]
        split
        · rw [firsts_cons_pos ha]
        · rfl
      · rw [firsts_cons_neg ha, List.filter_cons, List.filter_cons, ih]
        split
        · rw [firsts_cons_neg ha]
        · next hpa =>
            -- the key that was left out is not chosen, so having seen it makes no difference
            refine firsts_congr_of_mem fun b hb => ?_
            have hne : key b ≠ key a := fun heq => hpa (hp b a heq ▸ (List.mem_filter.mp hb).2)
            rw [List.mem_cons, or_iff_right hne]

/-- Dropping what comes again from parts first changes nothing in the end. -/
theorem firsts_flatMap_firsts (parts : List (List α)) :
    firsts key seen (parts.flatMap (firsts key [])) = firsts key seen parts.flatten := by
  induction parts generalizing seen with
  | nil => rfl
  | cons part rest ih =>
      have hpart : firsts key seen (firsts key [] part) = firsts key seen part :=
        firsts_firsts fun k hk => by cases hk
      rw [List.flatMap_cons, List.flatten_cons, firsts_append, firsts_append, hpart, ih]
      refine congrArg _ (firsts_congr fun k => ?_)
      rw [List.mem_append, List.mem_append, mem_map_firsts]
      simp

/-- Items may be changed before or after repeats are dropped. -/
theorem firsts_map {f : β → α} {items : List β} :
    firsts key seen (items.map f) = (firsts (fun b => key (f b)) seen items).map f := by
  induction items generalizing seen with
  | nil => rfl
  | cons b rest ih =>
      by_cases hb : key (f b) ∈ seen
      · have hskip : firsts (fun b => key (f b)) seen (b :: rest)
            = firsts (fun b => key (f b)) seen rest := firsts_cons_pos hb
        rw [List.map_cons, firsts_cons_pos hb, hskip, ih]
      · have hkeep : firsts (fun b => key (f b)) seen (b :: rest)
            = b :: firsts (fun b => key (f b)) (key (f b) :: seen) rest := firsts_cons_neg hb
        rw [List.map_cons, firsts_cons_neg hb, hkeep, ih, List.map_cons]

/-- What comes last is kept iff it does not come before. -/
theorem firsts_concat (items : List κ) (item : κ) :
    firsts id [] (items ++ [item])
      = if item ∈ items then firsts id [] items else firsts id [] items ++ [item] := by
  rw [firsts_append, List.map_id, List.append_nil]
  split
  · next h =>
      have hskip : firsts id items [item] = firsts id items [] := firsts_cons_pos h
      rw [hskip, firsts, List.append_nil]
  · next h =>
      have hkeep : firsts id items [item] = item :: firsts id (item :: items) [] :=
        firsts_cons_neg h
      rw [hkeep, firsts]

theorem mem_firsts {item : κ} {items : List κ} : item ∈ firsts id [] items ↔ item ∈ items := by
  have h : item ∈ (firsts id [] items).map id ↔ item ∈ items.map id ∧ item ∉ [] :=
    mem_map_firsts
  rw [List.map_id, List.map_id] at h
  rw [h]
  exact ⟨fun hi => hi.1, fun hi => ⟨hi, fun h => by cases h⟩⟩

theorem nodup_firsts {items : List κ} : (firsts id [] items).Nodup := by
  have h : ((firsts id [] items).map id).Nodup := nodup_map_firsts
  rwa [List.map_id] at h

/-! ## Positions -/

/-- The positions, counted from zero, of the keys that do not stand at an earlier position. -/
def firstPositions (keys : List κ) : List Nat :=
  (List.range keys.length).filter fun i => ∀ j < i, keys[j]? ≠ keys[i]?

/-- A further key is at a first position unless it came before. -/
theorem firstPositions_concat (keys : List κ) (key : κ) :
    firstPositions (keys ++ [key])
      = firstPositions keys ++ if key ∈ keys then [] else [keys.length] := by
  have hkeys : ∀ i < keys.length, (keys ++ [key])[i]? = keys[i]? := fun i hi =>
    List.getElem?_append_left hi
  rw [firstPositions, List.length_append, List.length_singleton, List.range_succ,
    List.filter_append]
  congr 1
  · -- what stands before is looked up as before
    refine List.filter_congr fun i hi => decide_eq_decide.mpr ?_
    have hlt := List.mem_range.mp hi
    refine forall₂_congr fun j hj => ?_
    rw [hkeys i hlt, hkeys j (Nat.lt_trans hj hlt)]
  · have hlast : (keys ++ [key])[keys.length]? = some key := List.getElem?_concat_length
    rw [List.filter_singleton, hlast]
    -- the last position is a first one exactly if its key is new
    by_cases h : key ∈ keys
    · obtain ⟨j, hj, hkey⟩ := List.mem_iff_getElem.mp h
      rw [if_pos h]
      have hseen : ¬∀ j < keys.length, (keys ++ [key])[j]? ≠ some key := by
        intro hall
        refine hall j hj ?_
        rw [hkeys j hj, List.getElem?_eq_getElem hj, hkey]
      rw [decide_eq_false hseen]
      rfl
    · rw [if_neg h]
      have hnew : ∀ j < keys.length, (keys ++ [key])[j]? ≠ some key := by
        intro j hj heq
        rw [hkeys j hj] at heq
        exact h (List.mem_of_getElem? heq)
      rw [decide_eq_true hnew]
      rfl

/-- A first position is one before which its key does not come. -/
theorem mem_firstPositions {keys : List κ} {i : Nat} :
    i ∈ firstPositions keys ↔ i < keys.length ∧ ∀ j < i, keys[j]? ≠ keys[i]? := by
  rw [firstPositions, List.mem_filter, List.mem_range, decide_eq_true_eq]

/-- Keys that tell the same items apart come first at the same positions. -/
theorem firstPositions_congr_key {μ : Type} [DecidableEq μ] {other : α → μ}
    (hkey : ∀ a ∈ items, ∀ b ∈ items, key a = key b ↔ other a = other b) :
    firstPositions (items.map key) = firstPositions (items.map other) := by
  rw [firstPositions, firstPositions, List.length_map, List.length_map]
  refine List.filter_congr fun i hi => decide_eq_decide.mpr ?_
  have hlt := List.mem_range.mp hi
  refine forall₂_congr fun j hj => not_congr ?_
  have hlt' := Nat.lt_trans hj hlt
  simp only [List.getElem?_map, List.getElem?_eq_getElem hlt, List.getElem?_eq_getElem hlt',
    Option.map_some, Option.some.injEq]
  exact hkey _ (List.getElem_mem hlt') _ (List.getElem_mem hlt)

/-- Every key stands at a first position. -/
theorem exists_firstPosition {keys : List κ} {i : Nat} (h : i < keys.length) :
    ∃ j ≤ i, j ∈ firstPositions keys ∧ keys[j]? = keys[i]? := by
  induction i using Nat.strongRecOn with
  | ind i ih =>
      by_cases hi : i ∈ firstPositions keys
      · exact ⟨i, Nat.le_refl i, hi, rfl⟩
      · -- the key stands before, and there it has a first position
        have hbefore : ∃ j < i, keys[j]? = keys[i]? := by
          by_contra hnone
          push Not at hnone
          exact hi (mem_firstPositions.mpr ⟨h, hnone⟩)
        obtain ⟨j, hj, hkey⟩ := hbefore
        obtain ⟨k, hk, hfirst, hsame⟩ := ih j hj (Nat.lt_trans hj h)
        exact ⟨k, Nat.le_trans hk (Nat.le_of_lt hj), hfirst, hsame.trans hkey⟩

/-- The items that are kept are those at the first positions of their keys. -/
theorem firsts_eq_filterMap (items : List α) :
    firsts key [] items = (firstPositions (items.map key)).filterMap (items[·]?) := by
  induction items using List.reverseRecOn with
  | nil => rfl
  | append_singleton items item ih =>
      have hbefore : (firstPositions (items.map key)).filterMap ((items ++ [item])[·]?)
          = (firstPositions (items.map key)).filterMap (items[·]?) := by
        refine List.filterMap_congr fun i hi => List.getElem?_append_left ?_
        have hlt := (mem_firstPositions.mp hi).1
        rwa [List.length_map] at hlt
      rw [firsts_append, ih, List.map_append, List.map_singleton, firstPositions_concat,
        List.filterMap_append, hbefore, List.append_nil]
      refine congrArg _ ?_
      by_cases h : key item ∈ items.map key
      · rw [if_pos h, firsts_cons_pos h]
        rfl
      · rw [if_neg h, firsts_cons_neg h, List.length_map]
        simp [firsts]

end

/-! ## Values by name in closed form -/

namespace Keyed

variable {α : Type} {names : List Text} {value : Text → α} {change : Option α → α}

/-- Values for names, in the order of the names. -/
def tabulate (names : List Text) (value : Text → α) : Keyed α :=
  names.map fun name => (name, value name)

/-- A name without a value goes behind the others. -/
theorem alter_tabulate_of_notMem {name : Text} (h : name ∉ names) :
    alter name change (tabulate names value) = tabulate names value ++ [(name, change none)] := by
  induction names with
  | nil => rfl
  | cons other rest ih =>
      rw [List.mem_cons, not_or] at h
      show (if other = name then _ else (other, value other) :: alter name change (tabulate rest value))
        = _
      rw [if_neg (Ne.symm h.1), ih h.2]
      rfl

/-- A name with a value keeps its place. -/
theorem alter_tabulate_of_mem {name : Text} (hn : names.Nodup) (h : name ∈ names) :
    alter name change (tabulate names value)
      = tabulate names fun other => if other = name then change (some (value name)) else value other := by
  induction names with
  | nil => cases h
  | cons other rest ih =>
      obtain ⟨hother, hrest⟩ := List.nodup_cons.mp hn
      show (if other = name then (other, change (some (value other))) :: tabulate rest value
        else (other, value other) :: alter name change (tabulate rest value)) = _
      by_cases heq : other = name
      · rw [if_pos heq, heq, tabulate, tabulate, List.map_cons, if_pos rfl]
        refine congrArg _ (List.map_congr_left fun n hmem => ?_)
        have hne : n ≠ name := fun hn => hother (heq ▸ hn ▸ hmem)
        rw [if_neg hne]
      · have hmem : name ∈ rest := (List.mem_cons.mp h).resolve_left (Ne.symm heq)
        rw [if_neg heq, ih hrest hmem, tabulate, tabulate, List.map_cons, if_neg heq]

/-- Changing the value of a name leaves the values of other names alone, and gives the name a
    place if it has none. -/
theorem alter_firsts (name : Text) :
    alter name change (tabulate (firsts id [] names) value)
      = tabulate (firsts id [] (names ++ [name])) fun other =>
          if other = name then change (if name ∈ names then some (value name) else none)
          else value other := by
  rw [firsts_concat]
  by_cases h : name ∈ names
  · rw [if_pos h, if_pos h, alter_tabulate_of_mem nodup_firsts (mem_firsts.mpr h)]
  · rw [if_neg h, if_neg h, alter_tabulate_of_notMem fun hm => h (mem_firsts.mp hm)]
    rw [tabulate, tabulate, List.map_append, List.map_singleton, if_pos rfl]
    refine congrArg (· ++ _) (List.map_congr_left fun other hmem => ?_)
    have hne : other ≠ name := fun heq => h (heq ▸ mem_firsts.mp hmem)
    rw [if_neg hne]

end Keyed

end SchemaStitch
