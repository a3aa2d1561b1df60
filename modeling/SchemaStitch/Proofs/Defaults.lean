import Mathlib.Data.Finset.Card
import Mathlib.Order.Monotone.Basic
import SchemaStitch.Validation

/-! # Default values that lead on to other types

    The fields of an input type are known once its default values are fitted, and that may need
    the fields of other types, or of the same type again.  `Build.slots` follows default values
    over as many types as there are definitions and then gives up.

    That is far enough.  What is settled by following them over any number of types is settled
    so (`slots_eq_slotsWithin`), and `Build.slots` yields for each type what its members are
    with the fields of all types at hand (`slots_eq_slotsFrom`): it gives up only where there
    is no answer.

    Following them further changes only what was given up (`Extends`), and every way of looking
    at a value respects that.  If one more type settles nothing new, the next does not either,
    so each of them settles the fields of another type until all are settled that can be. -/

namespace SchemaStitch

/-! ## Faults that stand for no answer -/

/-- Whether a fault is that default values lead on without end. -/
def BuildFault.isEndless : BuildFault → Bool
  | .endlessDefaults => true
  | .fields _ cause => cause.isEndless
  | _ => false

namespace Build

variable {α β : Type}

/-- Nothing was found out, as default values lead on further than they were followed. -/
def GivenUp (outcome : Except BuildFault α) : Prop :=
  ∃ fault, outcome = .error fault ∧ fault.isEndless = true

/-- What was found out stays, and what was given up may be anything. -/
def Extends (outcome further : Except BuildFault α) : Prop :=
  GivenUp outcome ∨ outcome = further

/-- Whether something was given up can be told. -/
instance (outcome : Except BuildFault α) : Decidable (GivenUp outcome) :=
  match outcome with
  | .ok _ => isFalse fun ⟨_, h, _⟩ => nomatch h
  | .error fault =>
      if h : fault.isEndless = true then isTrue ⟨fault, rfl, h⟩
      else isFalse fun ⟨_, same, endless⟩ => h (Except.error.inj same ▸ endless)

/-- Every outcome extends itself. -/
theorem Extends.refl (outcome : Except BuildFault α) : Extends outcome outcome :=
  .inr rfl

/-- What is given up is given up by all that comes after it. -/
theorem GivenUp.bind {outcome : Except BuildFault α} (h : GivenUp outcome)
    (next : α → Except BuildFault β) : GivenUp (outcome >>= next) := by
  obtain ⟨fault, rfl, endless⟩ := h
  exact ⟨fault, rfl, endless⟩

/-- One step after another is extended step by step. -/
theorem Extends.bind {outcome further : Except BuildFault α} {next next' : α → Except BuildFault β}
    (h : Extends outcome further) (hnext : ∀ a, Extends (next a) (next' a)) :
    Extends (outcome >>= next) (further >>= next') := by
  obtain given | rfl := h
  · exact .inl (given.bind next)
  · cases outcome with
    | error fault => exact .refl _
    | ok a => exact hnext a

/-- A fault is reported as one of a type, given up or not. -/
theorem Extends.mapError {outcome further : Except BuildFault α} (h : Extends outcome further)
    (name : Text) :
    Extends (outcome.mapError (.fields name)) (further.mapError (.fields name)) := by
  obtain ⟨fault, rfl, endless⟩ | rfl := h
  · exact .inl ⟨.fields name fault, rfl, endless⟩
  · exact .refl _

/-- A list looked at item by item is extended item by item. -/
theorem Extends.mapM {look look' : α → Except BuildFault β} (h : ∀ a, Extends (look a) (look' a))
    (items : List α) : Extends (items.mapM look) (items.mapM look') := by
  induction items with
  | nil => exact .refl _
  | cons item rest ih =>
      rw [List.mapM_cons, List.mapM_cons]
      exact (h item).bind fun _ => ih.bind fun _ => .refl _

/-! ## Fitting values, with the fields of input types followed further -/

variable {definitions : List Definition} {slots slots' : Text → Except BuildFault (List Slot)}

/-- The items of a list fit as before. -/
theorem fitAll_extends {look look' : α → Fitting} {items : List α}
    (h : ∀ item ∈ items, ∀ type, Extends (look item type) (look' item type)) (type : TypeRef) :
    Extends (fitAll type (items.map look)) (fitAll type (items.map look')) := by
  induction items with
  | nil => exact .refl _
  | cons item rest ih =>
      refine (h item List.mem_cons_self type).bind fun fit => ?_
      cases fit with
      | nothing => exact .refl _
      | null => exact ih fun item hm => h item (List.mem_cons_of_mem _ hm)
      | value => exact ih fun item hm => h item (List.mem_cons_of_mem _ hm)

/-- The fields of an object fit as before. -/
theorem fitSlots_extends {look look' : α → Fitting} {fields : List (Text × α)}
    (h : ∀ field ∈ fields, ∀ type, Extends (look field.2 type) (look' field.2 type))
    (wanted : List Slot) :
    Extends (fitSlots (fields.map fun field => (field.1, look field.2)) wanted)
      (fitSlots (fields.map fun field => (field.1, look' field.2)) wanted) := by
  induction wanted with
  | nil => exact .refl _
  | cons slot rest ih =>
      simp only [fitSlots, ← List.map_reverse, List.find?_map, Function.comp_def]
      cases found : fields.reverse.find? fun field => field.1 == slot.name with
      | none =>
          cases slot.default with
          | nothing =>
              simp only [Option.map_none]
              split
              · exact .refl _
              · exact ih
          | null => exact ih.bind fun _ => .refl _
          | value => exact ih.bind fun _ => .refl _
      | some field =>
          have hm : field ∈ fields := List.mem_reverse.mp (List.mem_of_find?_eq_some found)
          refine (h field hm slot.type).bind fun fit => ?_
          cases fit with
          | nothing => exact .refl _
          | null => exact ih.bind fun _ => .refl _
          | value => exact ih.bind fun _ => .refl _

/-- The fittings of the items of a list are those of each. -/
theorem fittings_eq_map (items : List Value) :
    fittings definitions slots items = items.map (fitting definitions slots) := by
  induction items with
  | nil => rfl
  | cons item rest ih => rw [fittings, ih, List.map_cons]

/-- The fittings of the fields of an object are those of the value of each. -/
theorem fieldFittings_eq_map (fields : List (Text × Value)) :
    fieldFittings definitions slots fields
      = fields.map fun field => (field.1, fitting definitions slots field.2) := by
  induction fields with
  | nil => rfl
  | cons field rest ih => rw [fieldFittings, ih, List.map_cons]

/-- A value that is no object fits a type by its name as before. -/
theorem fitNamed_none (name : Text) (value : Value) :
    fitNamed definitions slots name value none = fitNamed definitions slots' name value none := by
  unfold fitNamed
  rfl

/-- An object fits a type by its name as before, if its fields do. -/
theorem fitNamed_extends (hslots : ∀ name, Extends (slots name) (slots' name))
    {look look' : α → Fitting} {fields : List (Text × α)}
    (h : ∀ field ∈ fields, ∀ type, Extends (look field.2 type) (look' field.2 type))
    (name : Text) (value : Value) :
    Extends
      (fitNamed definitions slots name value
        (some (fields.map fun field => (field.1, look field.2))))
      (fitNamed definitions slots' name value
        (some (fields.map fun field => (field.1, look' field.2)))) := by
  unfold fitNamed
  split
  · exact (hslots name).bind fun wanted => (fitSlots_extends h wanted).bind fun _ => .refl _
  all_goals exact .refl _

mutual

/-- A value fits a type as before. -/
theorem fitting_extends (hslots : ∀ name, Extends (slots name) (slots' name)) :
    (value : Value) → ∀ type,
      Extends (fitting definitions slots value type) (fitting definitions slots' value type)
  | .null, type => by simpa only [fitting] using .refl _
  | .list items, .list item required => by
      simp only [fitting, fittings_eq_map]
      exact fitAll_extends (items_extend hslots items) item
  | .list items, .named name required => by
      simp only [fitting]
      exact .inr (fitNamed_none name _)
  | .object fields, type => by
      simp only [fitting, fieldFittings_eq_map]
      exact fitNamed_extends hslots (fields_extend hslots fields) type.name _
  | .variableRef _, type => by simpa only [fitting] using .inr (fitNamed_none type.name _)
  | .int _, type => by simpa only [fitting] using .inr (fitNamed_none type.name _)
  | .float _, type => by simpa only [fitting] using .inr (fitNamed_none type.name _)
  | .string _, type => by simpa only [fitting] using .inr (fitNamed_none type.name _)
  | .boolean _, type => by simpa only [fitting] using .inr (fitNamed_none type.name _)
  | .enum _, type => by simpa only [fitting] using .inr (fitNamed_none type.name _)

/-- Each of some values fits a type as before. -/
theorem items_extend (hslots : ∀ name, Extends (slots name) (slots' name)) :
    (items : List Value) → ∀ item ∈ items, ∀ type,
      Extends (fitting definitions slots item type) (fitting definitions slots' item type)
  | [] => fun _ hm => absurd hm List.not_mem_nil
  | first :: rest => fun item hm type => by
      obtain same | hm := List.mem_cons.mp hm
      · rw [same]
        exact fitting_extends hslots first type
      · exact items_extend hslots rest item hm type

/-- The value of each of some fields fits a type as before. -/
theorem fields_extend (hslots : ∀ name, Extends (slots name) (slots' name)) :
    (fields : List (Text × Value)) → ∀ field ∈ fields, ∀ type,
      Extends (fitting definitions slots field.2 type) (fitting definitions slots' field.2 type)
  | [] => fun _ hm => absurd hm List.not_mem_nil
  | (name, value) :: rest => fun field hm type => by
      obtain rfl | hm := List.mem_cons.mp hm
      · exact fitting_extends hslots value type
      · exact fields_extend hslots rest field hm type

end

/-! ## The fields of input types, followed further -/

/-- The fields of an input type are what they were, if those of all others are. -/
theorem slotsFrom_extends (hslots : ∀ name, Extends (slots name) (slots' name)) (name : Text) :
    Extends (slotsFrom definitions slots name) (slotsFrom definitions slots' name) := by
  unfold slotsFrom
  split
  · exact .refl _
  · refine Extends.mapError (Extends.mapM (fun input => ?_) _) name
    have hdefault : Extends (fitDefault definitions slots input)
        (fitDefault definitions slots' input) := by
      unfold fitDefault
      split
      · exact .refl _
      · exact fitting_extends hslots _ _
    exact hdefault.bind fun _ => .refl _

/-- What some number of types settles, one more leaves as it is. -/
theorem slotsWithin_extends (depth : Nat) (name : Text) :
    Extends (slotsWithin definitions depth name) (slotsWithin definitions (depth + 1) name) := by
  induction depth generalizing name with
  | zero => exact .inl ⟨.endlessDefaults, rfl, rfl⟩
  | succ depth ih => exact slotsFrom_extends ih name

/-- What some number of types settles, any greater number leaves as it is. -/
theorem slotsWithin_eq_of_le {depth further : Nat} (hle : depth ≤ further) {name : Text}
    (h : ¬ GivenUp (slotsWithin definitions depth name)) :
    slotsWithin definitions further name = slotsWithin definitions depth name := by
  induction further, hle using Nat.le_induction with
  | base => rfl
  | succ further _ ih =>
      rw [← ih] at h ⊢
      exact ((slotsWithin_extends further name).resolve_left h).symm

/-! ## As many types as there are definitions -/

/-- The types whose fields are settled at some depth. -/
def settled (definitions : List Definition) (depth : Nat) : Finset Text :=
  ((ownTypes definitions).map TypeDefinition.name).toFinset.filter fun name =>
    ¬ GivenUp (slotsWithin definitions depth name)

/-- A type is settled if the document defines it and it is not given up. -/
theorem mem_settled {depth : Nat} {name : Text} :
    name ∈ settled definitions depth
      ↔ name ∈ (ownTypes definitions).map TypeDefinition.name
        ∧ ¬ GivenUp (slotsWithin definitions depth name) := by
  rw [settled, Finset.mem_filter, List.mem_toFinset]

/-- What is settled stays settled. -/
theorem settled_subset {depth further : Nat} (hle : depth ≤ further) :
    settled definitions depth ⊆ settled definitions further := by
  intro name hm
  obtain ⟨hname, hsettled⟩ := mem_settled.mp hm
  refine mem_settled.mpr ⟨hname, ?_⟩
  rw [slotsWithin_eq_of_le hle hsettled]
  exact hsettled

/-- A name that no definition gives to a type is settled at once. -/
theorem slotsWithin_of_not_mem {name : Text}
    (h : name ∉ (ownTypes definitions).map TypeDefinition.name) (depth : Nat) :
    slotsWithin definitions (depth + 1) name = .ok [] := by
  have hnone : type? definitions name = none := by
    simp only [type?, List.find?_eq_none, List.mem_reverse, beq_iff_eq]
    exact fun type hm same => h (List.mem_map.mpr ⟨type, hm, same⟩)
  simp only [slotsWithin, slotsFrom, hnone]

/-- There are at most as many settled types as definitions. -/
theorem card_settled_le (depth : Nat) : (settled definitions depth).card ≤ definitions.length :=
  calc (settled definitions depth).card
      ≤ ((ownTypes definitions).map TypeDefinition.name).toFinset.card :=
        Finset.card_le_card (Finset.filter_subset _ _)
    _ ≤ ((ownTypes definitions).map TypeDefinition.name).length := List.toFinset_card_le _
    _ = (ownTypes definitions).length := List.length_map _
    _ ≤ definitions.length := List.length_filterMap_le _ _

/-- If a further type settles nothing new, what it gives up is what was given up before. -/
theorem slotsWithin_extends_back {depth : Nat}
    (same : settled definitions (depth + 1) = settled definitions (depth + 2)) (name : Text) :
    Extends (slotsWithin definitions (depth + 2) name)
      (slotsWithin definitions (depth + 1) name) := by
  by_cases hm : name ∈ (ownTypes definitions).map TypeDefinition.name
  · by_cases given : GivenUp (slotsWithin definitions (depth + 2) name)
    · exact .inl given
    · have hsettled : name ∈ settled definitions (depth + 1) := by
        rw [same]
        exact mem_settled.mpr ⟨hm, given⟩
      exact .inr (slotsWithin_eq_of_le (Nat.le_succ _) (mem_settled.mp hsettled).2)
  · rw [slotsWithin_of_not_mem hm, slotsWithin_of_not_mem hm]
    exact .refl _

/-- If a further type settles nothing new, neither does the next. -/
theorem settled_stays {depth : Nat}
    (same : settled definitions (depth + 1) = settled definitions (depth + 2)) :
    settled definitions (depth + 2) = settled definitions (depth + 3) := by
  refine (settled_subset (Nat.le_succ _)).antisymm fun name hm => ?_
  obtain ⟨hname, hsettled⟩ := mem_settled.mp hm
  refine mem_settled.mpr ⟨hname, fun given => hsettled ?_⟩
  -- looked at with what the earlier depth settles, the type is given up already
  obtain further | further := slotsFrom_extends (slotsWithin_extends_back same) name
  · exact further
  · show GivenUp (slotsFrom definitions _ name)
    rw [further]
    exact given

/-- What any number of types settles is settled by as many as there are definitions. -/
theorem settled_subset_settled_length (depth : Nat) :
    settled definitions depth ⊆ settled definitions (definitions.length + 1) := by
  -- counted from the depth at which names of no type are settled
  have hmono : Monotone fun depth => (settled definitions (depth + 1)).card :=
    fun _ _ hle => Finset.card_le_card (settled_subset (Nat.succ_le_succ hle))
  have hstay : (settled definitions (max depth definitions.length + 1)).card
      = (settled definitions (definitions.length + 1)).card := by
    refine Nat.stabilises_of_monotone hmono (fun _ => card_settled_le _) (fun further same => ?_)
      (Nat.le_max_right _ _)
    exact congrArg Finset.card (settled_stays
      (Finset.eq_of_subset_of_card_le (settled_subset (Nat.le_succ _)) same.ge))
  have hsame : settled definitions (definitions.length + 1)
      = settled definitions (max depth definitions.length + 1) :=
    Finset.eq_of_subset_of_card_le
      (settled_subset (Nat.succ_le_succ (Nat.le_max_right _ _))) hstay.le
  rw [hsame]
  exact settled_subset ((Nat.le_max_left _ _).trans (Nat.le_succ _))

/-- **Enough types are followed.**  If default values followed some number of types settle the
    fields of an input type, the fields are these. -/
theorem slots_eq_slotsWithin {depth : Nat} {name : Text}
    (h : ¬ GivenUp (slotsWithin definitions depth name)) :
    Build.slots definitions name = slotsWithin definitions depth name := by
  by_cases hm : name ∈ (ownTypes definitions).map TypeDefinition.name
  · have hsettled : name ∈ settled definitions depth := mem_settled.mpr ⟨hm, h⟩
    have hslots := (mem_settled.mp (settled_subset_settled_length depth hsettled)).2
    obtain hle | hle := Nat.le_total depth (definitions.length + 1)
    · exact slotsWithin_eq_of_le hle h
    · exact (slotsWithin_eq_of_le hle hslots).symm
  · cases depth with
    | zero => exact absurd ⟨.endlessDefaults, rfl, rfl⟩ h
    | succ depth => rw [Build.slots, slotsWithin_of_not_mem hm, slotsWithin_of_not_mem hm]

/-- The fields of an input type are what they are with the fields of all others at hand, unless
    default values lead on without end, which they then do either way. -/
theorem slots_eq_slotsFrom (name : Text) :
    Build.slots definitions name = slotsFrom definitions (Build.slots definitions) name
      ∨ GivenUp (Build.slots definitions name)
        ∧ GivenUp (slotsFrom definitions (Build.slots definitions) name) := by
  by_cases given : GivenUp (Build.slots definitions name)
  · refine .inr ⟨given, ?_⟩
    by_contra further
    have hslots : Build.slots definitions name
        = slotsWithin definitions (definitions.length + 2) name := slots_eq_slotsWithin further
    rw [hslots] at given
    exact further given
  · exact .inl ((slotsWithin_extends _ name).resolve_left given)

-- A default value that asks for the fields of its own type leads on without end; null does not.
example : (Schema.ofText r"type Query { a: Int } input A { a: A = {} }").isOk = false
    ∧ (Schema.ofText r"type Query { a: Int } input A { a: A = null }").isOk = true := by
  decide +kernel

end Build

end SchemaStitch
