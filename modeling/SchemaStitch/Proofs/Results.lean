import Mathlib.Data.List.Basic

/-! # Results and faults

    What can fail ends in a result or in a fault.  A step behind another is reached only by a
    result of the first, so the whole has a result iff every step has one (`bind_eq_ok`,
    `mapM_isOk`), and its fault is that of the first step that fails (`bind_eq_error`). -/

namespace SchemaStitch

variable {α β ε δ : Type} {x : Except ε α}

/-! ## Results -/

/-- One step after another succeeds exactly if both do. -/
theorem bind_eq_ok {f : α → Except ε β} {b : β} :
    (x >>= f) = .ok b ↔ ∃ a, x = .ok a ∧ f a = .ok b := by
  cases x with
  | error fault => exact ⟨fun h => (by cases h), fun ⟨_, h, _⟩ => (by cases h)⟩
  | ok a => exact ⟨fun h => ⟨a, rfl, h⟩, fun ⟨_, rfl, h⟩ => h⟩

/-- A changed result comes from a result. -/
theorem map_eq_ok {f : α → β} {b : β} : x.map f = .ok b ↔ ∃ a, x = .ok a ∧ f a = b := by
  cases x with
  | error fault => exact ⟨fun h => (by cases h), fun ⟨_, h, _⟩ => (by cases h)⟩
  | ok a => exact ⟨fun h => ⟨a, rfl, Except.ok.inj h⟩, fun ⟨_, rfl, h⟩ => congrArg Except.ok h⟩

/-- A change of the error leaves results alone. -/
theorem mapError_eq_ok {f : ε → δ} {a : α} : x.mapError f = .ok a ↔ x = .ok a := by
  cases x with
  | error fault => exact ⟨fun h => (by cases h), fun h => (by cases h)⟩
  | ok b => exact ⟨fun h => congrArg Except.ok (Except.ok.inj h), fun h => h ▸ rfl⟩

/-! ## Faults -/

/-- One step after another fails with the first error. -/
theorem bind_eq_error {f : α → Except ε β} {e : ε} :
    (x >>= f) = .error e ↔ x = .error e ∨ ∃ a, x = .ok a ∧ f a = .error e := by
  cases x with
  | error fault =>
      constructor
      · intro h
        exact .inl (congrArg Except.error (Except.error.inj h))
      · rintro (h | ⟨a, ha, -⟩)
        · exact congrArg Except.error (Except.error.inj h)
        · cases ha
  | ok a =>
      constructor
      · intro h
        exact .inr ⟨a, rfl, h⟩
      · rintro (h | ⟨b, hb, h⟩)
        · cases h
        · obtain rfl := Except.ok.inj hb
          exact h

/-! ## Whether there is a result -/

/-- One step after another succeeds if the second does on what the first yields. -/
theorem bind_isOk {f : α → Except ε β} :
    (x >>= f).isOk = true ↔ ∃ a, x = .ok a ∧ (f a).isOk = true := by
  cases x with
  | error fault =>
      constructor
      · intro h
        cases h
      · rintro ⟨a, h, -⟩
        cases h
  | ok a =>
      constructor
      · intro h
        exact ⟨a, rfl, h⟩
      · rintro ⟨b, hb, h⟩
        cases hb
        exact h

/-- A change of the result does not decide whether there is one. -/
theorem map_isOk (f : α → β) (x : Except ε α) : (x.map f).isOk = x.isOk := by
  cases x <;> rfl

theorem bind_pure_isOk (f : α → β) (x : Except ε α) :
    (x >>= fun a => pure (f a)).isOk = x.isOk := by
  cases x <;> rfl

/-- Success is to have a result. -/
theorem isOk_eq_true : x.isOk = true ↔ ∃ a, x = .ok a := by
  constructor
  · intro h
    cases x with
    | error fault => cases h
    | ok a => exact ⟨a, rfl⟩
  · rintro ⟨a, rfl⟩
    rfl

/-- Failure is to have an error. -/
theorem isOk_eq_false : x.isOk = false ↔ ∃ fault, x = .error fault := by
  constructor
  · intro h
    cases x with
    | error fault => exact ⟨fault, rfl⟩
    | ok a => cases h
  · rintro ⟨fault, rfl⟩
    rfl

/-- Items are mapped iff each of them can be. -/
theorem mapM_isOk {f : α → Except ε β} {items : List α} :
    (items.mapM f).isOk = true ↔ ∀ a ∈ items, (f a).isOk = true := by
  induction items with
  | nil => exact ⟨fun _ _ h => (by cases h), fun _ => rfl⟩
  | cons a rest ih =>
      rw [List.mapM_cons, bind_isOk, List.forall_mem_cons, ← ih]
      constructor
      · rintro ⟨b, hb, h⟩
        obtain ⟨others, hothers, -⟩ := bind_isOk.mp h
        exact ⟨isOk_eq_true.mpr ⟨b, hb⟩, isOk_eq_true.mpr ⟨others, hothers⟩⟩
      · rintro ⟨hfirst, hrest⟩
        obtain ⟨b, hb⟩ := isOk_eq_true.mp hfirst
        obtain ⟨others, hothers⟩ := isOk_eq_true.mp hrest
        exact ⟨b, hb, bind_isOk.mpr ⟨others, hothers, rfl⟩⟩

end SchemaStitch
