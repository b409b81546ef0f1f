/-!
# Computations that can fail

When a sequence of computations succeeds, and when two of them have related results or none.
-/

namespace Remap

variable {ε ε' α β : Type}

theorem bind_eq_ok_iff {x : Except ε α} {f : α → Except ε β} {y : β} :
    x >>= f = .ok y ↔ ∃ a, x = .ok a ∧ f a = .ok y := by
  cases x with
  | error fault => exact ⟨nofun, nofun⟩
  | ok a => exact ⟨fun h => ⟨a, rfl, h⟩, fun ⟨_, ha, h⟩ => by cases ha; exact h⟩

theorem map_eq_ok_iff {x : Except ε α} {f : α → β} {y : β} :
    x.map f = .ok y ↔ ∃ a, x = .ok a ∧ f a = y := by
  cases x with
  | error fault => exact ⟨nofun, nofun⟩
  | ok a => exact ⟨fun h => ⟨a, rfl, Except.ok.inj h⟩, fun ⟨_, ha, h⟩ => by cases ha; rw [← h]; rfl⟩

theorem mapError_ok (f : ε → ε') (a : α) : (Except.ok a).mapError f = .ok a := rfl

theorem mapError_eq_ok_iff {x : Except ε α} {f : ε → ε'} {y : α} :
    x.mapError f = .ok y ↔ x = .ok y := by
  cases x with
  | error fault => exact ⟨nofun, nofun⟩
  | ok a => rw [mapError_ok, Except.ok.injEq, Except.ok.injEq]

theorem bind_eq_error_iff {x : Except ε α} {f : α → Except ε β} {fault : ε} :
    x >>= f = .error fault ↔ x = .error fault ∨ ∃ a, x = .ok a ∧ f a = .error fault := by
  cases x with
  | error other =>
    constructor
    · intro h
      cases h
      exact .inl rfl
    · rintro (h | ⟨a, ha, -⟩)
      · cases h
        rfl
      · cases ha
  | ok a =>
    constructor
    · intro h
      exact .inr ⟨a, rfl, h⟩
    · rintro (h | ⟨b, hb, h⟩)
      · cases h
      · cases hb
        exact h

theorem map_eq_error_iff {x : Except ε α} {f : α → β} {fault : ε} :
    x.map f = .error fault ↔ x = .error fault := by
  cases x with
  | error other =>
    constructor
    · intro h
      cases h
      rfl
    · intro h
      cases h
      rfl
  | ok a =>
    constructor
    · intro h
      cases h
    · intro h
      cases h

theorem mapError_eq_error_iff {x : Except ε α} {f : ε → ε'} {fault : ε'} :
    x.mapError f = .error fault ↔ ∃ cause, x = .error cause ∧ f cause = fault := by
  cases x with
  | error cause =>
    constructor
    · intro h
      cases h
      exact ⟨cause, rfl, rfl⟩
    · rintro ⟨other, hother, rfl⟩
      cases hother
      rfl
  | ok a =>
    constructor
    · intro h
      cases h
    · rintro ⟨other, hother, -⟩
      cases hother

theorem toOption_eq_some_iff {x : Except ε α} {a : α} : x.toOption = some a ↔ x = .ok a := by
  cases x with
  | error fault => exact ⟨nofun, nofun⟩
  | ok b => exact ⟨fun h => congrArg Except.ok (Option.some.inj h), fun h => by rw [h]; rfl⟩

/-- What holds of the result of a computation, if it has one, holds of its result. -/
theorem of_toOption_all {x : Except ε α} {p : α → Bool} {a : α} (h : x.toOption.all p = true)
    (ha : x = .ok a) : p a = true := by
  rw [ha] at h
  exact h

section Related

variable {α β γ δ : Type} {R : α → β → Prop} {S : γ → δ → Prop} {x : Option α} {y : Option β}

theorem rel_bind {f : α → Option γ} {g : β → Option δ} (h : Option.Rel R x y)
    (hfg : ∀ a b, R a b → Option.Rel S (f a) (g b)) : Option.Rel S (x.bind f) (y.bind g) := by
  cases h with
  | none => exact .none
  | some hab => exact hfg _ _ hab

theorem rel_map {f : α → γ} {g : β → δ} (h : Option.Rel R x y)
    (hfg : ∀ a b, R a b → S (f a) (g b)) : Option.Rel S (x.map f) (y.map g) := by
  cases h with
  | none => exact .none
  | some hab => exact .some (hfg _ _ hab)

theorem rel_trans {T : β → γ → Prop} {U : α → γ → Prop} {z : Option γ} (hxy : Option.Rel R x y)
    (hyz : Option.Rel T y z) (h : ∀ {a b c}, R a b → T b c → U a c) : Option.Rel U x z := by
  cases hxy with
  | none =>
    cases hyz with
    | none => exact .none
  | some hab =>
    cases hyz with
    | some hbc => exact .some (h hab hbc)

/-- Two computations that do not depend on each other may be done in either order. -/
theorem rel_bind_comm {T : γ → γ → Prop} {f : α → β → γ} {g : β → α → γ}
    (h : ∀ a b, x = some a → y = some b → T (f a b) (g b a)) :
    Option.Rel T (x.bind fun a => y.map (f a)) (y.bind fun b => x.map (g b)) := by
  cases x with
  | none => cases y <;> exact .none
  | some a =>
    cases y with
    | none => exact .none
    | some b => exact .some (h a b rfl rfl)

end Related

end Remap
