import Journeys.Reconstruction.Placement

/-!
# Proofs: results and failures

A reconstruction is a chain of steps each of which may fail. The lemmas here take such a chain
apart, step by step. `Gives` says of a chain at once what holds of its result and how it can fail,
so one statement for each step covers both.
-/

namespace Journeys

variable {ε ε' α β : Type}

/-- A step followed by others gives a result exactly when it gives one and so do the others. -/
theorem bind_eq_ok_iff {x : Except ε α} {f : α → Except ε β} {b : β} :
    (x >>= f) = .ok b ↔ ∃ a, x = .ok a ∧ f a = .ok b := by
  cases x <;> simp [bind, Except.bind]

/-- A step followed by others fails as it does itself, or as one of the others does. -/
theorem bind_eq_error_iff {x : Except ε α} {f : α → Except ε β} {e : ε} :
    (x >>= f) = .error e ↔ x = .error e ∨ ∃ a, x = .ok a ∧ f a = .error e := by
  cases x <;> simp [bind, Except.bind]

theorem ok_bind (a : α) (f : α → Except ε β) : (Except.ok a >>= f) = f a := rfl

theorem pure_eq_ok_iff {a b : α} : (pure a : Except ε α) = .ok b ↔ a = b := by
  simp [pure, Except.pure]

theorem map_eq_ok_iff {f : α → β} {x : Except ε α} {b : β} :
    f <$> x = .ok b ↔ ∃ a, x = .ok a ∧ f a = b := by
  cases x <;> simp [Functor.map, Except.map]

theorem map_eq_error_iff {f : α → β} {x : Except ε α} {e : ε} :
    f <$> x = .error e ↔ x = .error e := by
  cases x <;> simp [Functor.map, Except.map]

theorem mapError_eq_ok_iff {f : ε → ε'} {x : Except ε α} {a : α} :
    x.mapError f = .ok a ↔ x = .ok a := by
  cases x with
  | error e => exact ⟨nofun, nofun⟩
  | ok b => exact ⟨fun h => by cases h; rfl, fun h => by cases h; rfl⟩

theorem unusable_eq_ok_iff {x : Except ReconstructionError α} {a : α} :
    Placement.unusable x = .ok a ↔ x = .ok a := mapError_eq_ok_iff

theorem unusable_eq_error_iff {x : Except ReconstructionError α} {e : RebuildError} :
    Placement.unusable x = .error e ↔ ∃ e', x = .error e' ∧ e = .unusable e' := by
  cases x with
  | ok a =>
    constructor
    · intro h
      cases h
    · rintro ⟨e', h, -⟩
      cases h
  | error e' =>
    constructor
    · intro h
      exact ⟨e', rfl, (Except.error.inj h).symm⟩
    · rintro ⟨e'', h, rfl⟩
      cases h
      rfl

theorem inconsistent_eq_ok_iff {x : Except JourneyError α} {a : α} :
    Placement.inconsistent x = .ok a ↔ x = .ok a := mapError_eq_ok_iff

/-- Either there is a result, and it satisfies `P`, or there is a failure that `F` allows. -/
def Gives (F : ε → Prop) (P : α → Prop) : Except ε α → Prop
  | .ok a => P a
  | .error e => F e

namespace Gives

variable {F : ε → Prop} {P Q : α → Prop} {R : β → Prop}

theorem bind {x : Except ε α} {f : α → Except ε β} (hx : Gives F P x)
    (hf : ∀ a, P a → Gives F R (f a)) : Gives F R (x >>= f) := by
  cases x with
  | ok a => exact hf a hx
  | error e => exact hx

theorem imp {x : Except ε α} (hx : Gives F P x) (hPQ : ∀ a, P a → Q a) : Gives F Q x := by
  cases x with
  | ok a => exact hPQ a hx
  | error e => exact hx

theorem of_ok {x : Except ε α} {a : α} (hx : x = .ok a) (ha : P a) : Gives F P x := by
  rw [hx]
  exact ha

theorem mapError {f : ε' → ε} {x : Except ε' α} (hx : Gives (fun e => F (f e)) P x) :
    Gives F P (x.mapError f) := by
  cases x with
  | ok a => exact hx
  | error e => exact hx

theorem allows {x : Except ε α} {e : ε} (hx : Gives F P x) (he : x = .error e) : F e := by
  rw [he] at hx
  exact hx

/-- Where no failure is allowed, there is a result. -/
theorem exists_ok {x : Except ε α} (hx : Gives F P x) (hF : ∀ e, ¬F e) : ∃ a, x = .ok a ∧ P a := by
  cases x with
  | ok a => exact ⟨a, rfl, hx⟩
  | error e => exact absurd hx (hF e)

end Gives

/-- Two steps agree: they give results that are related, or both fail. -/
def Agrees (R : α → β → Prop) : Except ε α → Except ε' β → Prop
  | .ok a, .ok b => R a b
  | .error _, .error _ => True
  | _, _ => False

namespace Agrees

variable {γ δ : Type} {R : α → β → Prop} {S : γ → δ → Prop} {x : Except ε α} {y : Except ε' β}

theorem bind {f : α → Except ε γ} {g : β → Except ε' δ} (h : Agrees R x y)
    (hfg : ∀ a b, x = .ok a → R a b → Agrees S (f a) (g b)) : Agrees S (x >>= f) (y >>= g) := by
  cases x with
  | ok a =>
    cases y with
    | ok b => exact hfg a b rfl h
    | error e => exact h.elim
  | error e =>
    cases y with
    | ok b => exact h.elim
    | error e' => trivial

theorem related {a : α} {b : β} (h : Agrees R x y) (hx : x = .ok a) (hy : y = .ok b) : R a b := by
  rw [hx, hy] at h
  exact h

/-- One step gives a result exactly when the other one does. -/
theorem exists_iff (h : Agrees R x y) : (∃ a, x = .ok a) ↔ ∃ b, y = .ok b := by
  cases x with
  | ok a =>
    cases y with
    | ok b => exact ⟨fun _ => ⟨b, rfl⟩, fun _ => ⟨a, rfl⟩⟩
    | error e => exact h.elim
  | error e =>
    cases y with
    | ok b => exact h.elim
    | error e' => exact ⟨nofun, nofun⟩

/-- Two steps agree if they give results together, and related ones. -/
theorem of_exists_iff (h : (∃ a, x = .ok a) ↔ ∃ b, y = .ok b)
    (hR : ∀ a b, x = .ok a → y = .ok b → R a b) : Agrees R x y := by
  cases x with
  | ok a =>
    obtain ⟨b, rfl⟩ := h.1 ⟨a, rfl⟩
    exact hR a b rfl rfl
  | error e =>
    cases y with
    | ok b =>
      obtain ⟨a, ha⟩ := h.2 ⟨b, rfl⟩
      cases ha
    | error e' => trivial

end Agrees

end Journeys
