/-! Computations that may fail: what a success of several steps says about each of them. -/
namespace Flexbuild.Results

variable {α β ρ : Type}

theorem bindOk {x : Except ρ α} {f : α → Except ρ β} {b : β} :
    (x >>= f) = .ok b ↔ ∃ a, x = .ok a ∧ f a = .ok b := by
  cases x with
  | error r =>
    constructor
    · intro ok
      cases ok
    · rintro ⟨a, ok, -⟩
      cases ok
  | ok a =>
    constructor
    · intro ok
      exact ⟨a, rfl, ok⟩
    · rintro ⟨a, ok, rest⟩
      cases ok
      exact rest

theorem bindError {x : Except ρ α} {f : α → Except ρ β} {r : ρ} :
    (x >>= f) = .error r ↔ x = .error r ∨ ∃ a, x = .ok a ∧ f a = .error r := by
  cases x with
  | error r' =>
    constructor
    · intro failed
      cases failed
      exact .inl rfl
    · rintro (failed | ⟨a, ok, -⟩)
      · cases failed
        rfl
      · cases ok
  | ok a =>
    constructor
    · intro failed
      exact .inr ⟨a, rfl, failed⟩
    · rintro (failed | ⟨a, ok, rest⟩)
      · cases failed
      · cases ok
        exact rest

theorem pureOk {a b : α} : (pure a : Except ρ α) = .ok b ↔ a = b := by
  constructor
  · intro ok
    cases ok
    rfl
  · rintro rfl
    rfl

theorem throwOk {r : ρ} {b : α} : ¬ (throw r : Except ρ α) = .ok b := nofun

end Flexbuild.Results
