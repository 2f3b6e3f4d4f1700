import Mathlib.Data.List.Basic

/-! Machines that step from state to state and tell what they do. What a machine performs from a
state are the events of its finite runs; when one machine follows another, step by step with a
few steps of its own for each, the two perform the same. -/
namespace Flexbuild.Traces

def Machine (σ ε : Type) := σ → Option (Option ε × σ)

variable {σ τ ε : Type} {m : Machine σ ε} {n : Machine τ ε}

def run (m : Machine σ ε) : Nat → σ → List ε × σ
  | 0, s => ([], s)
  | k + 1, s =>
      match m s with
      | none => ([], s)
      | some (e, t) => (e.toList ++ (run m k t).1, (run m k t).2)

def Performs (m : Machine σ ε) (s : σ) (es : List ε) : Prop := ∃ k, (run m k s).1 = es

theorem runStopped {s : σ} (stopped : m s = none) (k : Nat) : run m k s = ([], s) := by
  cases k with
  | zero => rfl
  | succ k => rw [run, stopped]

theorem runStep {s t : σ} {e : Option ε} (step : m s = some (e, t)) (k : Nat) :
    run m (k + 1) s = (e.toList ++ (run m k t).1, (run m k t).2) := by
  rw [run, step]

theorem runOne {s t : σ} {e : Option ε} (step : m s = some (e, t)) : run m 1 s = (e.toList, t) := by
  rw [runStep step]
  simp [run]

theorem runAdd (j k : Nat) (s : σ) :
    run m (j + k) s =
      ((run m j s).1 ++ (run m k (run m j s).2).1, (run m k (run m j s).2).2) := by
  induction j generalizing s with
  | zero =>
    rw [Nat.zero_add]
    simp [run]
  | succ j ih =>
    cases step : m s with
    | none =>
      rw [runStopped step, runStopped step, runStopped step]
      rfl
    | some after =>
      obtain ⟨e, t⟩ := after
      rw [Nat.add_right_comm, runStep step, runStep step, ih]
      simp

theorem performsNone (s : σ) : Performs m s [] := ⟨0, rfl⟩

theorem performsStep {s t : σ} {e : Option ε} {es : List ε} (step : m s = some (e, t))
    (later : Performs m t es) : Performs m s (e.toList ++ es) := by
  obtain ⟨k, rfl⟩ := later
  exact ⟨k + 1, by rw [runStep step]⟩

theorem performsRun {k : Nat} {s t : σ} {es fs : List ε} (steps : run m k s = (es, t))
    (later : Performs m t fs) : Performs m s (es ++ fs) := by
  obtain ⟨j, rfl⟩ := later
  exact ⟨k + j, by rw [runAdd, steps]⟩

-- `R` pairs the states; each step of `m` is some steps of `n`, at least one.
structure Follows (m : Machine σ ε) (n : Machine τ ε) (R : σ → τ → Prop) : Prop where
  stop : ∀ a b, R a b → m a = none → n b = none
  step : ∀ a b e a', R a b → m a = some (e, a') →
    ∃ j b', run n (j + 1) b = (e.toList, b') ∧ R a' b'

variable {R : σ → τ → Prop}

theorem followsPerforms (follows : Follows m n R) {a : σ} {b : τ} (related : R a b) {es : List ε}
    (performs : Performs m a es) : Performs n b es := by
  obtain ⟨k, rfl⟩ := performs
  induction k generalizing a b with
  | zero => exact performsNone b
  | succ k ih =>
    cases step : m a with
    | none =>
      rw [runStopped step]
      exact performsNone b
    | some after =>
      obtain ⟨e, a'⟩ := after
      obtain ⟨j, b', steps, related'⟩ := follows.step a b e a' related step
      rw [runStep step]
      exact performsRun steps (ih related')

theorem runFewer {j k : Nat} (le : k ≤ j) (s : σ) : (run m k s).1 <+: (run m j s).1 := by
  obtain ⟨d, rfl⟩ := Nat.exists_eq_add_of_le le
  rw [runAdd]
  exact List.prefix_append _ _

theorem performsFollows (follows : Follows m n R) {a : σ} {b : τ} (related : R a b) {es : List ε}
    (performs : Performs n b es) : Performs m a es := by
  obtain ⟨k, rfl⟩ := performs
  induction k using Nat.strongRecOn generalizing a b with
  | _ k ih =>
    cases step : m a with
    | none =>
      rw [runStopped (follows.stop a b related step)]
      exact performsNone a
    | some after =>
      obtain ⟨e, a'⟩ := after
      obtain ⟨j, b', steps, related'⟩ := follows.step a b e a' related step
      rcases Nat.lt_or_ge k (j + 1) with lt | ge
      · have within := @runFewer _ _ n _ _ (Nat.le_of_lt lt) b
        rw [steps] at within
        cases e with
        | none =>
          rw [List.prefix_nil.mp within]
          exact performsNone a
        | some e =>
          rcases List.prefix_cons_iff.mp within with none_ | ⟨rest, same, fewer⟩
          · rw [none_]
            exact performsNone a
          · rw [same, List.prefix_nil.mp fewer]
            exact performsStep step (performsNone a')
      · obtain ⟨d, rfl⟩ := Nat.exists_eq_add_of_le ge
        have later := ih d (by omega) related'
        rw [runAdd, steps]
        exact performsStep step later

theorem performsIff (follows : Follows m n R) {a : σ} {b : τ} (related : R a b) (es : List ε) :
    Performs m a es ↔ Performs n b es :=
  ⟨followsPerforms follows related, performsFollows follows related⟩

end Flexbuild.Traces
