import Mathlib.Logic.Basic

/-! Steps on a state that may stop with an error, put one behind the other. A sequence that was
not stopped passed every one of its steps, each from the state that the step before had left. -/
namespace Flexbuild.GuardedSteps

abbrev Step (ε σ : Type*) := σ → Option ε × σ

variable {ε σ : Type*}

def act (f : σ → σ) : Step ε σ := fun s => (none, f s)

def check (fails : σ → Bool) (e : ε) : Step ε σ := fun s => if fails s then (some e, s) else (none, s)

def given (b : Bool) (p : Step ε σ) : Step ε σ := fun s => if b then p s else (none, s)

def inOrder : List (Step ε σ) → Step ε σ
  | [], s => (none, s)
  | p :: rest, s =>
    match p s with
    | (some e, s) => (some e, s)
    | (none, s) => inOrder rest s

def Passes (p : Step ε σ) (s s' : σ) : Prop := p s = (none, s')

variable {p : Step ε σ} {ps : List (Step ε σ)} {s s' : σ}

@[simp] theorem passesAct {f : σ → σ} : Passes (act f : Step ε σ) s s' ↔ s' = f s := by
  simp [Passes, act, eq_comm]

@[simp] theorem passesCheck {fails : σ → Bool} {e : ε} : Passes (check fails e) s s' ↔ fails s = false ∧ s' = s := by
  unfold Passes check
  cases fails s <;> simp [eq_comm]

theorem passesGiven {b : Bool} : Passes (given b p) s s' ↔ (b = true ∧ Passes p s s') ∨ (b = false ∧ s' = s) := by
  unfold Passes given
  cases b <;> simp [eq_comm]

@[simp] theorem passesNil : Passes (inOrder ([] : List (Step ε σ))) s s' ↔ s' = s := by
  simp [Passes, inOrder, eq_comm]

@[simp] theorem passesCons : Passes (inOrder (p :: ps)) s s' ↔ ∃ m, Passes p s m ∧ Passes (inOrder ps) m s' := by
  unfold Passes
  rw [inOrder]
  obtain ⟨result, m⟩ := p s
  cases result with
  | none => simp
  | some e => simp

def Keeping {α : Type*} (f : σ → α) (p : Step ε σ) : Prop := ∀ s, f (p s).2 = f s

section Keeping
variable {α : Type*} {f : σ → α}

theorem keepingAct {g : σ → σ} (kept : ∀ s, f (g s) = f s) : Keeping f (act g : Step ε σ) := kept

theorem keepingCheck (fails : σ → Bool) (e : ε) : Keeping f (check fails e) := by
  intro s
  unfold check
  split <;> rfl

theorem keepingGiven (b : Bool) (kept : Keeping f p) : Keeping f (given b p) := by
  intro s
  unfold given
  split
  · exact kept s
  · rfl

theorem keepingInOrder (kept : ∀ p ∈ ps, Keeping f p) : Keeping f (inOrder ps) := by
  induction ps with
  | nil => exact fun _ => rfl
  | cons p ps later =>
    intro s
    have first := kept p List.mem_cons_self s
    have rest := later fun q member => kept q (List.mem_cons_of_mem p member)
    rw [inOrder]
    cases ran : p s with
    | mk result m =>
      rw [ran] at first
      cases result with
      | none => exact (rest m).trans first
      | some e => exact first

end Keeping

end Flexbuild.GuardedSteps
