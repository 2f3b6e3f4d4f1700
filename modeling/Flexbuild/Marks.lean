import Mathlib.Data.Finset.Card

/-! How many places below a bound are marked, and what one change does to the number. -/
namespace Flexbuild.Marks

variable {n a : Nat} {p q : Nat → Prop} [DecidablePred p] [DecidablePred q]

def marks (n : Nat) (p : Nat → Prop) [DecidablePred p] : Nat := ((Finset.range n).filter p).card

omit [DecidablePred q] in
theorem marksLe (n : Nat) : marks n p ≤ n := by
  have le := Finset.card_filter_le (Finset.range n) p
  rwa [Finset.card_range] at le

theorem marksMore (lt : a < n) (before : ¬ p a) (after : q a) (rest : ∀ b, b ≠ a → (q b ↔ p b)) :
    marks n q = marks n p + 1 := by
  have grown : (Finset.range n).filter q = insert a ((Finset.range n).filter p) := by
    ext b
    rw [Finset.mem_insert, Finset.mem_filter, Finset.mem_filter, Finset.mem_range]
    by_cases same : b = a
    · subst same
      exact ⟨fun _ => .inl rfl, fun _ => ⟨lt, after⟩⟩
    · rw [rest b same]
      exact ⟨.inr, fun mem => mem.resolve_left same⟩
  unfold marks
  rw [grown]
  refine Finset.card_insert_of_notMem ?_
  intro mem
  exact before (Finset.mem_filter.mp mem).2

theorem marksFewer (lt : a < n) (before : p a) (after : ¬ q a) (rest : ∀ b, b ≠ a → (q b ↔ p b)) :
    marks n q + 1 = marks n p :=
  (marksMore lt after before (fun b other => (rest b other).symm)).symm

omit [DecidablePred q] in
theorem marksNone (none_ : ∀ b < n, ¬ p b) : marks n p = 0 := by
  unfold marks
  rw [Finset.filter_false_of_mem (fun b mem => none_ b (Finset.mem_range.mp mem))]
  rfl

omit [DecidablePred q] in
theorem marksPositive (lt : a < n) (here : p a) : 0 < marks n p :=
  Finset.card_pos.mpr ⟨a, Finset.mem_filter.mpr ⟨Finset.mem_range.mpr lt, here⟩⟩

end Flexbuild.Marks
