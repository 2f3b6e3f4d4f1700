import Mathlib.Data.Nat.Init

/-! Search for a free slot in a table of `n`: redraw at random a number of times, then walk round
the table once. The walk meets every slot, so the search fails only when all are taken. -/
namespace Flexbuild.Probing

-- `draws k` is the number drawn when `k` tries are left.
def redraw (n : Nat) (taken : Nat → Bool) (draws : Nat → Nat) : Nat → Nat → Nat
  | 0, r => r
  | left + 1, r => if taken r then redraw n taken draws left (draws left % n) else r

def advance (n : Nat) (taken : Nat → Bool) : Nat → Nat → Nat
  | 0, r => r
  | left + 1, r => if taken r then advance n taken left ((r + 1) % n) else r

def search (n : Nat) (taken : Nat → Bool) (draws : Nat → Nat) : Nat :=
  let r := redraw n taken draws n (draws n % n)
  if taken r then advance n taken n r else r

variable {n : Nat} {taken : Nat → Bool} {draws : Nat → Nat}

theorem redrawLt (some_ : 0 < n) (left : Nat) {r : Nat} (lt : r < n) :
    redraw n taken draws left r < n := by
  induction left generalizing r with
  | zero => exact lt
  | succ left ih =>
    unfold redraw
    split
    · exact ih (Nat.mod_lt _ some_)
    · exact lt

theorem advanceLt (some_ : 0 < n) (left : Nat) {r : Nat} (lt : r < n) :
    advance n taken left r < n := by
  induction left generalizing r with
  | zero => exact lt
  | succ left ih =>
    unfold advance
    split
    · exact ih (Nat.mod_lt _ some_)
    · exact lt

theorem searchLt (some_ : 0 < n) : search n taken draws < n := by
  have drawn : redraw n taken draws n (draws n % n) < n := redrawLt some_ n (Nat.mod_lt _ some_)
  unfold search
  dsimp only
  split
  · exact advanceLt some_ n drawn
  · exact drawn

theorem advancePassed {left r : Nat} (lt : r < n) (full : taken (advance n taken left r) = true) :
    ∀ j ≤ left, taken ((r + j) % n) = true := by
  induction left generalizing r with
  | zero =>
    intro j le
    obtain rfl : j = 0 := Nat.le_zero.mp le
    rw [Nat.add_zero, Nat.mod_eq_of_lt lt]
    exact full
  | succ left ih =>
    unfold advance at full
    split at full
    · rename_i here
      intro j le
      cases j with
      | zero => rw [Nat.add_zero, Nat.mod_eq_of_lt lt]; exact here
      | succ j =>
        have later := ih (Nat.mod_lt _ (Nat.zero_lt_of_lt lt)) full j (Nat.le_of_succ_le_succ le)
        rw [Nat.mod_add_mod] at later
        rwa [Nat.add_comm j 1, ← Nat.add_assoc]
    · rename_i free
      exact absurd full free

theorem searchTaken (some_ : 0 < n) :
    taken (search n taken draws) = true ↔ ∀ i < n, taken i = true := by
  constructor
  · intro full
    have drawn : redraw n taken draws n (draws n % n) < n := redrawLt some_ n (Nat.mod_lt _ some_)
    unfold search at full
    dsimp only at full
    split at full
    · intro i lt
      have passed := advancePassed drawn full ((i + n - redraw n taken draws n (draws n % n)) % n)
        (Nat.le_of_lt (Nat.mod_lt _ some_))
      rw [Nat.add_mod_mod] at passed
      have round : redraw n taken draws n (draws n % n) +
          (i + n - redraw n taken draws n (draws n % n)) = i + n := by omega
      rw [round, Nat.add_mod_right, Nat.mod_eq_of_lt lt] at passed
      exact passed
    · rename_i free
      exact absurd full free
  · intro all
    exact all _ (searchLt some_)

end Flexbuild.Probing
