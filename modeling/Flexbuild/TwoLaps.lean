import Mathlib.Data.Nat.ModEq
import Mathlib.Data.List.Nodup
import Mathlib.Tactic.Common

/-! Queues in a ring of `n` slots whose two indices run over two laps of it, so that a full ring
and an empty one are told apart. A queue is known by the number of entries that ever left it and
the number of those in it; the indices are these numbers taken modulo two laps. -/
namespace Flexbuild.TwoLaps

variable {n c k : Nat}

def position (n c : Nat) : Nat := c % (2 * n)

def slots (n c k : Nat) : List Nat := (List.range k).map fun j => (c + j) % n

theorem positionLt (some_ : 0 < n) (c : Nat) : position n c < 2 * n := Nat.mod_lt _ (by omega)

theorem slotPosition (n c : Nat) : position n c % n = c % n := Nat.mod_mod_of_dvd _ ⟨2, by omega⟩

theorem positionNext (n c : Nat) : (position n c + 1) % (2 * n) = position n (c + 1) := by
  unfold position
  rw [Nat.mod_add_mod]

theorem positionAdd (some_ : 0 < n) (fits : k ≤ n) (c : Nat) : position n (c + k) =
    if position n c + k < 2 * n then position n c + k else position n c + k - 2 * n := by
  have lt := positionLt some_ c
  have split : position n (c + k) = (position n c + k) % (2 * n) := by
    unfold position
    rw [Nat.mod_add_mod]
  rw [split]
  split
  · rename_i below
    exact Nat.mod_eq_of_lt below
  · rename_i above
    rw [Nat.mod_eq_sub_mod (by omega), Nat.mod_eq_of_lt (by omega)]

theorem positionBack (some_ : 0 < n) (c : Nat) :
    (if position n (c + 1) ≠ 0 then position n (c + 1) - 1 else 2 * n - 1) = position n c := by
  have lt := positionLt some_ c
  rw [positionAdd some_ some_ c]
  split <;> split at * <;> omega

theorem positionDistance (some_ : 0 < n) (fits : k ≤ n) (c : Nat) :
    (if position n c ≤ position n (c + k) then position n (c + k) - position n c
      else position n (c + k) + 2 * n - position n c) = k := by
  have lt := positionLt some_ c
  rw [positionAdd some_ fits c]
  split <;> split at * <;> omega

theorem positionsEqual (some_ : 0 < n) (fits : k ≤ n) (c : Nat) :
    position n (c + k) = position n c ↔ k = 0 := by
  have lt := positionLt some_ c
  rw [positionAdd some_ fits c]
  split <;> omega

theorem slotsApart {i j : Nat} (hi : i < n) (hj : j < n) (same : (c + i) % n = (c + j) % n) : i = j := by
  have cancel : i ≡ j [MOD n] := Nat.ModEq.add_left_cancel' c same
  rwa [Nat.ModEq, Nat.mod_eq_of_lt hi, Nat.mod_eq_of_lt hj] at cancel

theorem slotsMeet (some_ : 0 < n) (fits : k ≤ n) (c : Nat) :
    position n (c + k) % n = position n c % n ↔ k = 0 ∨ k = n := by
  rw [slotPosition, slotPosition]
  constructor
  · intro same
    rcases Nat.lt_or_ge k n with below | above
    · left
      exact slotsApart below some_ same
    · right
      omega
  · rintro (rfl | rfl)
    · rfl
    · rw [Nat.add_mod_right]

theorem fullPositions (some_ : 0 < n) (fits : k ≤ n) (c : Nat) :
    (position n (c + k) % n = position n c % n ∧ position n (c + k) ≠ position n c) ↔ k = n := by
  rw [slotsMeet some_ fits, Ne, positionsEqual some_ fits]
  omega

@[simp] theorem slotsLength (n c k : Nat) : (slots n c k).length = k := by simp [slots]

theorem slotsSnoc (n c k : Nat) : slots n c (k + 1) = slots n c k ++ [(c + k) % n] := by
  simp [slots, List.range_succ]

theorem slotsCons (n c k : Nat) : slots n c (k + 1) = c % n :: slots n (c + 1) k := by
  unfold slots
  rw [List.range_succ_eq_map, List.map_cons, List.map_map]
  congr 1
  apply List.map_congr_left
  intro j _
  simp only [Function.comp, Nat.succ_eq_add_one]
  congr 1
  omega

theorem slotsGet {j : Nat} (lt : j < k) : (slots n c k)[j]? = some ((c + j) % n) := by
  simp [slots, lt]

theorem slotsFresh (room : k < n) (c : Nat) : (c + k) % n ∉ slots n c k := by
  unfold slots
  rw [List.mem_map]
  rintro ⟨j, member, same⟩
  have lt := List.mem_range.mp member
  have := slotsApart (lt.trans room) room same
  omega

end Flexbuild.TwoLaps
