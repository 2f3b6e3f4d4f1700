import Mathlib.Data.Nat.ModEq
import Mathlib.Data.List.Basic
import Mathlib.Logic.Function.Basic

/-! Slots that are filled one after the other, round and round, and the history of what was
put in them. The last entries of a history stand in their slots while they are fewer than
the slots. The positions are kept reduced, and one slot stays free to tell a full ring. -/
namespace Flexbuild.RingHistories

variable {α : Type} {size a b n r : Nat} {slots : Nat → α} {history : List α} {v : α}

def Stands (size : Nat) (slots : Nat → α) (history : List α) (r : Nat) : Prop :=
  ∀ n, r ≤ n → (lt : n < history.length) → slots (n % size) = history[n]

theorem standsStart (slots : Nat → α) (r : Nat) : Stands size slots [] r := fun _ _ lt => absurd lt (Nat.not_lt_zero _)

theorem standsLater {s : Nat} (stands : Stands size slots history r) (later : r ≤ s) : Stands size slots history s :=
  fun n above lt => stands n (later.trans above) lt

theorem slotApart (le : a ≤ b) (lap : b < a + size) (same : a % size = b % size) : a = b := by
  have apart : a ≡ b [MOD size] := same
  have cut := (Nat.modEq_iff_dvd' le).1 apart
  have zero : b - a = 0 := Nat.eq_zero_of_dvd_of_lt cut (by omega)
  omega

theorem standsPut (stands : Stands size slots history r) (room : history.length < r + size) :
    Stands size (Function.update slots (history.length % size) v) (history ++ [v]) r := by
  intro n above lt
  rw [List.length_append, List.length_singleton] at lt
  rcases Nat.lt_succ_iff_lt_or_eq.1 lt with before | last
  · have other : n % size ≠ history.length % size := fun same => by
      have := slotApart before.le (by omega) same
      omega
    rw [Function.update_of_ne other, List.getElem_append_left before]
    exact stands n above before
  · subst last
    rw [Function.update_self, List.getElem_concat_length rfl]

theorem reducedNext (k n : Nat) : (n % 2 ^ k + 1) &&& (2 ^ k - 1) = (n + 1) % 2 ^ k := by
  rw [Nat.and_two_pow_sub_one_eq_mod, Nat.mod_add_mod]

theorem reducedDistance (le : a ≤ b) (lap : b < a + size) : (b % size + size - a % size) % size = b - a := by
  have positive : 0 < size := by omega
  have small := Nat.mod_lt a positive
  have split : b % size + size - a % size ≡ b - a [MOD size] := by
    refine Nat.ModEq.add_right_cancel' (a % size) ?_
    rw [Nat.sub_add_cancel (by omega)]
    calc b % size + size ≡ b % size [MOD size] := by simp [Nat.ModEq]
      _ ≡ b [MOD size] := Nat.mod_modEq _ _
      _ = b - a + a := by omega
      _ ≡ b - a + a % size [MOD size] := (Nat.ModEq.refl _).add (Nat.mod_modEq _ _).symm
  rw [split, Nat.mod_eq_of_lt (by omega)]

theorem reducedFull {k : Nat} (le : a ≤ b) (lap : b < a + 2 ^ k) :
    (b % 2 ^ k + 1 + (2 ^ k - 2 ^ k)) &&& (2 ^ k - 1) = a % 2 ^ k ↔ b + 1 = a + 2 ^ k := by
  rw [Nat.sub_self, Nat.add_zero, reducedNext]
  constructor
  · intro same
    by_contra other
    have := slotApart (by omega) (by omega) same.symm
    omega
  · intro full
    rw [full, Nat.add_mod_right]

end Flexbuild.RingHistories
