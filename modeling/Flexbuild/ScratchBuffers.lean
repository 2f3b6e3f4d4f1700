import Mathlib.Data.List.GetD

/-! Local buffers that are written piece by piece: what lies where, and how far the writes reached.
The places go on behind the declared size, which is only compared with the reach. -/
namespace Flexbuild

variable {α : Type*}

structure Scratch (α : Type*) where
  cells : Nat → α
  reach : Nat

namespace Scratch

def copy (t : Scratch α) (start : Nat) (piece : List α) : Scratch α :=
  ⟨fun i => if i < start then t.cells i else piece.getD (i - start) (t.cells i),
    if piece.length = 0 then t.reach else max t.reach (start + piece.length)⟩

def wipe (t : Scratch α) (clear : α) : Nat → Scratch α
  | 0 => t
  | i + 1 => (t.wipe clear i).copy i [clear]

def read (t : Scratch α) (n : Nat) : List α := (List.range n).map t.cells

variable {t : Scratch α} {start : Nat} {piece : List α} {i : Nat}

theorem copyBefore (before : i < start) : (t.copy start piece).cells i = t.cells i := if_pos before

theorem copyBehind (behind : start + piece.length ≤ i) : (t.copy start piece).cells i = t.cells i := by
  change (if i < start then t.cells i else _) = _
  rw [if_neg (by omega), List.getD_eq_default _ _ (by omega)]

theorem copyWithin (j : Nat) (within : j < piece.length) : (t.copy start piece).cells (start + j) = piece[j] := by
  change (if start + j < start then _ else piece.getD (start + j - start) _) = _
  rw [if_neg (by omega), Nat.add_sub_cancel_left, List.getD_eq_getElem _ _ within]

theorem copyCases (t : Scratch α) (start : Nat) (piece : List α) (i : Nat) :
    (t.copy start piece).cells i = t.cells i ∨
      start ≤ i ∧ i < start + piece.length ∧ (t.copy start piece).cells i ∈ piece := by
  by_cases before : i < start
  · exact .inl (copyBefore before)
  · by_cases behind : start + piece.length ≤ i
    · exact .inl (copyBehind behind)
    · have place : start + (i - start) = i := by omega
      have within := @copyWithin _ t start piece (i - start) (by omega)
      rw [place] at within
      exact .inr ⟨by omega, by omega, within ▸ List.getElem_mem _⟩

theorem copyReach : (t.copy start piece).reach ≤ max t.reach (start + piece.length) := by
  change (if piece.length = 0 then t.reach else _) ≤ _
  split
  · exact Nat.le_max_left _ _
  · exact Nat.le_refl _

theorem copyReaches (some : piece ≠ []) : start + piece.length ≤ (t.copy start piece).reach := by
  have nonempty : piece.length ≠ 0 := fun empty => some (List.length_eq_zero_iff.mp empty)
  change _ ≤ (if piece.length = 0 then t.reach else _)
  rw [if_neg nonempty]
  exact Nat.le_max_right _ _

theorem copyKeepsReach : t.reach ≤ (t.copy start piece).reach := by
  change _ ≤ (if piece.length = 0 then t.reach else _)
  split
  · exact Nat.le_refl _
  · exact Nat.le_max_left _ _

theorem readLength (t : Scratch α) (n : Nat) : (t.read n).length = n := by simp [read]

theorem readGet (t : Scratch α) (n : Nat) {j : Nat} (below : j < (t.read n).length) : (t.read n)[j] = t.cells j := by
  simp [read]

theorem readCopy (t : Scratch α) (n : Nat) (piece : List α) :
    (t.copy n piece).read (n + piece.length) = t.read n ++ piece := by
  apply List.ext_getElem
  · rw [List.length_append, readLength, readLength]
  · intro j below _
    rw [readGet, List.getElem_append]
    rw [readLength] at below
    split
    · next earlier =>
      rw [readLength] at earlier
      rw [copyBefore earlier, readGet]
    · next later =>
      rw [readLength] at later
      have place : n + (j - n) = j := by omega
      have cell := @copyWithin _ t n piece (j - n) (by omega)
      rw [place] at cell
      rw [cell]
      simp only [readLength]

section Wipes

variable {clear : α} {n : Nat}

theorem wipeBelow (below : i < n) : (t.wipe clear n).cells i = clear := by
  induction n with
  | zero => omega
  | succ n earlier =>
    by_cases last : i = n
    · subst last
      exact @copyWithin _ (t.wipe clear i) i [clear] 0 (by simp)
    · exact (copyBefore (by omega)).trans (earlier (by omega))

theorem wipeBehind (behind : n ≤ i) : (t.wipe clear n).cells i = t.cells i := by
  induction n with
  | zero => rfl
  | succ n earlier => exact (copyBehind behind).trans (earlier (by omega))

theorem wipeReach : (t.wipe clear n).reach ≤ max t.reach n := by
  induction n with
  | zero => exact Nat.le_max_left _ _
  | succ n earlier =>
    have last := @copyReach _ (t.wipe clear n) n [clear]
    change ((t.wipe clear n).copy n [clear]).reach ≤ _
    simp only [List.length_singleton] at last
    omega

end Wipes

end Scratch

end Flexbuild
