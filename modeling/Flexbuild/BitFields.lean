import Mathlib.Data.BitVec

/-! Words put together from bit fields with `or`. What lies inside a field is not seen through a
mask that is apart from the field. -/
namespace Flexbuild.BitFields

variable {w : Nat} {a b x mask field outer : BitVec w}

def Inside (x field : BitVec w) : Prop := x &&& field = x

instance (x field : BitVec w) : Decidable (Inside x field) := inferInstanceAs (Decidable (_ = _))

theorem insideOf (outside : x &&& ~~~field = 0) : Inside x field := by
  have split : x &&& (field ||| ~~~field) = x := by rw [BitVec.or_not_self, BitVec.and_allOnes]
  rw [BitVec.and_or_distrib_left, outside] at split
  exact (BitVec.or_zero).symm.trans split

theorem insideMask (x field : BitVec w) : Inside (x &&& field) field := by
  rw [Inside, BitVec.and_assoc, BitVec.and_self]

theorem insideBelow (n : Nat) (small : x.toNat < 2 ^ n) (field : 2 ^ n - 1 < 2 ^ w) :
    Inside x (BitVec.ofNat w (2 ^ n - 1)) := by
  refine BitVec.eq_of_toNat_eq ?_
  rw [BitVec.toNat_and, BitVec.toNat_ofNat, Nat.mod_eq_of_lt field]
  exact Nat.and_two_pow_sub_one_of_lt_two_pow small

theorem insideShift (inside : Inside x field) (n : Nat) : Inside (x <<< n) (field <<< n) := by
  rw [Inside, ← BitVec.shiftLeft_and_distrib, inside]

theorem insideShiftRight (inside : Inside x field) (n : Nat) : Inside (x >>> n) (field >>> n) := by
  rw [Inside, ← BitVec.ushiftRight_and_distrib, inside]

theorem insideWider (inside : Inside x field) (within : Inside field outer) : Inside x outer := by
  rw [Inside, ← inside, BitVec.and_assoc, within]

theorem insideApart (inside : Inside x field) (apart : field &&& mask = 0) : x &&& mask = 0 := by
  rw [← inside, BitVec.and_assoc, apart]
  exact BitVec.and_zero

theorem clearWithin (clear : x &&& outer = 0) (within : Inside mask outer) : x &&& mask = 0 := by
  rw [← within, BitVec.and_comm mask, ← BitVec.and_assoc, clear]
  exact BitVec.zero_and

theorem seenLeft (apart : b &&& mask = 0) : (a ||| b) &&& mask = a &&& mask := by
  rw [BitVec.and_or_distrib_right, apart]
  exact BitVec.or_zero

theorem seenRight (apart : a &&& mask = 0) : (a ||| b) &&& mask = b &&& mask := by
  rw [BitVec.and_or_distrib_right, apart]
  exact BitVec.zero_or

theorem orInside (inside : Inside x a) : a ||| x = a := by
  rw [← inside]
  refine BitVec.eq_of_getElem_eq fun i _ => ?_
  simp

theorem ownBits (clear : a &&& field = 0) : (a ||| field) &&& field = field := by
  rw [seenRight clear, BitVec.and_self]

end Flexbuild.BitFields
