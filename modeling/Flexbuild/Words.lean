import Mathlib.Data.Nat.Bitwise
import Mathlib.Data.Int.Basic
import Mathlib.Tactic.Ring
import Mathlib.Tactic.Linarith

/-! Unsigned machine words as naturals below `2 ^ w`. Addition and subtraction
wrap; `alignUp` is the usual mask idiom, and `roundUp` the number it is meant to
compute. The two agree exactly as long as the addition inside the idiom does not
leave the word. -/
namespace Flexbuild.Words

def wrap (w n : Nat) : Nat := n % 2 ^ w

def minus (w a b : Nat) : Nat := (a + (2 ^ w - b % 2 ^ w)) % 2 ^ w

def int32 (z : Int) : Int := Int.bmod z (2 ^ 32)

def alignUp (w address alignment : Nat) : Nat :=
  wrap w (address + alignment - 1) &&& (2 ^ w - alignment)

def roundUp (n a : Nat) : Nat := (n + a - 1) / a * a

theorem int32Small {n : Nat} (small : n < 2 ^ 31) : int32 n = n := by
  apply Int.bmod_eq_of_le <;> omega

theorem int32Zero {n : Nat} (small : n < 2 ^ 32) (zero : int32 n = 0) : n = 0 := by
  have divides : ((2 ^ 32 : Nat) : Int) ∣ n := Int.dvd_of_bmod_eq_zero zero
  have : 2 ^ 32 ∣ n := Int.natCast_dvd_natCast.mp divides
  exact Nat.eq_zero_of_dvd_of_lt this small

theorem wrapSmall {w n : Nat} (h : n < 2 ^ w) : wrap w n = n := Nat.mod_eq_of_lt h

theorem wrapLt (w n : Nat) : wrap w n < 2 ^ w := Nat.mod_lt _ (Nat.two_pow_pos w)

theorem minusLt (w a b : Nat) : minus w a b < 2 ^ w := Nat.mod_lt _ (Nat.two_pow_pos w)

theorem minusExact {w a b : Nat} (le : b ≤ a) (small : a < 2 ^ w) : minus w a b = a - b := by
  have hb : b % 2 ^ w = b := Nat.mod_eq_of_lt (by omega)
  have split : a + (2 ^ w - b) = (a - b) + 2 ^ w := by omega
  rw [minus, hb, split, Nat.add_mod_right, Nat.mod_eq_of_lt (by omega)]

theorem minusBorrow {w a b : Nat} (lt : a < b) (small : b < 2 ^ w) :
    minus w a b = a + 2 ^ w - b := by
  rw [minus, Nat.mod_eq_of_lt small, Nat.mod_eq_of_lt (by omega)]
  omega

theorem wrapAddMinus {w a b : Nat} (small : a < 2 ^ w) (smallB : b < 2 ^ w) :
    wrap w (b + minus w a b) = a := by
  rcases Nat.lt_or_ge a b with lt | le
  · rw [minusBorrow lt smallB, wrap]
    have split : b + (a + 2 ^ w - b) = a + 2 ^ w := by omega
    rw [split, Nat.add_mod_right, Nat.mod_eq_of_lt small]
  · rw [minusExact le small, wrap, Nat.add_sub_cancel' le, Nat.mod_eq_of_lt small]

theorem maskLow {w i x : Nat} (hi : i ≤ w) (hx : x < 2 ^ w) :
    x &&& (2 ^ w - 2 ^ i) = x / 2 ^ i * 2 ^ i := by
  have mask : 2 ^ w - 2 ^ i = (2 ^ (w - i) - 1) <<< i := by
    rw [Nat.shiftLeft_eq, Nat.sub_mul, ← pow_add, Nat.sub_add_cancel hi, one_mul]
  rw [mask, ← Nat.shiftRight_eq_div_pow, ← Nat.shiftLeft_eq]
  apply Nat.eq_of_testBit_eq
  intro j
  simp only [Nat.testBit_and, Nat.testBit_shiftLeft, Nat.testBit_two_pow_sub_one,
    Nat.testBit_shiftRight]
  by_cases low : j < i
  · simp [Nat.not_le.mpr low]
  · have ge : i ≤ j := Nat.le_of_not_lt low
    by_cases high : j < w
    · have inside : j - i < w - i := by omega
      simp [ge, inside, Nat.add_sub_cancel' ge]
    · have zero : x.testBit j = false :=
        Nat.testBit_lt_two_pow (Nat.lt_of_lt_of_le hx (Nat.pow_le_pow_right (by omega) (by omega)))
      simp [ge, zero, Nat.add_sub_cancel' ge]

theorem leRoundUp (n : Nat) {a : Nat} (pos : 0 < a) : n ≤ roundUp n a := by
  have whole := Nat.div_add_mod (n + a - 1) a
  have part := Nat.mod_lt (n + a - 1) pos
  rw [Nat.mul_comm] at whole
  unfold roundUp
  omega

theorem roundUpLt (n : Nat) {a : Nat} (pos : 0 < a) : roundUp n a < n + a := by
  have whole := Nat.div_mul_le_self (n + a - 1) a
  unfold roundUp
  omega

theorem dvdRoundUp (n a : Nat) : a ∣ roundUp n a := Dvd.intro_left _ rfl

theorem roundUpLe {n a m : Nat} (pos : 0 < a) (multiple : a ∣ m) (le : n ≤ m) : roundUp n a ≤ m := by
  obtain ⟨k, rfl⟩ := multiple
  have bound : (n + a - 1) / a ≤ k := by
    rw [← Nat.lt_succ_iff, Nat.div_lt_iff_lt_mul pos, Nat.succ_mul, Nat.mul_comm k a]
    omega
  exact (Nat.mul_le_mul_right a bound).trans_eq (Nat.mul_comm k a)

theorem roundUpMono {n m a : Nat} (pos : 0 < a) (le : n ≤ m) : roundUp n a ≤ roundUp m a :=
  roundUpLe pos (dvdRoundUp m a) (le.trans (leRoundUp m pos))

theorem roundUpOne (n : Nat) : roundUp n 1 = n := by simp [roundUp]

theorem roundUpBetween {n m a : Nat} (pos : 0 < a) (low : n ≤ m) (high : m ≤ roundUp n a) :
    roundUp m a = roundUp n a :=
  Nat.le_antisymm (roundUpLe pos (dvdRoundUp n a) high) (roundUpMono pos low)

variable {w address i : Nat}

theorem alignUpExact (hi : i ≤ w) (room : address + 2 ^ i ≤ 2 ^ w) :
    alignUp w address (2 ^ i) = roundUp address (2 ^ i) := by
  have pos := Nat.two_pow_pos i
  have small : address + 2 ^ i - 1 < 2 ^ w := by omega
  rw [alignUp, wrapSmall small, maskLow hi small, roundUp]

theorem alignUpWrapped (hi : i ≤ w) (small : address < 2 ^ w)
    (beyond : 2 ^ w < address + 2 ^ i) : alignUp w address (2 ^ i) = 0 := by
  have fits : 2 ^ i ≤ 2 ^ w := Nat.pow_le_pow_right (by omega) hi
  have wrapped : wrap w (address + 2 ^ i - 1) = address + 2 ^ i - 1 - 2 ^ w := by
    have split : address + 2 ^ i - 1 = (address + 2 ^ i - 1 - 2 ^ w) + 2 ^ w := by omega
    rw [wrap, split, Nat.add_mod_right, Nat.mod_eq_of_lt (by omega)]
    omega
  rw [alignUp, maskLow hi (wrapLt _ _), wrapped, Nat.div_eq_of_lt (by omega), Nat.zero_mul]

theorem alignUpLt (hi : i ≤ w) : alignUp w address (2 ^ i) < 2 ^ w := by
  rw [alignUp, maskLow hi (wrapLt _ _)]
  exact (Nat.div_mul_le_self _ _).trans_lt (wrapLt _ _)

end Flexbuild.Words
