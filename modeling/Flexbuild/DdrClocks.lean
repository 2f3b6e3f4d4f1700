import Mathlib.Order.Bounds.Basic
import Mathlib.Data.BitVec
import Mathlib.Tactic.Common

/-! The conversion between picoseconds and memory clocks: the division by 2 * 10 ^ 12 in two parts, and the period
of a clock. A clock has two transfers, so a data rate `r` has `r / 2` clocks in a second. -/
namespace Flexbuild.DdrClocks

abbrev Long := BitVec 64
abbrev Int32 := BitVec 32

structure Divided where
  quotient : Long
  rem : Int32
  deriving DecidableEq

def doDiv (n base : Long) : Divided :=
  let base : Int32 := base.setWidth 32
  ⟨n / base.setWidth 64, (n % base.setWidth 64).setWidth 32⟩

def UL_5POW12 : Long := 244140625
def ULL_2E12 : Long := 2000000000000
def ULL_8FS : Long := 0xFFFFFFFF

def getMemoryClkPeriodPs (dataRate : Long) : Int32 :=
  let ⟨mclkPs, rem⟩ := doDiv ULL_2E12 dataRate
  (if dataRate >>> 1 ≤ rem.setWidth 64 then mclkPs + 1 else mclkPs).setWidth 32

def clksProduct (dataRate : Long) (picos : Int32) : Long := picos.setWidth 64 * dataRate

def clksDivided (dataRate : Long) (picos : Int32) : Divided := doDiv (clksProduct dataRate picos) UL_5POW12

def clksRem (dataRate : Long) (picos : Int32) : Long :=
  (clksDivided dataRate picos).rem.setWidth 64 + ((clksDivided dataRate picos).quotient &&& 8191) * UL_5POW12

def clksWhole (dataRate : Long) (picos : Int32) : Long := (clksDivided dataRate picos).quotient >>> 13

def clksRounded (dataRate : Long) (picos : Int32) : Long :=
  if dataRate < clksRem dataRate picos then clksWhole dataRate picos + 1 else clksWhole dataRate picos

def picosToMclk (dataRate : Long) (picos : Int32) : Int32 :=
  if picos = 0 ∨ dataRate = 0 then 0
  else if ULL_8FS < clksRounded dataRate picos then ULL_8FS.setWidth 32
  else (clksRounded dataRate picos).setWidth 32

section Division

theorem doDivExact (n base : Long) (narrow : base.toNat < 2 ^ 32) (some : 0 < base.toNat) :
    (doDiv n base).quotient.toNat = n.toNat / base.toNat ∧ (doDiv n base).rem.toNat = n.toNat % base.toNat := by
  have same : (base.setWidth 32).setWidth 64 = base := by
    apply BitVec.eq_of_toNat_eq
    rw [BitVec.toNat_setWidth, BitVec.toNat_setWidth]
    omega
  have small := Nat.mod_lt n.toNat some
  unfold doDiv
  simp only [same, BitVec.toNat_udiv, BitVec.toNat_umod, BitVec.toNat_setWidth, true_and]
  exact Nat.mod_eq_of_lt (by omega)

end Division

section Clocks

variable {r : Long} {p q : Int32}

structure Exact (r : Long) (p : Int32) : Prop where
  product : (clksProduct r p).toNat = p.toNat * r.toNat
  quotient : (clksDivided r p).quotient.toNat = p.toNat * r.toNat / 5 ^ 12
  rem : (clksRem r p).toNat = p.toNat * r.toNat % (2 * 10 ^ 12)
  whole : (clksWhole r p).toNat = p.toNat * r.toNat / (2 * 10 ^ 12)
  rounded : (clksRounded r p).toNat =
    if r.toNat < p.toNat * r.toNat % (2 * 10 ^ 12) then p.toNat * r.toNat / (2 * 10 ^ 12) + 1
    else p.toNat * r.toNat / (2 * 10 ^ 12)

theorem exact (narrow : r.toNat < 2 ^ 32) (p : Int32) : Exact r p := by
  have small := p.isLt
  have bound : p.toNat * r.toNat < 2 ^ 64 := by
    have := Nat.mul_lt_mul'' small narrow
    omega
  have product : (clksProduct r p).toNat = p.toNat * r.toNat := by
    rw [clksProduct, BitVec.toNat_mul, BitVec.toNat_setWidth, Nat.mod_eq_of_lt (a := p.toNat) (by omega),
      Nat.mod_eq_of_lt bound]
  obtain ⟨quotient, first⟩ := doDivExact (clksProduct r p) UL_5POW12 (by decide) (by decide)
  have five : UL_5POW12.toNat = 5 ^ 12 := rfl
  rw [product, five] at quotient first
  generalize isN : p.toNat * r.toNat = n at *
  have factors : 2 * 10 ^ 12 = 5 ^ 12 * 2 ^ 13 := rfl
  have low : ((clksDivided r p).quotient &&& 8191).toNat = n / 5 ^ 12 % 2 ^ 13 := by
    have mask : (8191 : Long).toNat = 2 ^ 13 - 1 := rfl
    rw [BitVec.toNat_and, mask, Nat.and_two_pow_sub_one_eq_mod]
    exact congrArg (· % 2 ^ 13) quotient
  have whole : (clksWhole r p).toNat = n / (2 * 10 ^ 12) := by
    rw [clksWhole, BitVec.toNat_ushiftRight, Nat.shiftRight_eq_div_pow]
    rw [show (clksDivided r p).quotient.toNat = n / 5 ^ 12 from quotient, Nat.div_div_eq_div_mul, ← factors]
  have rem : (clksRem r p).toNat = n % (2 * 10 ^ 12) := by
    have split : n % (2 * 10 ^ 12) = n % 5 ^ 12 + n / 5 ^ 12 % 2 ^ 13 * 5 ^ 12 := by
      rw [factors, Nat.mod_mul, Nat.mul_comm (5 ^ 12)]
    have top : n / 5 ^ 12 % 2 ^ 13 < 2 ^ 13 := Nat.mod_lt _ (by decide)
    have bottom : n % 5 ^ 12 < 5 ^ 12 := Nat.mod_lt _ (by decide)
    have wide : ((clksDivided r p).rem.setWidth 64).toNat = n % 5 ^ 12 := by
      rw [BitVec.toNat_setWidth, show (clksDivided r p).rem.toNat = n % 5 ^ 12 from first]
      omega
    rw [clksRem, BitVec.toNat_add, BitVec.toNat_mul, low, wide, five, split]
    omega
  subst isN
  refine ⟨product, quotient, rem, whole, ?_⟩
  simp only [clksRounded, BitVec.lt_def, rem]
  split
  · rw [BitVec.toNat_add, whole]
    have one : (1 : Long).toNat = 1 := rfl
    omega
  · exact whole

theorem clocksLeast (positive : 0 < r.toNat) (narrow : r.toNat < 2 ^ 32) (some : 0 < p.toNat) :
    ∃ n, IsLeast {n | p.toNat * r.toNat ≤ n * (2 * 10 ^ 12) + r.toNat} n ∧
      (picosToMclk r p).toNat = min (2 ^ 32 - 1) n := by
  have rounded := (exact narrow p).rounded
  refine ⟨(clksRounded r p).toNat, ?_, ?_⟩
  · rw [rounded]
    generalize p.toNat * r.toNat = n
    constructor
    · simp only [Set.mem_ofPred_eq]
      split <;> omega
    · intro m enough
      simp only [Set.mem_ofPred_eq] at enough
      split <;> omega
  · have someP : ¬ (p = 0 ∨ r = 0) := by
      rintro (rfl | rfl)
      · exact absurd some (by decide)
      · exact absurd positive (by decide)
    have limit : ULL_8FS.toNat = 2 ^ 32 - 1 := rfl
    rw [picosToMclk, if_neg someP]
    simp only [BitVec.lt_def, limit]
    split
    · next over_ =>
      rw [Nat.min_eq_left (by omega)]
      rfl
    · next fits =>
      rw [Nat.min_eq_right (by omega), BitVec.toNat_setWidth, Nat.mod_eq_of_lt (by omega)]

theorem clocksMonotone (narrow : r.toNat < 2 ^ 32) (less : p ≤ q) : picosToMclk r p ≤ picosToMclk r q := by
  rw [BitVec.le_def] at less ⊢
  by_cases zero : p = 0 ∨ r = 0
  · rw [picosToMclk, if_pos zero]
    exact Nat.zero_le _
  · rw [not_or] at zero
    have positive : 0 < r.toNat := Nat.pos_of_ne_zero fun none => zero.2 (BitVec.eq_of_toNat_eq none)
    have some : 0 < p.toNat := Nat.pos_of_ne_zero fun none => zero.1 (BitVec.eq_of_toNat_eq none)
    obtain ⟨m, ⟨_, least⟩, isM⟩ := clocksLeast positive narrow some
    obtain ⟨n, ⟨enough, _⟩, isN⟩ := clocksLeast (p := q) positive narrow (by omega)
    have more : m ≤ n := by
      refine least (Nat.le_trans ?_ enough)
      exact Nat.mul_le_mul_right _ less
    rw [isM, isN]
    omega

end Clocks

section Period

variable {r : Long}

def periodOf (r : Nat) : Nat := 2 * 10 ^ 12 / r + if r / 2 ≤ 2 * 10 ^ 12 % r then 1 else 0

theorem periodRule (positive : 0 < r.toNat) (narrow : r.toNat < 2 ^ 32) (fits : periodOf r.toNat < 2 ^ 32) :
    (getMemoryClkPeriodPs r).toNat = periodOf r.toNat := by
  obtain ⟨quotient, rem⟩ := doDivExact ULL_2E12 r narrow positive
  have number : ULL_2E12.toNat = 2 * 10 ^ 12 := rfl
  have one : (1 : Long).toNat = 1 := rfl
  have small := Nat.mod_lt (2 * 10 ^ 12) positive
  rw [number] at quotient rem
  unfold periodOf at fits ⊢
  have compare : r >>> 1 ≤ (doDiv ULL_2E12 r).rem.setWidth 64 ↔ r.toNat / 2 ≤ 2 * 10 ^ 12 % r.toNat := by
    rw [BitVec.le_def, BitVec.toNat_setWidth, rem, BitVec.toNat_ushiftRight, Nat.shiftRight_eq_div_pow,
      Nat.mod_eq_of_lt (by omega), Nat.pow_one]
  change BitVec.toNat (BitVec.setWidth 32 (if r >>> 1 ≤ (doDiv ULL_2E12 r).rem.setWidth 64 then
    (doDiv ULL_2E12 r).quotient + 1 else (doDiv ULL_2E12 r).quotient)) = _
  simp only [compare]
  split
  · next up =>
    rw [if_pos up] at fits
    rw [BitVec.toNat_setWidth, BitVec.toNat_add, quotient, one]
    omega
  · next down =>
    rw [if_neg down] at fits
    rw [BitVec.toNat_setWidth, quotient]
    omega

theorem periodTimes (r : Nat) :
    periodOf r * r = r * (2 * 10 ^ 12 / r) + if r / 2 ≤ 2 * 10 ^ 12 % r then r else 0 := by
  unfold periodOf
  split
  · rw [Nat.add_mul, Nat.one_mul, Nat.mul_comm]
  · rw [Nat.add_zero, Nat.add_zero, Nat.mul_comm]

theorem periodNear (r : Nat) (positive : 0 < r) :
    2 * (periodOf r * r) ≤ 2 * (2 * 10 ^ 12) + r + 1 ∧ 2 * (2 * 10 ^ 12) ≤ 2 * (periodOf r * r) + r := by
  have parts := Nat.div_add_mod (2 * 10 ^ 12) r
  have small := Nat.mod_lt (2 * 10 ^ 12) positive
  rw [periodTimes]
  split <;> omega

theorem dividesHalf (r : Nat) (positive : 0 < r) : r ∣ 4 * 10 ^ 12 + 1 ↔ 2 * (2 * 10 ^ 12 % r) + 1 = r := by
  have parts := Nat.div_add_mod (2 * 10 ^ 12) r
  have small := Nat.mod_lt (2 * 10 ^ 12) positive
  have sum : 4 * 10 ^ 12 + 1 = r * (2 * (2 * 10 ^ 12 / r)) + (2 * (2 * 10 ^ 12 % r) + 1) := by
    rw [Nat.mul_left_comm]
    omega
  rw [sum, Nat.dvd_add_right (Nat.dvd_mul_right r _)]
  constructor
  · rintro ⟨k, isK⟩
    have once : k = 1 := by
      rcases k with _ | _ | k
      · omega
      · rfl
      · rw [Nat.mul_succ, Nat.mul_succ] at isK
        omega
    rw [isK, once, Nat.mul_one]
  · intro equal
    rw [equal]

theorem periodNearest (r : Nat) (positive : 0 < r) :
    (2 * (periodOf r * r) ≤ 2 * (2 * 10 ^ 12) + r ∧ 2 * (2 * 10 ^ 12) ≤ 2 * (periodOf r * r) + r) ↔
      ¬ r ∣ 4 * 10 ^ 12 + 1 := by
  have parts := Nat.div_add_mod (2 * 10 ^ 12) r
  have small := Nat.mod_lt (2 * 10 ^ 12) positive
  rw [dividesHalf r positive, periodTimes]
  split <;> omega

theorem periodClock (slow : 4 * 10 ^ 6 ≤ r.toNat) (fast : r.toNat ≤ 4 * 10 ^ 9) :
    periodOf r.toNat < 2 ^ 32 ∧ picosToMclk r (getMemoryClkPeriodPs r) = 1 := by
  obtain ⟨above, below⟩ := periodNear r.toNat (by omega)
  have most : periodOf r.toNat < 2 ^ 32 := by
    by_contra large
    have := Nat.mul_le_mul (Nat.not_lt.mp large) slow
    omega
  have period := periodRule (by omega) (by omega) most
  have least : 500 ≤ periodOf r.toNat := by
    by_contra few
    have := Nat.mul_le_mul (Nat.le_of_lt_succ (Nat.not_le.mp few)) fast
    omega
  have more := Nat.mul_le_mul_right r.toNat least
  obtain ⟨n, ⟨enough, first⟩, isN⟩ := clocksLeast (r := r) (p := getMemoryClkPeriodPs r) (by omega) (by omega) (by omega)
  rw [period] at enough first
  have atMost : n ≤ 1 := first (by simp only [Set.mem_ofPred_eq]; omega)
  simp only [Set.mem_ofPred_eq] at enough
  have one : n = 1 := by
    rcases n with _ | n
    · omega
    · omega
  refine ⟨most, BitVec.eq_of_toNat_eq ?_⟩
  rw [isN, one]
  rfl

end Period

section Conversion

variable {r : Long} {p q : Int32}

structure Converts (r : Long) (p q : Int32) : Prop where
  exact : Exact r p
  least : ∃ n, IsLeast {n | p.toNat * r.toNat ≤ n * (2 * 10 ^ 12) + r.toNat} n ∧ (picosToMclk r p).toNat = min (2 ^ 32 - 1) n
  monotone : p ≤ q → picosToMclk r p ≤ picosToMclk r q
  period : periodOf r.toNat < 2 ^ 32 → (getMemoryClkPeriodPs r).toNat = periodOf r.toNat
  nearest : ¬ r.toNat ∣ 4 * 10 ^ 12 + 1 →
    2 * (periodOf r.toNat * r.toNat) ≤ 2 * (2 * 10 ^ 12) + r.toNat ∧
      2 * (2 * 10 ^ 12) ≤ 2 * (periodOf r.toNat * r.toNat) + r.toNat
  clock : 4 * 10 ^ 6 ≤ r.toNat → r.toNat ≤ 4 * 10 ^ 9 → picosToMclk r (getMemoryClkPeriodPs r) = 1

theorem clocksConvert (positive : 0 < r.toNat) (narrow : r.toNat < 2 ^ 32) (some : 0 < p.toNat) (q : Int32) :
    Converts r p q where
  exact := exact narrow p
  least := clocksLeast positive narrow some
  monotone := clocksMonotone narrow
  period := periodRule positive narrow
  nearest := (periodNearest r.toNat positive).mpr
  clock slow fast := (periodClock slow fast).2

theorem clocksConvertDdr4 : Converts 2133333333 13750 15000 := clocksConvert (by decide) (by decide) (by decide) 15000

theorem periodNotNearest : ¬ ∀ r : Long, 0 < r.toNat → r.toNat < 2 ^ 32 → periodOf r.toNat < 2 ^ 32 →
    2 * ((getMemoryClkPeriodPs r).toNat * r.toNat) ≤ 2 * (2 * 10 ^ 12) + r.toNat ∧
      2 * (2 * 10 ^ 12) ≤ 2 * ((getMemoryClkPeriodPs r).toNat * r.toNat) + r.toNat := by
  intro all
  exact absurd (all 554554277 (by decide) (by decide) (by decide)).1 (by decide)

end Conversion
end Flexbuild.DdrClocks
