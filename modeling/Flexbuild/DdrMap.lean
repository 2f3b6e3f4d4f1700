import Flexbuild.DdrAddresses

/-! What the memory map is: the regions in the order of the controllers, the ranges of the chip selects within one
region, and when the assignment meets both. -/
namespace Flexbuild.DdrAddresses
open Tilings

structure BanksInUse (banks : Word) (n : Nat) : Prop where
  cs0Cs1 : banks = FSL_DDR_CS0_CS1 → 2 ≤ n
  cs2Cs3 : banks = FSL_DDR_CS2_CS3 → 4 ≤ n
  pairs : banks = FSL_DDR_CS0_CS1_AND_CS2_CS3 → 4 ≤ n
  all : banks = FSL_DDR_CS0_CS1_CS2_CS3 → 4 ≤ n

def Controller.ranks (chipSelects : Nat) (c : Controller) : Nat :=
  (List.range chipSelects).countP fun i => c.conf.csInUse.getLsbD i

structure WellFormed (chipSelects : Nat) (c : Controller) : Prop where
  mask : c.conf.csInUse = BitVec.ofNat 32 (2 ^ c.ranks chipSelects - 1)
  banks : BanksInUse c.banks (c.ranks chipSelects)

def Controller.density (c : Controller) : Nat := c.rankDensity.toNat
def Controller.plainSize (chipSelects : Nat) (c : Controller) : Nat := c.ranks chipSelects * c.density
def Controller.sharedSize (c : Controller) : Nat := 2 * c.ctlrDensityMul * c.density

def span (memBase base size : Long) : Span := ⟨(base - memBase).toNat, size.toNat⟩
def region (memBase : Long) (conf : DdrConf) : Span := span memBase conf.baseAddr conf.totalMem
def rankSpans (memBase : Long) (n : Nat) (conf : DdrConf) : List Span :=
  (List.range n).map fun i => span memBase (conf.csBaseAddr i) (conf.csSize i)

structure Covers (ranges : List Span) (s : Span) : Prop where
  whole : ∀ x, (s.offset ≤ x ∧ x < s.stop) ↔ ∃ r ∈ ranges, r.offset ≤ x ∧ x < r.stop
  apart : ∀ r ∈ ranges, ∀ t ∈ ranges, r = t ∨ Apart r t

def rankLayout (banks : Word) : List (Nat × Nat) :=
  if banks = FSL_DDR_CS0_CS1_CS2_CS3 then [(0, 4), (0, 4), (0, 4), (0, 4)]
  else if banks = FSL_DDR_CS0_CS1 then [(0, 2), (0, 2), (2, 1), (3, 1)]
  else if banks = FSL_DDR_CS0_CS1_AND_CS2_CS3 then [(0, 2), (0, 2), (2, 2), (2, 2)]
  else if banks = FSL_DDR_CS2_CS3 then [(0, 1), (1, 1), (2, 2), (2, 2)]
  else [(0, 1), (1, 1), (2, 1), (3, 1)]

-- The ranks that the code counts: with two pairs, the first pair is counted twice.
def ranksCounted (banks : Word) (n : Nat) : Nat := if banks = FSL_DDR_CS0_CS1_AND_CS2_CS3 then 6 else n

section Ranks

variable {chipSelects n : Nat} {banks csInUse : Word} {density : Long}

def RanksAt (f : Fill) (base density : Long) : Nat → List (Nat × Nat) → Prop
  | _, [] => True
  | i, (k, m) :: rest =>
    (f.csBaseAddr i = base + BitVec.ofNat 64 k * density ∧ f.csSize i = BitVec.ofNat 64 m * density) ∧
      RanksAt f base density (i + 1) rest

theorem ranksAtGet {f : Fill} {base : Long} {layout : List (Nat × Nat)} : ∀ {start : Nat},
    RanksAt f base density start layout → ∀ i k m, layout[i]? = some (k, m) →
      f.csBaseAddr (start + i) = base + BitVec.ofNat 64 k * density ∧
        f.csSize (start + i) = BitVec.ofNat 64 m * density := by
  induction layout with
  | nil => exact fun _ _ _ _ found => nomatch found
  | cons head rest later =>
    intro start at' i k m found
    cases i with
    | zero =>
      cases found
      exact at'.1
    | succ i =>
      have place : start + (i + 1) = start + 1 + i := by omega
      rw [place]
      exact later at'.2 i k m found

structure Filled (f : Fill) (base density : Long) (counted : Nat) (layout : List (Nat × Nat)) : Prop where
  total : f.total = BitVec.ofNat 64 counted * density
  ranks : RanksAt f base density 0 layout

theorem shiftOne (d : Long) : d <<< 1 = 2 * d := by
  apply BitVec.eq_of_toNat_eq
  rw [BitVec.toNat_shiftLeft, BitVec.toNat_mul, Nat.shiftLeft_eq, Nat.mul_comm]
  rfl

theorem shiftTwo (d : Long) : d <<< 2 = 4 * d := by
  apply BitVec.eq_of_toNat_eq
  rw [BitVec.toNat_shiftLeft, BitVec.toNat_mul, Nat.shiftLeft_eq, Nat.mul_comm]
  rfl

variable (f : Fill)

theorem filledAll : Filled (fillRanks 4 FSL_DDR_CS0_CS1_CS2_CS3 csInUse density { f with total := 0 })
    f.base density 4 [(0, 4), (0, 4), (0, 4), (0, 4)] := by
  constructor
  · simp [fillRanks, forAll, List.range_succ, sharedRank, Fill.put]
    grind
  · simp [fillRanks, forAll, List.range_succ, sharedRank, Fill.put, RanksAt, shiftTwo]

theorem filledPairs : Filled (fillRanks 4 FSL_DDR_CS0_CS1_AND_CS2_CS3 (BitVec.ofNat 32 15) density { f with total := 0 })
    f.base density 6 [(0, 2), (0, 2), (2, 2), (2, 2)] := by
  constructor
  · simp [fillRanks, whileInUse, FSL_DDR_CS0_CS1_AND_CS2_CS3, FSL_DDR_CS0_CS1, FSL_DDR_CS2_CS3,
      FSL_DDR_CS0_CS1_CS2_CS3, sharedRank, Fill.put, shiftOne]
    grind
  · simp [fillRanks, whileInUse, FSL_DDR_CS0_CS1_AND_CS2_CS3, FSL_DDR_CS0_CS1, FSL_DDR_CS2_CS3,
      FSL_DDR_CS0_CS1_CS2_CS3, sharedRank, Fill.put, RanksAt, shiftOne]
    grind

theorem filledSecond : Filled (fillRanks 4 FSL_DDR_CS2_CS3 (BitVec.ofNat 32 15) density { f with total := 0 })
    f.base density 4 [(0, 1), (1, 1), (2, 2), (2, 2)] := by
  constructor
  · simp [fillRanks, whileInUse, FSL_DDR_CS0_CS1_AND_CS2_CS3, FSL_DDR_CS0_CS1, FSL_DDR_CS2_CS3,
      FSL_DDR_CS0_CS1_CS2_CS3, sharedRank, ownRank, Fill.put]
    grind
  · simp [fillRanks, whileInUse, FSL_DDR_CS0_CS1_AND_CS2_CS3, FSL_DDR_CS0_CS1, FSL_DDR_CS2_CS3,
      FSL_DDR_CS0_CS1_CS2_CS3, sharedRank, ownRank, Fill.put, RanksAt, shiftOne]
    grind

theorem filledFirst (two : 2 ≤ n) (most : n ≤ 4) :
    Filled (fillRanks 4 FSL_DDR_CS0_CS1 (BitVec.ofNat 32 (2 ^ n - 1)) density { f with total := 0 })
      f.base density n ([(0, 2), (0, 2), (2, 1), (3, 1)].take n) := by
  obtain rfl | rfl | rfl : n = 2 ∨ n = 3 ∨ n = 4 := by omega
  all_goals
    constructor
    · simp [fillRanks, whileInUse, FSL_DDR_CS0_CS1_AND_CS2_CS3, FSL_DDR_CS0_CS1, FSL_DDR_CS2_CS3,
        FSL_DDR_CS0_CS1_CS2_CS3, sharedRank, ownRank, Fill.put]
      try grind
    · simp [fillRanks, whileInUse, FSL_DDR_CS0_CS1_AND_CS2_CS3, FSL_DDR_CS0_CS1, FSL_DDR_CS2_CS3,
        FSL_DDR_CS0_CS1_CS2_CS3, sharedRank, ownRank, Fill.put, RanksAt, shiftOne]
      try grind

theorem filledOwn (sizes : chipSelects = 1 ∨ chipSelects = 4) (within : n ≤ chipSelects) (notAll : banks ≠ FSL_DDR_CS0_CS1_CS2_CS3)
    (notFirst : banks ≠ FSL_DDR_CS0_CS1) (notPairs : banks ≠ FSL_DDR_CS0_CS1_AND_CS2_CS3)
    (notSecond : banks ≠ FSL_DDR_CS2_CS3) :
    Filled (fillRanks chipSelects banks (BitVec.ofNat 32 (2 ^ n - 1)) density { f with total := 0 })
      f.base density n ([(0, 1), (1, 1), (2, 1), (3, 1)].take n) := by
  unfold fillRanks
  rw [if_neg notAll, if_neg notFirst, if_neg notPairs, if_neg notSecond]
  rcases sizes with rfl | rfl
  · obtain rfl | rfl : n = 0 ∨ n = 1 := by omega
    all_goals
      constructor
      · simp [whileInUse, ownRank, Fill.put]
      · simp [whileInUse, ownRank, Fill.put, RanksAt]
  · obtain rfl | rfl | rfl | rfl | rfl : n = 0 ∨ n = 1 ∨ n = 2 ∨ n = 3 ∨ n = 4 := by omega
    all_goals
      constructor
      · simp [whileInUse, ownRank, Fill.put]
        try grind
      · simp [whileInUse, ownRank, Fill.put, RanksAt]
        try grind

theorem filled (sizes : chipSelects = 1 ∨ chipSelects = 4) (within : n ≤ chipSelects) (inUse : BanksInUse banks n) :
    Filled (fillRanks chipSelects banks (BitVec.ofNat 32 (2 ^ n - 1)) density { f with total := 0 })
      f.base density (ranksCounted banks n) ((rankLayout banks).take n) := by
  have most : n ≤ 4 := by omega
  unfold rankLayout ranksCounted
  by_cases all : banks = FSL_DDR_CS0_CS1_CS2_CS3
  · subst all
    obtain rfl : n = 4 := Nat.le_antisymm most (inUse.all rfl)
    obtain rfl : chipSelects = 4 := by omega
    exact filledAll f
  by_cases first : banks = FSL_DDR_CS0_CS1
  · subst first
    obtain rfl : chipSelects = 4 := by
      have two := inUse.cs0Cs1 rfl
      omega
    exact filledFirst f (inUse.cs0Cs1 rfl) most
  by_cases pairs : banks = FSL_DDR_CS0_CS1_AND_CS2_CS3
  · subst pairs
    obtain rfl : n = 4 := Nat.le_antisymm most (inUse.pairs rfl)
    obtain rfl : chipSelects = 4 := by omega
    exact filledPairs f
  by_cases second : banks = FSL_DDR_CS2_CS3
  · subst second
    obtain rfl : n = 4 := Nat.le_antisymm most (inUse.cs2Cs3 rfl)
    obtain rfl : chipSelects = 4 := by omega
    exact filledSecond f
  rw [if_neg all, if_neg first, if_neg pairs, if_neg second, if_neg pairs]
  exact filledOwn f sizes within all first pairs second

theorem layoutCovers (d off : Nat) (most : n ≤ 4) (inUse : BanksInUse banks n) :
    Covers (((rankLayout banks).take n).map fun (k, m) => ⟨off + k * d, m * d⟩) ⟨off, n * d⟩ := by
  unfold rankLayout
  split
  · next all =>
    obtain rfl : n = 4 := Nat.le_antisymm most (inUse.all all)
    constructor
    · simp [Span.stop]
    · simp
  split
  · next first =>
    have two := inUse.cs0Cs1 first
    obtain rfl | rfl | rfl : n = 2 ∨ n = 3 ∨ n = 4 := by omega
    all_goals constructor <;> simp [Span.stop, Apart, Before] <;> omega
  split
  · next pairs =>
    obtain rfl : n = 4 := Nat.le_antisymm most (inUse.pairs pairs)
    constructor <;> simp [Span.stop, Apart, Before]
    omega
  split
  · next second =>
    obtain rfl : n = 4 := Nat.le_antisymm most (inUse.cs2Cs3 second)
    constructor <;> simp [Span.stop, Apart, Before] <;> omega
  · obtain rfl | rfl | rfl | rfl | rfl : n = 0 ∨ n = 1 ∨ n = 2 ∨ n = 3 ∨ n = 4 := by omega
    all_goals
      constructor
      · simp [Span.stop]
        try omega
      · simp [Span.stop, Apart, Before]
        try omega

theorem layoutLength (banks : Word) : (rankLayout banks).length = 4 := by
  unfold rankLayout
  repeat' split
  all_goals rfl

theorem layoutWithin (most : n ≤ 4) (inUse : BanksInUse banks n) :
    ∀ p ∈ (rankLayout banks).take n, p.1 + p.2 ≤ n := by
  unfold rankLayout
  split
  · next all =>
    obtain rfl : n = 4 := Nat.le_antisymm most (inUse.all all)
    decide
  split
  · next first =>
    have two := inUse.cs0Cs1 first
    obtain rfl | rfl | rfl : n = 2 ∨ n = 3 ∨ n = 4 := by omega
    all_goals decide
  split
  · next pairs =>
    obtain rfl : n = 4 := Nat.le_antisymm most (inUse.pairs pairs)
    decide
  split
  · next second =>
    obtain rfl : n = 4 := Nat.le_antisymm most (inUse.cs2Cs3 second)
    decide
  · obtain rfl | rfl | rfl | rfl | rfl : n = 0 ∨ n = 1 ∨ n = 2 ∨ n = 3 ∨ n = 4 := by omega
    all_goals decide

end Ranks

section Regions

variable {chipSelects : Nat} {c : Controller} {memBase base : Long} {off : Nat}

theorem ranksWithin (chipSelects : Nat) (c : Controller) : c.ranks chipSelects ≤ chipSelects := by
  have most := @List.countP_le_length _ (fun i => c.conf.csInUse.getLsbD i) (List.range chipSelects)
  rwa [List.length_range] at most

theorem ranksFour (sizes : chipSelects = 1 ∨ chipSelects = 4) (c : Controller) : c.ranks chipSelects ≤ 4 := by
  have most := ranksWithin chipSelects c
  omega

theorem offsetAt (below : off < 2 ^ 64) : (memBase + BitVec.ofNat 64 off - memBase).toNat = off := by
  rw [show memBase + BitVec.ofNat 64 off - memBase = BitVec.ofNat 64 off by grind, BitVec.toNat_ofNat]
  exact Nat.mod_eq_of_lt below

theorem atOffset (offset : (base - memBase).toNat = off) : base = memBase + BitVec.ofNat 64 off := by
  rw [← offset, BitVec.ofNat_toNat, BitVec.setWidth_eq]
  grind

theorem timesDensity {k : Nat} (density : Long) (fits : k * density.toNat < 2 ^ 64) (small : k < 2 ^ 64) :
    (BitVec.ofNat 64 k * density).toNat = k * density.toNat := by
  rw [BitVec.toNat_mul, BitVec.toNat_ofNat, Nat.mod_eq_of_lt small, Nat.mod_eq_of_lt fits]

theorem rankOffset {k : Nat} (density : Long) (fits : off + k * density.toNat < 2 ^ 64) :
    (memBase + BitVec.ofNat 64 off + BitVec.ofNat 64 k * density - memBase).toNat = off + k * density.toNat := by
  have isOffset : memBase + BitVec.ofNat 64 off + BitVec.ofNat 64 k * density =
      memBase + BitVec.ofNat 64 (off + k * density.toNat) := by
    rw [BitVec.ofNat_add, BitVec.ofNat_mul, BitVec.ofNat_toNat, BitVec.setWidth_eq]
    grind
  rw [isOffset, offsetAt fits]

theorem countedMost (formed : WellFormed chipSelects c) : 2 * ranksCounted c.banks (c.ranks chipSelects) ≤ 3 * c.ranks chipSelects := by
  unfold ranksCounted
  split
  · next pairs =>
    have four := formed.banks.pairs pairs
    omega
  · omega

variable (sizes : chipSelects = 1 ∨ chipSelects = 4) (formed : WellFormed chipSelects c)
include sizes formed

theorem plainFilled (base : Long) : Filled
    (fillRanks chipSelects c.banks c.conf.csInUse c.rankDensity ⟨c.conf.csBaseAddr, c.conf.csSize, base, 0⟩) base
    c.rankDensity (ranksCounted c.banks (c.ranks chipSelects)) ((rankLayout c.banks).take (c.ranks chipSelects)) := by
  rw [formed.mask]
  exact filled ⟨c.conf.csBaseAddr, c.conf.csSize, base, 0⟩ sizes (ranksWithin chipSelects c) formed.banks

theorem plainTotal (base : Long) : (assignNonIntlvAddr chipSelects c base).totalMem =
    BitVec.ofNat 64 (ranksCounted c.banks (c.ranks chipSelects)) * c.rankDensity :=
  (plainFilled sizes formed base).total

theorem plainTotalNat (base : Long) (small : c.plainSize chipSelects < 2 ^ 63) :
    (assignNonIntlvAddr chipSelects c base).totalMem.toNat =
      ranksCounted c.banks (c.ranks chipSelects) * c.density := by
  have counted := countedMost formed
  have four := ranksFour sizes c
  have most := Nat.mul_le_mul_right c.density counted
  unfold Controller.plainSize at small
  rw [plainTotal sizes formed]
  refine timesDensity _ ?_ (by omega)
  change ranksCounted c.banks (c.ranks chipSelects) * c.density < _
  rw [Nat.mul_assoc, Nat.mul_assoc] at most
  omega

theorem plainSpans (fits : off + c.plainSize chipSelects < 2 ^ 64) :
    rankSpans memBase (c.ranks chipSelects) (assignNonIntlvAddr chipSelects c (memBase + BitVec.ofNat 64 off)) =
      ((rankLayout c.banks).take (c.ranks chipSelects)).map fun (k, m) => ⟨off + k * c.density, m * c.density⟩ := by
  have four := ranksFour sizes c
  have placed := (plainFilled sizes formed (memBase + BitVec.ofNat 64 off)).ranks
  apply List.ext_getElem
  · rw [rankSpans, List.length_map, List.length_range, List.length_map, List.length_take, layoutLength]
    omega
  · intro i below belowLayout
    rw [List.length_map] at belowLayout
    simp only [rankSpans, List.getElem_map, List.getElem_range]
    have isRank := List.getElem?_eq_getElem belowLayout
    have within := layoutWithin four formed.banks _ (List.getElem_mem belowLayout)
    generalize ((rankLayout c.banks).take (c.ranks chipSelects))[i] = rank at isRank within
    obtain ⟨k, m⟩ := rank
    dsimp only at within ⊢
    have at' := ranksAtGet placed i k m isRank
    rw [Nat.zero_add] at at'
    have most := Nat.mul_le_mul_right c.density within
    rw [Nat.add_mul] at most
    unfold Controller.plainSize at fits
    unfold Controller.density at *
    have size := @timesDensity m c.rankDensity (by omega) (by omega)
    have offset := @rankOffset memBase off k c.rankDensity (by omega)
    unfold span
    change Span.mk ((Fill.csBaseAddr _ i) - memBase).toNat (Fill.csSize _ i).toNat = _
    rw [at'.1, at'.2, size, offset]

theorem plainCovers (fits : off + c.plainSize chipSelects < 2 ^ 64) :
    Covers (rankSpans memBase (c.ranks chipSelects) (assignNonIntlvAddr chipSelects c (memBase + BitVec.ofNat 64 off)))
      ⟨off, c.plainSize chipSelects⟩ := by
  rw [plainSpans sizes formed fits]
  exact layoutCovers c.density off (ranksFour sizes c) formed.banks

end Regions

end Flexbuild.DdrAddresses
