import Mathlib
import Flexbuild.Shbp

/-! Where the two rings of a shared buffer pool lie. The size of the rings comes from an
unsigned subtraction, so a size below that of the header gives the largest rings of all; from
the size of the header on, the rings lie behind it and inside of what the caller gave. -/
namespace Flexbuild.ShbpLayout
open Words Shbp

structure Target where
  pointerBits : Nat
  wide : 32 ≤ pointerBits
  shbpPtrToBuf : Nat → Nat
  shbpBufToPtr : Nat → Nat
  cpuToLe64 : Nat → Nat
  back : ∀ p < 2 ^ pointerBits, shbpBufToPtr (shbpPtrToBuf p) = p
  swapped : ∀ v, cpuToLe64 (cpuToLe64 v) = v

structure Bases where
  maxNum : Nat
  allocMaster : Nat
  allocBase : Nat
  freeBase : Nat
  deriving DecidableEq, Repr

def isAligned (address alignment : Nat) : Bool := wrap 32 address &&& minus 32 alignment 1 = 0

def shbpSizeBytes (maxNum : Nat) : Nat := (1 <<< maxNum) <<< 3

def shbpFlibMemPtrSize (numBufs : Nat) : Nat := wrap 32 (shbpTotalBytes + wrap 32 (16 * numBufs))

variable (t : Target)

-- Without DEBUG. What `_bp` receives is `memPtr`.
def shbpFlibCreate (memPtr size flags : Nat) : Option Bases :=
  if isAligned memPtr 64 = false then none
  else
    let ringSize := minus 32 size shbpTotalBytes
    let ringSize := ringSize >>> 4
    if ringSize < 8 then none
    else
      let maxNum := getNumOfFirstBit ringSize
      let allocBase := wrap t.pointerBits (memPtr + shbpTotalBytes)
      let freeBase := wrap t.pointerBits (allocBase + shbpSizeBytes maxNum)
      some ⟨maxNum, flags &&& 1, t.cpuToLe64 (t.shbpPtrToBuf allocBase), t.cpuToLe64 (t.shbpPtrToBuf freeBase)⟩

def Target.ringAt (base : Nat) : Nat := t.shbpBufToPtr (t.cpuToLe64 base)

def Target.bytes (start n : Nat) : Set Nat := {a | ∃ i < n, a = wrap t.pointerBits (start + i)}

def Bases.allocRing (l : Bases) : Set Nat := t.bytes (t.ringAt l.allocBase) (8 * 2 ^ l.maxNum)

def Bases.freeRing (l : Bases) : Set Nat := t.bytes (t.ringAt l.freeBase) (8 * 2 ^ l.maxNum)

structure LaidOut (memPtr size : Nat) (l : Bases) : Prop where
  apart : Disjoint (l.allocRing t) (l.freeRing t)
  allocBehind : Disjoint (t.bytes memPtr shbpTotalBytes) (l.allocRing t)
  freeBehind : Disjoint (t.bytes memPtr shbpTotalBytes) (l.freeRing t)
  allocInside : l.allocRing t ⊆ t.bytes memPtr size
  freeInside : l.freeRing t ⊆ t.bytes memPtr size

structure LayoutKept (memPtr size flags : Nat) : Prop where
  created : ∀ l, shbpFlibCreate t memPtr size flags = some l → LaidOut t memPtr size l
  rejected : size < shbpTotalBytes + 2 * (8 * 8) → shbpFlibCreate t memPtr size flags = none

variable {t} {memPtr size flags : Nat}

theorem alignedIff : isAligned memPtr 64 = true ↔ 64 ∣ memPtr := by
  have mask : minus 32 64 1 = 2 ^ 6 - 1 := by decide
  rw [isAligned, decide_eq_true_iff, mask, Nat.and_two_pow_sub_one_eq_mod, wrap, Nat.dvd_iff_mod_eq_zero,
    Nat.mod_mod_of_dvd _ (by decide)]

theorem createConfig : (shbpFlibCreate t memPtr size flags).map (fun l => Config.mk l.maxNum (decide (l.allocMaster ≠ 0))) =
    Shbp.shbpFlibCreate (isAligned memPtr 64) size flags := by
  unfold shbpFlibCreate Shbp.shbpFlibCreate
  split
  · rfl
  · dsimp only
    split <;> rfl

theorem bytesFrom (a n : Nat) : t.bytes (wrap t.pointerBits (memPtr + a)) n =
    {x | ∃ i, a ≤ i ∧ i < a + n ∧ x = wrap t.pointerBits (memPtr + i)} := by
  ext x
  constructor
  · rintro ⟨i, below, rfl⟩
    refine ⟨a + i, Nat.le_add_right a i, by omega, ?_⟩
    rw [wrap, wrap, wrap, Nat.mod_add_mod, Nat.add_assoc]
  · rintro ⟨i, low, high, rfl⟩
    refine ⟨i - a, by omega, ?_⟩
    rw [wrap, wrap, wrap, Nat.mod_add_mod, Nat.add_assoc, Nat.add_sub_cancel' low]

theorem offsetUnique {i j : Nat} (first : i < 2 ^ 32) (second : j < 2 ^ 32)
    (same : wrap t.pointerBits (memPtr + i) = wrap t.pointerBits (memPtr + j)) : i = j := by
  have wide : 2 ^ 32 ≤ 2 ^ t.pointerBits := Nat.pow_le_pow_right (by decide) t.wide
  have equal : i % 2 ^ t.pointerBits = j % 2 ^ t.pointerBits := Nat.ModEq.add_left_cancel' memPtr same
  rwa [Nat.mod_eq_of_lt (by omega), Nat.mod_eq_of_lt (by omega)] at equal

theorem bytesApart {a n b k : Nat} (order : a + n ≤ b) (inside : b + k ≤ 2 ^ 32) :
    Disjoint (t.bytes (wrap t.pointerBits (memPtr + a)) n) (t.bytes (wrap t.pointerBits (memPtr + b)) k) := by
  rw [bytesFrom, bytesFrom, Set.disjoint_left]
  rintro x ⟨i, _, high, rfl⟩ ⟨j, low, below, same⟩
  have := offsetUnique (by omega) (by omega) same
  omega

theorem bytesInside {a n : Nat} (inside : a + n ≤ size) :
    t.bytes (wrap t.pointerBits (memPtr + a)) n ⊆ t.bytes memPtr size := by
  rw [bytesFrom]
  rintro x ⟨i, _, high, rfl⟩
  exact ⟨i, by omega, rfl⟩

theorem bytesStart (n : Nat) : t.bytes memPtr n = t.bytes (wrap t.pointerBits (memPtr + 0)) n := by
  rw [bytesFrom]
  ext x
  constructor
  · rintro ⟨i, below, rfl⟩
    exact ⟨i, Nat.zero_le i, by omega, rfl⟩
  · rintro ⟨i, _, below, rfl⟩
    exact ⟨i, by omega, rfl⟩

theorem ringStored (p : Nat) : t.ringAt (t.cpuToLe64 (t.shbpPtrToBuf (wrap t.pointerBits p))) = wrap t.pointerBits p := by
  rw [Target.ringAt, t.swapped, t.back _ (wrapLt _ _)]

theorem sizeBytesEq (maxNum : Nat) : shbpSizeBytes maxNum = 8 * 2 ^ maxNum := by
  rw [shbpSizeBytes, Nat.shiftLeft_eq, Nat.shiftLeft_eq]
  omega

structure Created (t : Target) (memPtr size : Nat) (l : Bases) : Prop where
  alloc : t.ringAt l.allocBase = wrap t.pointerBits (memPtr + 64)
  free : t.ringAt l.freeBase = wrap t.pointerBits (memPtr + (64 + 8 * 2 ^ l.maxNum))
  num : l.maxNum = (minus 32 size 64 / 16).log2
  room : 2 * (8 * 2 ^ l.maxNum) ≤ minus 32 size 64
  least : 3 ≤ l.maxNum

theorem created {l : Bases} (done : shbpFlibCreate t memPtr size flags = some l) : Created t memPtr size l := by
  have sized : Shbp.shbpFlibCreate (isAligned memPtr 64) size flags = some ⟨l.maxNum, decide (l.allocMaster ≠ 0)⟩ := by
    rw [← createConfig, done, Option.map_some]
  obtain ⟨low, _, room⟩ := shbpFlibCreateSized sized
  simp only [shbpFlibCreate] at done
  split at done
  · cases done
  · split at done
    · cases done
    · rename_i enough
      cases done
      have pos : minus 32 size 64 >>> 4 ≠ 0 := by
        intro zero
        exact enough (by rw [shbpTotalBytes, zero]; decide)
      have small : minus 32 size 64 >>> 4 < 2 ^ 32 := by
        have := minusLt 32 size 64
        rw [Nat.shiftRight_eq_div_pow]
        omega
      refine ⟨ringStored _, ?_, ?_, room, low⟩
      · rw [ringStored, sizeBytesEq, wrap, wrap, wrap, Nat.mod_add_mod, Nat.add_assoc]
        rfl
      · exact (getNumOfFirstBitLog pos small).trans (by rw [Nat.shiftRight_eq_div_pow])

theorem laidOut {l : Bases} (done : shbpFlibCreate t memPtr size flags = some l) (narrow : size < 2 ^ 32) (enough : 64 ≤ size) :
    LaidOut t memPtr size l := by
  obtain ⟨alloc, free, _, room, _⟩ := created done
  rw [minusExact enough narrow] at room
  have header : t.bytes memPtr shbpTotalBytes = t.bytes (wrap t.pointerBits (memPtr + 0)) 64 := bytesStart 64
  constructor
  · rw [Bases.allocRing, Bases.freeRing, alloc, free]
    exact bytesApart (le_refl _) (by omega)
  · rw [Bases.allocRing, header, alloc]
    exact bytesApart (by omega) (by omega)
  · rw [Bases.freeRing, header, free]
    exact bytesApart (by omega) (by omega)
  · rw [Bases.allocRing, alloc]
    exact bytesInside (by omega)
  · rw [Bases.freeRing, free]
    exact bytesInside (by omega)

theorem acceptsIff (aligned : 64 ∣ memPtr) :
    (∃ l, shbpFlibCreate t memPtr size flags = some l) ↔ 8 ≤ minus 32 size 64 / 16 := by
  simp only [shbpFlibCreate, alignedIff.mpr aligned, Bool.true_eq_false, if_false, shbpTotalBytes, Nat.shiftRight_eq_div_pow]
  split
  · exact iff_of_false (fun ⟨_, done⟩ => Option.some_ne_none _ done.symm) (by omega)
  · exact iff_of_true ⟨_, rfl⟩ (by omega)

theorem layoutRight (t : Target) {memPtr size : Nat} (flags : Nat) (aligned : 64 ∣ memPtr) (narrow : size < 2 ^ 32) :
    (LayoutKept t memPtr size flags ↔ 64 ≤ size) ∧ ∀ x, 8 ≤ 2 ^ x → 16 * 2 ^ x < 2 ^ 31 →
      ∃ l, shbpFlibCreate t memPtr (shbpFlibMemPtrSize (2 ^ x)) flags = some l ∧ l.maxNum = x := by
  constructor
  · constructor
    · intro kept
      by_contra short
      have borrowed : minus 32 size 64 = size + 2 ^ 32 - 64 := minusBorrow (by omega) (by decide)
      obtain ⟨l, done⟩ := (@acceptsIff t memPtr size flags aligned).mpr (by omega)
      have none := kept.rejected (by rw [shbpTotalBytes]; omega)
      exact Option.some_ne_none l (done.symm.trans none)
    · intro enough
      refine ⟨fun l done => laidOut done narrow enough, fun small => ?_⟩
      rw [shbpTotalBytes] at small
      by_contra accepts
      have accepted := (@acceptsIff t memPtr size flags aligned).mp (Option.ne_none_iff_exists'.mp accepts)
      rw [minusExact enough narrow] at accepted
      omega
  · intro x eight small
    have size : shbpFlibMemPtrSize (2 ^ x) = 64 + 16 * 2 ^ x := by
      have slots : wrap 32 (16 * 2 ^ x) = 16 * 2 ^ x := wrapSmall (by omega)
      rw [shbpFlibMemPtrSize, shbpTotalBytes, slots, wrapSmall (by omega)]
    have bytes : minus 32 (64 + 16 * 2 ^ x) 64 / 16 = 2 ^ x := by
      rw [minusExact (by omega) (by omega)]
      omega
    rw [size]
    obtain ⟨l, done⟩ := (@acceptsIff t memPtr (64 + 16 * 2 ^ x) flags aligned).mpr (by omega)
    refine ⟨l, done, ?_⟩
    rw [(created done).num, bytes, Nat.log2_two_pow]

def plainTarget : Target := ⟨32, by decide, id, id, id, fun _ _ => rfl, fun _ => rfl⟩

theorem layoutRightExample : LayoutKept plainTarget 0x1000 0x400 0 :=
  (layoutRight plainTarget 0 (by decide) (by decide)).1.mpr (by decide)

theorem tinyAccepted : (shbpFlibCreate plainTarget 0x1000 32 0).map Bases.maxNum = some 27 ∧
    ¬LayoutKept plainTarget 0x1000 32 0 := by
  have made : (shbpFlibCreate plainTarget 0x1000 32 0).map Bases.maxNum = some 27 := by decide
  refine ⟨made, fun kept => ?_⟩
  rw [kept.rejected (by decide)] at made
  exact absurd made (by decide)

end Flexbuild.ShbpLayout
