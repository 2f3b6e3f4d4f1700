import Flexbuild.FuseCodeWords

/-! The expansion of bytes to one byte for each bit, from the last byte to the first, so that the output may be the
input buffer. The loop over the bits of a byte starts one bit behind the last one. -/
namespace Flexbuild.BitExpansion
open ParityChecks (check syndrome)
open Fuse (codeBits)
open CodeWords (codeBitsAre)

abbrev Byte := BitVec 8

inductive Buffers where
  | separate (bytes bits : Nat → Byte)
  | shared (buffer : Nat → Byte)

def Buffers.byte : Buffers → Nat → Byte
  | .separate bytes _ => bytes
  | .shared buffer => buffer

def Buffers.bit : Buffers → Nat → Byte
  | .separate _ bits => bits
  | .shared buffer => buffer

def Buffers.put : Buffers → Nat → Byte → Buffers
  | .separate bytes bits, n, v => .separate bytes fun m => if m = n then v else bits m
  | .shared buffer, n, v => .shared fun m => if m = n then v else buffer m

def Buffers.isShared : Buffers → Bool
  | .separate _ _ => false
  | .shared _ => true

def bitOf (v : Byte) (j : Nat) : Byte := (v >>> j) &&& 1

def expandByte (i : Nat) : Nat → Buffers → Buffers
  | 0, b => b.put (i * 8) (bitOf (b.byte i) 0)
  | j + 1, b => expandByte i j (b.put (i * 8 + (j + 1)) (bitOf (b.byte i) (j + 1)))

def expandBytes : Nat → Nat → Buffers → Buffers
  | 0, _, b => b
  | i + 1, excess, b => expandBytes i 8 (expandByte i excess b)

def byteLen (bitLen : Nat) : Nat := (bitLen + 7) / 8

def bytesToBits (b : Buffers) (bitLen : Nat) : Buffers :=
  expandBytes (byteLen bitLen) (bitLen - (byteLen bitLen - 1) * 8) b

section Loops

variable {b : Buffers} {i n m : Nat}

theorem putBit (b : Buffers) (n : Nat) (v : Byte) (m : Nat) : (b.put n v).bit m = if m = n then v else b.bit m := by
  cases b <;> rfl

theorem putByte (b : Buffers) {n k : Nat} (v : Byte) (other : k ≠ n) : (b.put n v).byte k = b.byte k := by
  cases b with
  | separate bytes bits => rfl
  | shared buffer => exact if_neg other

structure Expands (i top : Nat) (b b' : Buffers) : Prop where
  bits : ∀ n, b'.bit n = if i * 8 ≤ n ∧ n ≤ i * 8 + top then bitOf (b.byte i) (n - i * 8) else b.bit n
  earlier : ∀ k, k < i → b'.byte k = b.byte k

theorem expandByteExpands (i : Nat) : ∀ j (b : Buffers), Expands i j b (expandByte i j b) := by
  intro j
  induction j with
  | zero =>
    intro b
    refine ⟨fun n => ?_, fun k before => putByte b _ (by omega)⟩
    rw [expandByte, putBit]
    by_cases here : n = i * 8
    · rw [if_pos here, if_pos (by omega), here, Nat.sub_self]
    · rw [if_neg here, if_neg (by omega)]
  | succ j ih =>
    intro b
    obtain ⟨bits, earlier⟩ := ih (b.put (i * 8 + (j + 1)) (bitOf (b.byte i) (j + 1)))
    have own : (b.put (i * 8 + (j + 1)) (bitOf (b.byte i) (j + 1))).byte i = b.byte i := putByte b _ (by omega)
    refine ⟨fun n => ?_, fun k before => (earlier k before).trans (putByte b _ (by omega))⟩
    rw [expandByte, bits, own, putBit]
    by_cases low : i * 8 ≤ n ∧ n ≤ i * 8 + j
    · rw [if_pos low, if_pos (by omega)]
    · rw [if_neg low]
      by_cases top : n = i * 8 + (j + 1)
      · rw [if_pos top, if_pos (by omega), top, Nat.add_sub_cancel_left]
      · rw [if_neg top, if_neg (by omega)]

theorem behindByte (v : Byte) : bitOf v 8 = 0 := by
  have every : ∀ v : Byte, bitOf v 8 = 0 := by decide
  exact every v

def clearedBit (b : Buffers) (n : Nat) : Byte := if n % 8 = 0 ∧ n ≠ 0 then 0 else bitOf (b.byte (n / 8)) (n % 8)

theorem clearedEarlier {b' : Buffers} (earlier : ∀ k, k < i → b'.byte k = b.byte k) (inside : n ≤ i * 8 ∧ 0 < i) :
    clearedBit b' n = clearedBit b n := by
  unfold clearedBit
  by_cases edge : n % 8 = 0 ∧ n ≠ 0
  · rw [if_pos edge, if_pos edge]
  · rw [if_neg edge, if_neg edge, earlier (n / 8) (by omega)]

theorem expandWhole : ∀ i (b : Buffers) n,
    (expandBytes i 8 b).bit n = if n ≤ i * 8 ∧ 0 < i then clearedBit b n else b.bit n := by
  intro i
  induction i with
  | zero => exact fun b n => (if_neg (by omega)).symm
  | succ i ih =>
    intro b n
    obtain ⟨bits, earlier⟩ := expandByteExpands i 8 b
    rw [expandBytes, ih, bits]
    by_cases below : n ≤ i * 8 ∧ 0 < i
    · rw [if_pos below, if_pos (by omega), clearedEarlier earlier below]
    · rw [if_neg below]
      by_cases here : i * 8 ≤ n ∧ n ≤ i * 8 + 8
      · rw [if_pos here, if_pos (by omega), clearedBit]
        by_cases top : n = i * 8 + 8
        · rw [if_pos (by omega), top, Nat.add_sub_cancel_left, behindByte]
        · have byte : n / 8 = i := by omega
          have place : n - i * 8 = n % 8 := by omega
          rw [if_neg (by omega), byte, place]
      · rw [if_neg here, if_neg (by omega)]

def behindBits (b : Buffers) (bitLen : Nat) : Byte :=
  bitOf (b.byte (byteLen bitLen - 1)) (bitLen - (byteLen bitLen - 1) * 8)

theorem expandedBit {bitLen : Nat} (some : 1 ≤ bitLen) (b : Buffers) (n : Nat) : (bytesToBits b bitLen).bit n =
    if n < bitLen then clearedBit b n else if n = bitLen then behindBits b bitLen else b.bit n := by
  obtain ⟨last, count⟩ : ∃ last, byteLen bitLen = last + 1 := ⟨byteLen bitLen - 1, by unfold byteLen; omega⟩
  have size : last * 8 < bitLen ∧ bitLen ≤ last * 8 + 8 := by
    unfold byteLen at count
    omega
  obtain ⟨bits, earlier⟩ := expandByteExpands last (bitLen - last * 8) b
  rw [bytesToBits, behindBits, count, Nat.add_sub_cancel, expandBytes, expandWhole, bits]
  by_cases below : n ≤ last * 8 ∧ 0 < last
  · rw [if_pos below, if_pos (by omega), clearedEarlier earlier below]
  · rw [if_neg below]
    by_cases inside : n < bitLen
    · have byte : n / 8 = last := by omega
      have place : n - last * 8 = n % 8 := by omega
      rw [if_pos inside, if_pos (by omega), clearedBit, if_neg (by omega), byte, place]
    · rw [if_neg inside]
      by_cases top : n = bitLen
      · rw [if_pos (by omega), if_pos top, top]
      · rw [if_neg (by omega), if_neg top]

end Loops

section Exactly

variable {bitLen : Nat}

def Exact (b : Buffers) (bitLen : Nat) : Prop :=
  ∀ n, (bytesToBits b bitLen).bit n = if n < bitLen then bitOf (b.byte (n / 8)) (n % 8) else b.bit n

def Holds (shared : Bool) (bytes : Nat → Byte) (bitLen : Nat) (b : Buffers) : Prop :=
  b.isShared = shared ∧ ∀ i, i < byteLen bitLen → b.byte i = bytes i

theorem notExact (some : 1 ≤ bitLen) {b : Buffers} (old : b.bit bitLen ≠ behindBits b bitLen) : ¬ Exact b bitLen := by
  intro exact_
  have behind := exact_ bitLen
  rw [expandedBit some, if_neg (Nat.lt_irrefl _), if_pos rfl, if_neg (Nat.lt_irrefl _)] at behind
  exact old behind.symm

theorem otherByte (v : Byte) : v + 1 ≠ v := by
  have every : ∀ v : Byte, v + 1 ≠ v := by decide
  exact every v

def disturbed (shared : Bool) (bytes : Nat → Byte) (bitLen : Nat) : Buffers :=
  let v := bitOf (bytes (byteLen bitLen - 1)) (bitLen - (byteLen bitLen - 1) * 8)
  if shared then .shared fun n => if n < byteLen bitLen then bytes n else v + 1 else .separate bytes fun _ => v + 1

theorem disturbedHolds (some : 1 ≤ bitLen) (shared : Bool) (bytes : Nat → Byte) :
    Holds shared bytes bitLen (disturbed shared bytes bitLen) ∧
      (disturbed shared bytes bitLen).bit bitLen ≠ behindBits (disturbed shared bytes bitLen) bitLen := by
  have last : byteLen bitLen - 1 < byteLen bitLen ∧ byteLen bitLen ≤ bitLen := by
    unfold byteLen
    omega
  cases shared with
  | false => exact ⟨⟨rfl, fun _ _ => rfl⟩, otherByte _⟩
  | true =>
    refine ⟨⟨rfl, fun i inside => if_pos inside⟩, ?_⟩
    have behind : behindBits (disturbed true bytes bitLen) bitLen =
        bitOf (bytes (byteLen bitLen - 1)) (bitLen - (byteLen bitLen - 1) * 8) :=
      congrArg (bitOf · _) (if_pos last.1)
    have old : (disturbed true bytes bitLen).bit bitLen =
        bitOf (bytes (byteLen bitLen - 1)) (bitLen - (byteLen bitLen - 1) * 8) + 1 := if_neg (by omega)
    rw [behind, old]
    exact otherByte _

theorem neverExact (some : 1 ≤ bitLen) (shared : Bool) (bytes : Nat → Byte) :
    ¬ ∀ b, Holds shared bytes bitLen b → Exact b bitLen := by
  intro all
  obtain ⟨holds, old⟩ := disturbedHolds some shared bytes
  exact notExact some old (all _ holds)

theorem bitsRight (some : 1 ≤ bitLen) (b : Buffers) :
    (∀ n, n < bitLen → (bytesToBits b bitLen).bit n = bitOf (b.byte (n / 8)) (n % 8)) ↔
      ∀ i, 1 ≤ i → i * 8 < bitLen → bitOf (b.byte i) 0 = 0 := by
  constructor
  · intro right i positive inside
    have bit := right (i * 8) inside
    rw [expandedBit some, if_pos inside, clearedBit, if_pos (by omega), Nat.mul_mod_left, Nat.mul_div_cancel _ (by decide)] at bit
    exact bit.symm
  · intro clear n inside
    rw [expandedBit some, if_pos inside, clearedBit]
    by_cases edge : n % 8 = 0 ∧ n ≠ 0
    · rw [if_pos edge, edge.1, clear (n / 8) (by omega) (by omega)]
    · rw [if_neg edge]

end Exactly

section Random

-- `get_rand_bits` and `otpmk_get_rand_bits_256` when the generator returns SUCCESS with these bytes.
def getRandBits (generated : Nat → Byte) (bits : Nat → Byte) (bitLen : Nat) : Nat → Byte :=
  (bytesToBits (.shared fun i => if i < byteLen bitLen then generated i else bits i) bitLen).bit

def bytesOf {n : Nat} (word : BitVec n) (i : Nat) : Byte := word.extractLsb' (8 * i) 8

def otpmkGetRand256 (generated : BitVec 256) (withF : Bool) : BitVec 256 :=
  CodeWords.otpmkMakeCodeWord256 (if withF then generated ||| (15#256 <<< 252) else generated)

def otpmkGetRandBits256 (generated : BitVec 256) (withF : Bool) (otpmkBits : Nat → Byte) : Nat → Byte :=
  (bytesToBits (.separate (bytesOf (otpmkGetRand256 generated withF)) otpmkBits) 256).bit

def drvrBGetRand64 (generated : BitVec 64) (with1e : Bool) : BitVec 64 :=
  CodeWords.drvrBMakeCodeWord64 (if with1e then generated ||| (15#64 <<< 57) else generated)

def drvrBGetRandBits64 (generated : BitVec 64) (with1e : Bool) (drvrBits : Nat → Byte) : Nat → Byte :=
  (bytesToBits (.separate (bytesOf (drvrBGetRand64 generated with1e)) drvrBits) 64).bit

theorem bytesBit {n : Nat} (word : BitVec n) (k : Nat) : (bitOf (bytesOf word (k / 8)) (k % 8) = 1) ↔ word.getLsbD k = true := by
  have small : k % 8 < 8 := Nat.mod_lt k (by decide)
  have number : 8 * (k / 8) + k % 8 = k := Nat.div_add_mod k 8
  have bit : (bytesOf word (k / 8)).getLsbD (k % 8) = word.getLsbD k := by
    rw [bytesOf, BitVec.getLsbD_extractLsb', number, decide_eq_true small, Bool.true_and]
  rw [← bit]
  have every : ∀ v : Byte, ∀ j, j < 8 → (bitOf v j = 1 ↔ v.getLsbD j = true) := by decide
  exact every _ _ small

def CodeBits (bits : Nat → Bool) : Prop := check (fun _ => true) bits 256 = false ∧ syndrome (BitVec.ofNat 8) bits 256 = 0

theorem codeBitsLeft (word : BitVec 256) (valid : codeBits word = (false, 0)) (cleared : Nat → Bool) :
    CodeBits (fun n => word.getLsbD n && !cleared n) ↔ CodeBits (fun n => word.getLsbD n && cleared n) := by
  have parts : word.getLsbD = fun n => (word.getLsbD n && !cleared n) ^^ (word.getLsbD n && cleared n) := by
    funext n
    cases word.getLsbD n <;> cases cleared n <;> rfl
  have same (mask : Nat → Bool) (even : check mask word.getLsbD 256 = false) :
      check mask (fun n => word.getLsbD n && !cleared n) 256 = check mask (fun n => word.getLsbD n && cleared n) 256 := by
    rw [parts, ParityChecks.checkWords] at even
    exact beq_iff_eq.mp (by simpa using even)
  rw [codeBitsAre, Prod.mk.injEq, ParityChecks.syndromeZero] at valid
  unfold CodeBits
  rw [ParityChecks.syndromeZero, ParityChecks.syndromeZero, same _ valid.1]
  refine and_congr_right fun _ => forall_congr' fun b => forall_congr' fun inside => ?_
  rw [same _ (valid.2 b inside)]

def firstOfByte (n : Nat) : Bool := decide (n % 8 = 0 ∧ n ≠ 0)

theorem otpmkBit (generated : BitVec 256) (withF : Bool) (otpmkBits : Nat → Byte) {n : Nat} (inside : n < 256) :
    decide (otpmkGetRandBits256 generated withF otpmkBits n = 1) =
      ((otpmkGetRand256 generated withF).getLsbD n && !firstOfByte n) := by
  rw [otpmkGetRandBits256, expandedBit (by decide), if_pos inside, clearedBit, firstOfByte]
  by_cases edge : n % 8 = 0 ∧ n ≠ 0
  · rw [if_pos edge, decide_eq_true edge, Bool.not_true, Bool.and_false]
    rfl
  · rw [if_neg edge, decide_eq_false edge, Bool.not_false, Bool.and_true]
    rw [Bool.eq_iff_iff, decide_eq_true_eq]
    exact bytesBit (otpmkGetRand256 generated withF) n

theorem otpmkCodeBits (generated : BitVec 256) (withF : Bool) (otpmkBits : Nat → Byte) :
    CodeBits (fun n => decide (otpmkGetRandBits256 generated withF otpmkBits n = 1)) ↔
      CodeBits (fun n => (otpmkGetRand256 generated withF).getLsbD n && firstOfByte n) := by
  rw [← codeBitsLeft (otpmkGetRand256 generated withF) (CodeWords.otpmkMakes _).valid]
  have same (n : Nat) (inside : n < 256) := otpmkBit generated withF otpmkBits inside
  unfold CodeBits
  rw [ParityChecks.syndromeCongr same]
  refine and_congr_left fun _ => ?_
  rw [ParityChecks.checkCongr fun n inside => by rw [same n inside]]

structure NeverExpands (bitLen : Nat) (shared : Bool) (bytes : Nat → Byte) (otpmk : BitVec 256) (withF : Bool)
    (drvr : BitVec 64) (with1e : Bool) : Prop where
  exact : ¬ ∀ b, Holds shared bytes bitLen b → Exact b bitLen
  bits : ∀ b, (∀ n, n < bitLen → (bytesToBits b bitLen).bit n = bitOf (b.byte (n / 8)) (n % 8)) ↔
    ∀ i, 1 ≤ i → i * 8 < bitLen → bitOf (b.byte i) 0 = 0
  randomBits : ¬ ∀ bits n, getRandBits bytes bits bitLen n = if n < bitLen then bitOf (bytes (n / 8)) (n % 8) else bits n
  otpmkBits : ¬ ∀ bits n, otpmkGetRandBits256 otpmk withF bits n =
    if n < 256 then bitOf (bytesOf (otpmkGetRand256 otpmk withF) (n / 8)) (n % 8) else bits n
  drvrBits : ¬ ∀ bits n, drvrBGetRandBits64 drvr with1e bits n =
    if n < 64 then bitOf (bytesOf (drvrBGetRand64 drvr with1e) (n / 8)) (n % 8) else bits n
  codeWord : ∀ bits, CodeBits (fun n => decide (otpmkGetRandBits256 otpmk withF bits n = 1)) ↔
    CodeBits (fun n => (otpmkGetRand256 otpmk withF).getLsbD n && firstOfByte n)

variable {bitLen : Nat}

theorem randomNotExact (some : 1 ≤ bitLen) (bytes : Nat → Byte) :
    ¬ ∀ bits n, getRandBits bytes bits bitLen n = if n < bitLen then bitOf (bytes (n / 8)) (n % 8) else bits n := by
  intro all
  have count : byteLen bitLen ≤ bitLen := by
    unfold byteLen
    omega
  obtain ⟨⟨_, holds⟩, old⟩ := disturbedHolds some true bytes
  refine notExact some old fun n => ?_
  have same : disturbed true bytes bitLen = .shared fun i => if i < byteLen bitLen then bytes i else
      (disturbed true bytes bitLen).bit i := by
    refine congrArg Buffers.shared (funext fun i => ?_)
    by_cases inside : i < byteLen bitLen
    · rw [if_pos inside, if_pos inside]
    · rw [if_neg inside, if_neg inside]
      exact (if_neg inside).symm
  have bit := all (disturbed true bytes bitLen).bit n
  rw [getRandBits, ← same] at bit
  rw [bit]
  by_cases inside : n < bitLen
  · rw [if_pos inside, if_pos inside, holds (n / 8) (by unfold byteLen; omega)]
  · rw [if_neg inside, if_neg inside]

theorem separateNotExact (some : 1 ≤ bitLen) (bytes : Nat → Byte) :
    ¬ ∀ bits n, (bytesToBits (.separate bytes bits) bitLen).bit n =
      if n < bitLen then bitOf (bytes (n / 8)) (n % 8) else bits n :=
  fun all => notExact some (disturbedHolds some false bytes).2 (all _)

theorem otpmkNotExact (otpmk : BitVec 256) (withF : Bool) : ¬ ∀ bits n, otpmkGetRandBits256 otpmk withF bits n =
    if n < 256 then bitOf (bytesOf (otpmkGetRand256 otpmk withF) (n / 8)) (n % 8) else bits n := by
  unfold otpmkGetRandBits256
  exact separateNotExact (Nat.le_add_left 1 255) _

theorem drvrNotExact (drvr : BitVec 64) (with1e : Bool) : ¬ ∀ bits n, drvrBGetRandBits64 drvr with1e bits n =
    if n < 64 then bitOf (bytesOf (drvrBGetRand64 drvr with1e) (n / 8)) (n % 8) else bits n := by
  unfold drvrBGetRandBits64
  exact separateNotExact (Nat.le_add_left 1 63) _

theorem neverExpands (some : 1 ≤ bitLen) (shared : Bool) (bytes : Nat → Byte) (otpmk : BitVec 256) (withF : Bool)
    (drvr : BitVec 64) (with1e : Bool) : NeverExpands bitLen shared bytes otpmk withF drvr with1e where
  exact := neverExact some shared bytes
  bits := bitsRight some
  randomBits := randomNotExact some bytes
  otpmkBits := otpmkNotExact otpmk withF
  drvrBits := drvrNotExact drvr with1e
  codeWord := otpmkCodeBits otpmk withF

theorem neverExpandsByte : NeverExpands 8 true (fun _ => 0x5a) 0 false 0 false := neverExpands (by decide) _ _ _ _ _ _

theorem secondByteLost : ¬ ∀ b bitLen, 1 ≤ bitLen → Exact b bitLen := by
  intro all
  have bit := all (.separate (fun _ => 1) fun _ => 0) 16 (by decide) 8
  exact absurd bit (by decide)

end Random
end Flexbuild.BitExpansion
