import Flexbuild.FuseModel
import Flexbuild.ParityChecks

/-! Code words for fuses: a value is a code word when the exclusive or of the places of its bits is zero and so
is its parity. The places are counted from zero with the parity in bit 0, or from one with the parity in bit 63. -/
namespace Flexbuild.CodeWords
open Fuse (codeBits)
open ParityChecks

section Otpmk

def flipBit {n : Nat} (word : BitVec n) (i : Nat) : BitVec n := word ^^^ (1#n <<< i)

def otpmkMakeCodeWord256 (otpmk : BitVec 256) : BitVec 256 :=
  let (parityBit, codeBit) := codeBits otpmk
  let (otpmk, parityBit) :=
    if codeBit.toNat < 128 then (flipBit otpmk codeBit.toNat, !parityBit)
    else (flipBit (flipBit otpmk (codeBit.toNat - 128)) 128, parityBit)
  if parityBit then flipBit otpmk 0 else otpmk

def otpmkCheckCodeWord256 (otpmk : BitVec 256) : Nat :=
  let (parityBit, codeBit) := codeBits otpmk
  codeBit.toNat ||| parityBit.toNat <<< 8

end Otpmk

section Drvr

def codeBitsB (drvr : BitVec 64) : Bool × BitVec 8 :=
  (List.range 64).foldl (fun (parityBit, codeBit) i =>
    if drvr.getLsbD i then (!parityBit, codeBit ^^^ (BitVec.ofNat 8 (i + 1) &&& 0x3f)) else (parityBit, codeBit)) (false, 0)

def drvrBMakeCodeWord64 (drvr : BitVec 64) : BitVec 64 :=
  let (parityBit, codeBit) := codeBitsB drvr
  let place := (codeBit - 1) &&& 0x3f
  let (drvr, parityBit) :=
    if codeBit.toNat < 32 then (flipBit drvr place.toNat, !parityBit)
    else (flipBit (flipBit drvr (place ^^^ 32).toNat) 31, parityBit)
  if parityBit then flipBit drvr 63 else drvr

def blocks (start step size : Nat) : List Nat :=
  (List.range' start ((62 - start) / step + 1) step).flatMap fun i => List.range' i size

def cbit (drvr : BitVec 64) (places : List Nat) : Bool := places.foldl (fun cbit i => cbit ^^ drvr.getLsbD i) false

def shifted (cbit : Bool) (k : Nat) : BitVec 8 := (BitVec.ofBool cbit).setWidth 8 <<< k

def drvrBCheckCodeWord64 (drvr : BitVec 64) : BitVec 8 :=
  shifted (cbit drvr (List.range 64)) 0 ^^^ shifted (cbit drvr (blocks 0 2 1)) 1 ^^^ shifted (cbit drvr (blocks 1 4 2)) 2 ^^^
    shifted (cbit drvr (blocks 3 8 4)) 3 ^^^ shifted (cbit drvr (blocks 7 16 8)) 4 ^^^
    shifted (cbit drvr (blocks 15 32 16)) 5 ^^^ shifted (cbit drvr (blocks 31 64 32)) 6

end Drvr

section Flips

variable {n i : Nat} {word : BitVec n}

theorem flipBitGet (word : BitVec n) (inside : i < n) (k : Nat) :
    (flipBit word i).getLsbD k = flipped word.getLsbD i k := by
  rw [flipBit, BitVec.getLsbD_xor, BitVec.getLsbD_shiftLeft, BitVec.getLsbD_one]
  unfold flipped
  by_cases here : k = i
  · subst here
    have some : 0 < n := by omega
    simp [inside, some]
  · rw [if_neg here]
    by_cases below : k < i
    · simp [below]
    · have more : k - i ≠ 0 := by omega
      simp [more]

theorem flipBitFun (word : BitVec n) (inside : i < n) : (flipBit word i).getLsbD = flipped word.getLsbD i :=
  funext fun k => flipBitGet word inside k

theorem flipBitTwice (word : BitVec n) (i : Nat) : flipBit (flipBit word i) i = word := by
  rw [flipBit, flipBit, BitVec.xor_assoc, BitVec.xor_self, BitVec.xor_zero]

theorem flipBitOther (word : BitVec n) {k : Nat} (inside : i < n) (other : k ≠ i) :
    (flipBit word i).getLsbD k = word.getLsbD k := by
  rw [flipBitGet word inside, flipped, if_neg other]

theorem codeBitsAre (word : BitVec 256) :
    codeBits word = (check (fun _ => true) word.getLsbD 256, syndrome (BitVec.ofNat 8) word.getLsbD 256) :=
  foldBoth word.getLsbD 256

theorem codeBitsFlip (word : BitVec 256) (inside : i < 256) :
    codeBits (flipBit word i) = (!(codeBits word).1, (codeBits word).2 ^^^ BitVec.ofNat 8 i) := by
  rw [codeBitsAre, codeBitsAre, flipBitFun word inside, checkFlip inside, syndromeFlip inside]
  simp

def indexB (i : Nat) : BitVec 8 := BitVec.ofNat 8 (i + 1) &&& 0x3f

theorem codeBitsBAre (word : BitVec 64) :
    codeBitsB word = (check (fun _ => true) word.getLsbD 64, syndrome indexB word.getLsbD 64) :=
  foldBoth word.getLsbD 64

theorem codeBitsBFlip (word : BitVec 64) (inside : i < 64) :
    codeBitsB (flipBit word i) = (!(codeBitsB word).1, (codeBitsB word).2 ^^^ indexB i) := by
  rw [codeBitsBAre, codeBitsBAre, flipBitFun word inside, checkFlip inside, syndromeFlip inside]
  simp

end Flips

section Checked

theorem otpmkChecks (word : BitVec 256) : otpmkCheckCodeWord256 word = 0 ↔ codeBits word = (false, 0) := by
  unfold otpmkCheckCodeWord256
  obtain ⟨parity, code⟩ := codeBits word
  change code.toNat ||| parity.toNat <<< 8 = 0 ↔ _
  rw [Nat.or_eq_zero_iff, Prod.mk.injEq]
  cases parity
  · simp [← BitVec.toNat_inj]
  · simp

theorem cbitChecks (word : BitVec 64) (l : List Nat) (inside : ∀ k ∈ l, k < 64) :
    cbit word l = check (placed l) word.getLsbD 64 := by
  rw [cbit, foldPlaces l inside, Bool.false_xor]

theorem placedAll {i n : Nat} (inside : i < n) : placed (List.range n) i = true := by
  rw [placedOnce List.nodup_range, decide_eq_true (List.mem_range.mpr inside)]

theorem cbitIs (word : BitVec 64) (l : List Nat) (mask : Nat → Bool) (inside : ∀ k ∈ l, k < 64)
    (same : ∀ i, i < 64 → placed l i = mask i) : cbit word l = check mask word.getLsbD 64 := by
  rw [cbitChecks word l inside]
  exact checkCongr fun i small => by rw [same i small]

theorem shiftedZero : ∀ a b c d e f g : Bool, shifted a 0 ^^^ shifted b 1 ^^^ shifted c 2 ^^^ shifted d 3 ^^^ shifted e 4 ^^^
    shifted f 5 ^^^ shifted g 6 = 0 ↔ (a = false ∧ b = false ∧ c = false ∧ d = false ∧ e = false ∧ f = false ∧ g = false) := by
  intro a b c d e f g
  revert a b c
  cases d <;> cases e <;> cases f <;> cases g <;> decide

theorem highNone (word : BitVec 64) {b : Nat} (large : 6 ≤ b) :
    check (fun i => (indexB i).getLsbD b) word.getLsbD 64 = false := by
  refine checkNone fun i _ => ?_
  have none : (0x3f : BitVec 8).getLsbD b = false := by
    rcases Nat.lt_or_ge b 8 with small | wide
    · have cases : b = 6 ∨ b = 7 := by omega
      rcases cases with rfl | rfl <;> rfl
    · exact BitVec.getLsbD_of_ge _ _ wide
  rw [indexB, BitVec.getLsbD_and, none, Bool.and_false, Bool.false_and]

theorem drvrChecks (word : BitVec 64) : drvrBCheckCodeWord64 word = 0 ↔ codeBitsB word = (false, 0) := by
  have parity := cbitIs word (List.range 64) (fun _ => true) (by decide) fun _ => placedAll
  have bit1 := cbitIs word (blocks 0 2 1) (fun i => (indexB i).getLsbD 0) (by decide +kernel) (by decide +kernel)
  have bit2 := cbitIs word (blocks 1 4 2) (fun i => (indexB i).getLsbD 1) (by decide +kernel) (by decide +kernel)
  have bit3 := cbitIs word (blocks 3 8 4) (fun i => (indexB i).getLsbD 2) (by decide +kernel) (by decide +kernel)
  have bit4 := cbitIs word (blocks 7 16 8) (fun i => (indexB i).getLsbD 3) (by decide +kernel) (by decide +kernel)
  have bit5 := cbitIs word (blocks 15 32 16) (fun i => (indexB i).getLsbD 4) (by decide +kernel) (by decide +kernel)
  have bit6 := cbitIs word (blocks 31 64 32) (fun i => (indexB i).getLsbD 5) (by decide +kernel) (by decide +kernel)
  rw [drvrBCheckCodeWord64, shiftedZero, parity, bit1, bit2, bit3, bit4, bit5, bit6, codeBitsBAre, Prod.mk.injEq, syndromeZero]
  refine and_congr_right fun _ => ⟨fun ⟨zero, one, two, three, four, five⟩ b inside => ?_, fun all => ?_⟩
  · rcases Nat.lt_or_ge b 6 with low | large
    · have cases : b = 0 ∨ b = 1 ∨ b = 2 ∨ b = 3 ∨ b = 4 ∨ b = 5 := by omega
      rcases cases with rfl | rfl | rfl | rfl | rfl | rfl
      · exact zero
      · exact one
      · exact two
      · exact three
      · exact four
      · exact five
    · exact highNone word large
  · exact ⟨all 0 (by decide), all 1 (by decide), all 2 (by decide), all 3 (by decide), all 4 (by decide), all 5 (by decide)⟩

end Checked

section Made

def Touches {n : Nat} (may : Nat → Prop) (word word' : BitVec n) : Prop :=
  ∃ i j k, may i ∧ may j ∧ may k ∧ ∀ b, b ≠ i → b ≠ j → b ≠ k → word'.getLsbD b = word.getLsbD b

theorem touchesOne {n : Nat} {may : Nat → Prop} {word word' : BitVec n} (touches : Touches may word word') {b : Nat}
    (out : ¬ may b) : word'.getLsbD b = word.getLsbD b := by
  obtain ⟨i, j, k, mayI, mayJ, mayK, same⟩ := touches
  exact same b (fun here => out (here ▸ mayI)) (fun here => out (here ▸ mayJ)) (fun here => out (here ▸ mayK))

structure Makes {n w : Nat} (bits : BitVec n → Bool × BitVec w) (may : Nat → Prop) (word made : BitVec n) : Prop where
  valid : bits made = (false, 0)
  touches : Touches may word made
  same : bits word = (false, 0) → made = word

variable {n w : Nat} {bits : BitVec n → Bool × BitVec w} {may : Nat → Prop} {word almost : BitVec n}

theorem makesLast (i j z : Nat) (parity : Bool) (inside : z < n)
    (flips : bits (flipBit almost z) = (!(bits almost).1, (bits almost).2)) (syndrome : bits almost = (parity, 0))
    (mayI : may i) (mayJ : may j) (mayZ : may z) (others : ∀ b, b ≠ i → b ≠ j → almost.getLsbD b = word.getLsbD b)
    (same : bits word = (false, 0) → parity = true ∧ almost = flipBit word z) :
    Makes bits may word (if parity then flipBit almost z else almost) := by
  cases parity with
  | false =>
    rw [if_neg (by decide)]
    refine ⟨syndrome, ⟨i, j, z, mayI, mayJ, mayZ, fun b notI notJ _ => others b notI notJ⟩, fun valid => ?_⟩
    exact absurd (same valid).1 (by decide)
  | true =>
    rw [if_pos rfl]
    refine ⟨?_, ⟨i, j, z, mayI, mayJ, mayZ, fun b notI notJ notZ => ?_⟩, fun valid => ?_⟩
    · rw [flips, syndrome]
      rfl
    · rw [flipBitOther almost inside notZ]
      exact others b notI notJ
    · rw [(same valid).2]
      exact flipBitTwice word z

theorem codeBitsZero (word : BitVec 256) : codeBits (flipBit word 0) = (!(codeBits word).1, (codeBits word).2) := by
  rw [codeBitsFlip word (by decide)]
  simp

theorem otpmkNear (word : BitVec 256) : codeBits (flipBit word (codeBits word).2.toNat) = (!(codeBits word).1, 0) := by
  have place := (codeBits word).2.isLt
  rw [codeBitsFlip _ place, BitVec.ofNat_toNat, BitVec.setWidth_eq, BitVec.xor_self]
  rfl

theorem otpmkFar (word : BitVec 256) {far : Nat} (place : (codeBits word).2.toNat - far < 256) (second : far < 256)
    (both : BitVec.ofNat 8 ((codeBits word).2.toNat - far) ^^^ BitVec.ofNat 8 far = (codeBits word).2) :
    codeBits (flipBit (flipBit word ((codeBits word).2.toNat - far)) far) = ((codeBits word).1, 0) := by
  rw [codeBitsFlip _ second, codeBitsFlip _ place, BitVec.xor_assoc, both, BitVec.xor_self, Bool.not_not]
  rfl

theorem flipsTwo (word : BitVec n) {i j : Nat} (insideI : i < n) (insideJ : j < n) (b : Nat) (notI : b ≠ i) (notJ : b ≠ j) :
    (flipBit (flipBit word i) j).getLsbD b = word.getLsbD b := by
  rw [flipBitOther _ insideJ notJ, flipBitOther _ insideI notI]

theorem otpmkCases (word : BitVec 256) (limit far : Nat) (farMay : may far) (zeroMay : may 0) (farInside : far < 256)
    (positive : 0 < limit) (nearMay : ∀ c, c < limit → may c) (restMay : ∀ c, limit ≤ c → c < 256 → may (c - far))
    (both : ∀ c : BitVec 8, limit ≤ c.toNat → BitVec.ofNat 8 (c.toNat - far) ^^^ BitVec.ofNat 8 far = c) :
    Makes codeBits may word (if (codeBits word).2.toNat < limit then
      (if !(codeBits word).1 then flipBit (flipBit word (codeBits word).2.toNat) 0 else flipBit word (codeBits word).2.toNat)
      else (if (codeBits word).1 then flipBit (flipBit (flipBit word ((codeBits word).2.toNat - far)) far) 0
        else flipBit (flipBit word ((codeBits word).2.toNat - far)) far)) := by
  have place := (codeBits word).2.isLt
  by_cases low : (codeBits word).2.toNat < limit
  · rw [if_pos low]
    refine makesLast (codeBits word).2.toNat 0 0 _ (Nat.succ_pos 255) (codeBitsZero _) (otpmkNear word) (nearMay _ low) zeroMay
      zeroMay (fun b other _ => flipBitOther word place other) fun valid => ?_
    have none : (codeBits word).2.toNat = 0 := congrArg (fun both => both.2.toNat) valid
    have even : (codeBits word).1 = false := congrArg Prod.fst valid
    rw [none, even]
    exact ⟨rfl, rfl⟩
  · rw [if_neg low]
    have rest : (codeBits word).2.toNat - far < 256 := by omega
    refine makesLast ((codeBits word).2.toNat - far) far 0 _ (Nat.succ_pos 255) (codeBitsZero _)
      (otpmkFar word rest farInside (both _ (by omega))) (restMay _ (by omega) place) farMay zeroMay (flipsTwo word rest farInside)
      fun valid => ?_
    have none : (codeBits word).2.toNat = 0 := congrArg (fun both => both.2.toNat) valid
    omega

theorem otpmkMakes (word : BitVec 256) : Makes codeBits (· ≤ 128) word (otpmkMakeCodeWord256 word) := by
  have unfolded := @otpmkCases (· ≤ 128) word 128 128 (Nat.le_refl _) (Nat.zero_le _) (by decide) (by decide)
    (fun c small => Nat.le_of_lt small) (fun c _ inside => by omega) (by decide)
  unfold otpmkMakeCodeWord256
  rcases parts : codeBits word with ⟨p, c⟩
  rw [parts] at unfolded
  dsimp only at unfolded ⊢
  by_cases low : c.toNat < 128
  · rw [if_pos low] at unfolded ⊢
    exact unfolded
  · rw [if_neg low] at unfolded ⊢
    exact unfolded

def forced (otpmk : BitVec 256) (minimalFlag : Bool) : BitVec 256 := if minimalFlag then otpmk ||| (15#256 <<< 252) else otpmk

theorem sfpFlip : Fuse.flipBit = flipBit := rfl

theorem sfpMakes (word : BitVec 256) (minimalFlag : Bool) :
    Makes codeBits (· < 252) (forced word minimalFlag) (Fuse.otpmkMakeCodeWord256 word minimalFlag) := by
  have unfolded := @otpmkCases (· < 252) (forced word minimalFlag) 252 4 (by decide) (by decide) (by decide) (by decide)
    (fun c small => small) (fun c _ inside => by omega) (by decide)
  have made : Fuse.otpmkMakeCodeWord256 word minimalFlag = match codeBits (forced word minimalFlag) with
    | (parityBit, codeBit) => match
        if codeBit.toNat < 252 then (flipBit (forced word minimalFlag) codeBit.toNat, !parityBit)
        else (flipBit (flipBit (forced word minimalFlag) (codeBit.toNat - 4)) 4, parityBit) with
      | (otpmk, parityBit) => if parityBit then flipBit otpmk 0 else otpmk := by
    unfold Fuse.otpmkMakeCodeWord256 forced
    rw [sfpFlip]
  rw [made]
  rcases parts : codeBits (forced word minimalFlag) with ⟨p, c⟩
  rw [parts] at unfolded
  dsimp only at unfolded ⊢
  by_cases low : c.toNat < 252
  · rw [if_pos low] at unfolded ⊢
    exact unfolded
  · rw [if_neg low] at unfolded ⊢
    exact unfolded

theorem forcedBits (word : BitVec 256) {b : Nat} (high : 252 ≤ b) (inside : b < 256) : (forced word true).getLsbD b = true := by
  have four : (15#256 <<< 252).getLsbD b = true := by
    have cases : b = 252 ∨ b = 253 ∨ b = 254 ∨ b = 255 := by omega
    rcases cases with rfl | rfl | rfl | rfl <;> decide
  rw [forced, if_pos rfl, BitVec.getLsbD_or, four, Bool.or_true]

theorem codeBitsBSmall (word : BitVec 64) : (codeBitsB word).2.toNat < 64 := by
  have masked : (codeBitsB word).2 &&& 0x3f = (codeBitsB word).2 := by
    apply BitVec.eq_of_getLsbD_eq
    intro b inside
    rw [codeBitsBAre, BitVec.getLsbD_and, syndromeBit]
    rcases Nat.lt_or_ge b 6 with low | large
    · have set : (0x3f : BitVec 8).getLsbD b = true := by
        have every : ∀ b, b < 6 → (0x3f : BitVec 8).getLsbD b = true := by decide
        exact every b low
      rw [set, Bool.and_true]
    · rw [highNone word large, Bool.false_and]
  have number := congrArg BitVec.toNat masked
  rw [BitVec.toNat_and] at number
  have most : (codeBitsB word).2.toNat &&& (0x3f : BitVec 8).toNat ≤ 63 := Nat.and_le_right
  omega

theorem codeBitsBParity (word : BitVec 64) : codeBitsB (flipBit word 63) = (!(codeBitsB word).1, (codeBitsB word).2) := by
  have none : indexB 63 = 0#8 := rfl
  rw [codeBitsBFlip word (by decide), none, BitVec.xor_zero]

theorem drvrMakes (word : BitVec 64) : Makes codeBitsB (fun b => b < 32 ∨ b = 63) word (drvrBMakeCodeWord64 word) := by
  have small := codeBitsBSmall word
  have valid (isValid : codeBitsB word = (false, 0)) : (codeBitsB word).1 = false ∧ (codeBitsB word).2 = 0 :=
    ⟨congrArg Prod.fst isValid, congrArg Prod.snd isValid⟩
  have places : ∀ c : BitVec 8, c.toNat < 64 →
      (c.toNat < 32 → ((c - 1 &&& 0x3f).toNat < 32 ∨ (c - 1 &&& 0x3f).toNat = 63) ∧ indexB (c - 1 &&& 0x3f).toNat = c) ∧
      (32 ≤ c.toNat → (((c - 1 &&& 0x3f) ^^^ 32).toNat < 32 ∨ ((c - 1 &&& 0x3f) ^^^ 32).toNat = 63) ∧
        indexB ((c - 1 &&& 0x3f) ^^^ 32).toNat ^^^ indexB 31 = c) := by
    decide
  obtain ⟨near, far⟩ := places _ small
  unfold drvrBMakeCodeWord64
  rcases parts : codeBitsB word with ⟨p, c⟩
  rw [parts] at near far valid
  dsimp only at near far valid ⊢
  by_cases low : c.toNat < 32
  · obtain ⟨may, index⟩ := near low
    rw [if_pos low]
    dsimp only
    have inside : (c - 1 &&& 0x3f).toNat < 64 := by omega
    refine makesLast (c - 1 &&& 0x3f).toNat 63 63 _ (by decide) (codeBitsBParity _) ?_ may (.inr rfl) (.inr rfl)
      (fun b other _ => flipBitOther word inside other) fun isValid => ?_
    · rw [codeBitsBFlip word inside, parts, index, BitVec.xor_self]
      rfl
    · obtain ⟨rfl, rfl⟩ := valid (parts.symm.trans isValid)
      exact ⟨rfl, rfl⟩
  · obtain ⟨may, index⟩ := far (by omega)
    rw [if_neg low]
    dsimp only
    have inside : ((c - 1 &&& 0x3f) ^^^ 32).toNat < 64 := by omega
    refine makesLast ((c - 1 &&& 0x3f) ^^^ 32).toNat 31 63 _ (by decide) (codeBitsBParity _) ?_ may (.inl (by decide)) (.inr rfl)
      (flipsTwo word inside (by decide)) fun isValid => ?_
    · rw [codeBitsBFlip _ (by decide), codeBitsBFlip word inside, parts, BitVec.xor_assoc, index, BitVec.xor_self, Bool.not_not]
      rfl
    · obtain ⟨_, rfl⟩ := valid (parts.symm.trans isValid)
      exact absurd (by decide) low

end Made

section Generated

def setBit (number : BitVec 64) (i : Nat) (b : Bool) : BitVec 64 := if number.getLsbD i = b then number else flipBit number i

def codeBitB (number : BitVec 64) (i : Nat) : BitVec 64 :=
  ((List.range' (i + 1) (63 - i)).foldl (fun (acc : BitVec 64 × Bool) j =>
    let parity := if (i + 1) &&& (j + 1) ≠ 0 then acc.2 ^^ acc.1.getLsbD j else acc.2
    (setBit acc.1 i parity, parity)) (number, number.getLsbD i)).1

def parityOf (number : BitVec 64) : Bool := (List.range 64).foldl (fun parity j => parity ^^ number.getLsbD j) false

def generateCodeBitsHammingB (number : BitVec 64) : BitVec 64 :=
  let number := [0, 1, 3, 7, 15, 31, 63].foldl (fun number i => setBit number i false) number
  let number := [0, 1, 3, 7, 15, 31].foldl codeBitB number
  setBit number 63 (number.getLsbD 63 || parityOf number)

def codeBitA (number : BitVec 64) (i : Nat) : BitVec 64 :=
  (List.range' i (64 - i)).foldl (fun number j =>
    if i &&& j ≠ 0 then setBit number i (number.getLsbD i ^^ number.getLsbD j) else number) number

def generateCodeBitsHammingA (number : BitVec 64) : BitVec 64 :=
  let number := [1, 2, 4, 8, 16, 32].foldl codeBitA number
  (List.range 64).foldl (fun number j => setBit number 0 (number.getLsbD 0 ^^ number.getLsbD j)) number

variable {i : Nat}

theorem setBitGet (number : BitVec 64) (inside : i < 64) (b : Bool) (k : Nat) :
    (setBit number i b).getLsbD k = if k = i then b else number.getLsbD k := by
  unfold setBit
  split
  · next same =>
    split
    · next here => rw [here, same]
    · rfl
  · next differs =>
    rw [flipBitGet number inside, flipped]
    split
    · next here =>
      rw [here]
      revert differs
      cases number.getLsbD i <;> cases b <;> simp
    · rfl

theorem setBitOther (number : BitVec 64) {i k : Nat} (inside : i < 64) (b : Bool) (other : k ≠ i) :
    (setBit number i b).getLsbD k = number.getLsbD k := by
  rw [setBitGet number inside, if_neg other]

structure Settles (full : Nat → Nat → Bool) (i : Nat) (word word' : BitVec 64) : Prop where
  even : check (full i) word'.getLsbD 64 = false
  others : ∀ k, k ≠ i → word'.getLsbD k = word.getLsbD k

theorem settles {full : Nat → Nat → Bool} {word word' : BitVec 64} (inside : i < 64) (own : full i i = true)
    (others : ∀ k, k ≠ i → word'.getLsbD k = word.getLsbD k)
    (bit : word'.getLsbD i = check (fun j => decide (j ≠ i) && full i j) word.getLsbD 64) : Settles full i word word' := by
  refine ⟨?_, others⟩
  have parts : check (full i) word'.getLsbD 64 =
      check (fun j => decide (j = i) ^^ (decide (j ≠ i) && full i j)) word'.getLsbD 64 := by
    refine checkCongr fun j _ => ?_
    by_cases here : j = i
    · subst here
      simp [own]
    · simp [here]
  have same : check (fun j => decide (j ≠ i) && full i j) word'.getLsbD 64 =
      check (fun j => decide (j ≠ i) && full i j) word.getLsbD 64 := by
    refine checkCongr fun j _ => ?_
    by_cases here : j = i
    · simp [here]
    · rw [others j here]
  rw [parts, checkMasks, checkPlace inside, same, bit, Bool.xor_self]

theorem steps {full : Nat → Nat → Bool} {step : BitVec 64 → Nat → BitVec 64} {ready : Bool → Prop} (code : List Nat)
    (apart : ∀ i ∈ code, ∀ k ∈ code, i ≠ k → full i k = false)
    (each : ∀ word, ∀ i ∈ code, ready (word.getLsbD i) → Settles full i word (step word i)) : ∀ todo : List Nat,
    todo.Nodup → (∀ i ∈ todo, i ∈ code) → ∀ word : BitVec 64, (∀ i ∈ todo, ready (word.getLsbD i)) →
      (∀ i ∈ todo, check (full i) (todo.foldl step word).getLsbD 64 = false) ∧
      (∀ i ∈ code, i ∉ todo → check (full i) (todo.foldl step word).getLsbD 64 = check (full i) word.getLsbD 64) ∧
      ∀ k, k ∉ todo → (todo.foldl step word).getLsbD k = word.getLsbD k := by
  intro todo
  induction todo with
  | nil => exact fun _ _ word _ => ⟨fun i member => (by cases member), fun _ _ _ => rfl, fun _ _ => rfl⟩
  | cons i rest ih =>
    intro distinct subset word start
    obtain ⟨fresh, distinct⟩ := List.nodup_cons.mp distinct
    have member := subset i List.mem_cons_self
    obtain ⟨even, others⟩ := each word i member (start i List.mem_cons_self)
    have notI {k : Nat} (inRest : k ∈ rest) : k ≠ i := fun equal => fresh (equal ▸ inRest)
    obtain ⟨settled, kept, bits⟩ := ih distinct (fun k inRest => subset k (List.mem_cons_of_mem i inRest)) (step word i)
      fun k inRest => by
        rw [others k (notI inRest)]
        exact start k (List.mem_cons_of_mem i inRest)
    rw [List.foldl_cons]
    refine ⟨fun k inAll => ?_, fun k inCode notAll => ?_, fun k notAll => ?_⟩
    · rcases List.mem_cons.mp inAll with rfl | inRest
      · rw [kept k member fresh, even]
      · exact settled k inRest
    · obtain ⟨other, notRest⟩ := not_or.mp fun either => notAll (List.mem_cons.mpr either)
      rw [kept k inCode notRest]
      refine checkCongr fun j _ => ?_
      by_cases here : j = i
      · rw [here, apart k inCode i member other, Bool.false_and, Bool.false_and]
      · rw [others j here]
    · obtain ⟨other, notRest⟩ := not_or.mp fun either => notAll (List.mem_cons.mpr either)
      rw [bits k notRest, others k other]

def fullB (i j : Nat) : Bool := decide ((i + 1) &&& ((j + 1) % 64) ≠ 0)
def fullA (i j : Nat) : Bool := decide (i &&& j ≠ 0)

theorem innerB (number : BitVec 64) (inside : i < 64) : ∀ (l : List Nat) (word : BitVec 64) (parity : Bool),
    (∀ j ∈ l, i < j) → (∀ k, k ≠ i → word.getLsbD k = number.getLsbD k) →
      let last := l.foldl (fun (acc : BitVec 64 × Bool) j =>
        let parity := if (i + 1) &&& (j + 1) ≠ 0 then acc.2 ^^ acc.1.getLsbD j else acc.2
        (setBit acc.1 i parity, parity)) (word, parity)
      last.2 = (l.filter fun j => (i + 1) &&& (j + 1) ≠ 0).foldl (fun p j => p ^^ number.getLsbD j) parity ∧
      (∀ k, k ≠ i → last.1.getLsbD k = number.getLsbD k) ∧ (l ≠ [] → last.1.getLsbD i = last.2) := by
  intro l
  induction l with
  | nil => exact fun word parity _ same => ⟨rfl, same, fun some => absurd rfl some⟩
  | cons j l ih =>
    intro word parity behind same
    have here : word.getLsbD j = number.getLsbD j := same j (Nat.ne_of_gt (behind j List.mem_cons_self))
    rw [List.foldl_cons]
    dsimp only
    obtain ⟨second, others, stored⟩ := ih
      (setBit word i (if (i + 1) &&& (j + 1) ≠ 0 then parity ^^ word.getLsbD j else parity))
      (if (i + 1) &&& (j + 1) ≠ 0 then parity ^^ word.getLsbD j else parity)
      (fun k member => behind k (List.mem_cons_of_mem j member)) fun k other => by
        rw [setBitOther word inside _ other, same k other]
    refine ⟨?_, others, fun _ => ?_⟩
    · rw [second, here]
      by_cases covered : (i + 1) &&& (j + 1) ≠ 0
      · rw [if_pos covered, List.filter_cons_of_pos (by simpa using covered), List.foldl_cons]
      · rw [if_neg covered, List.filter_cons_of_neg (by simpa using covered)]
    · rcases l with _ | ⟨k, l⟩
      · rw [List.foldl_nil, setBitGet word inside, if_pos rfl]
      · exact stored (List.cons_ne_nil k l)

theorem placedBehind (cover : Nat → Prop) [DecidablePred cover] (i j : Nat) :
    placed ((List.range' (i + 1) (63 - i)).filter fun j => cover j) j = decide ((i < j ∧ j < 64) ∧ cover j) := by
  rw [placedOnce (List.Nodup.filter _ (List.nodup_range')), decide_eq_decide, List.mem_filter, List.mem_range'_1,
    decide_eq_true_iff]
  have between : i + 1 ≤ j ∧ j < i + 1 + (63 - i) ↔ i < j ∧ j < 64 := by omega
  rw [between]

theorem behindSmall (cover : Nat → Bool) {i k : Nat} (member : k ∈ (List.range' (i + 1) (63 - i)).filter cover) : k < 64 := by
  have := List.mem_range'_1.mp (List.mem_filter.mp member).1
  omega

theorem codeBitBSettles (word : BitVec 64) (i : Nat) (member : i ∈ [0, 1, 3, 7, 15, 31]) (clear : word.getLsbD i = false) :
    Settles fullB i word (codeBitB word i) := by
  obtain ⟨inside, own, some, same⟩ : i < 64 ∧ fullB i i = true ∧ List.range' (i + 1) (63 - i) ≠ [] ∧
      ∀ j, j < 64 → decide ((i < j ∧ j < 64) ∧ (i + 1) &&& (j + 1) ≠ 0) = (decide (j ≠ i) && fullB i j) := by
    have every : ∀ i ∈ [0, 1, 3, 7, 15, 31], i < 64 ∧ fullB i i = true ∧ List.range' (i + 1) (63 - i) ≠ [] ∧
        ∀ j, j < 64 → decide ((i < j ∧ j < 64) ∧ (i + 1) &&& (j + 1) ≠ 0) = (decide (j ≠ i) && fullB i j) := by
      decide
    exact every i member
  obtain ⟨second, others, stored⟩ := innerB word inside (List.range' (i + 1) (63 - i)) word (word.getLsbD i)
    (fun j inRange => by
      have := List.mem_range'_1.mp inRange
      omega) fun _ _ => rfl
  refine settles inside own others ?_
  rw [codeBitB, stored some, second, clear, foldPlaces _ (fun _ => behindSmall _), Bool.false_xor]
  exact checkCongr fun j small => by rw [placedBehind, same j small]

theorem innerA (number : BitVec 64) (inside : i < 64) (cover : Nat → Prop) [DecidablePred cover] : ∀ (l : List Nat)
    (word : BitVec 64), (∀ j ∈ l, i < j) → (∀ k, k ≠ i → word.getLsbD k = number.getLsbD k) →
      let last := l.foldl (fun word j => if cover j then setBit word i (word.getLsbD i ^^ word.getLsbD j) else word) word
      last.getLsbD i = (l.filter fun j => cover j).foldl (fun p j => p ^^ number.getLsbD j) (word.getLsbD i) ∧
      ∀ k, k ≠ i → last.getLsbD k = number.getLsbD k := by
  intro l
  induction l with
  | nil => exact fun word _ same => ⟨rfl, same⟩
  | cons j l ih =>
    intro word behind same
    have here : word.getLsbD j = number.getLsbD j := same j (Nat.ne_of_gt (behind j List.mem_cons_self))
    rw [List.foldl_cons]
    by_cases covered : cover j
    · rw [if_pos covered, List.filter_cons_of_pos (by simpa using covered), List.foldl_cons]
      obtain ⟨second, others⟩ := ih (setBit word i (word.getLsbD i ^^ word.getLsbD j))
        (fun k member => behind k (List.mem_cons_of_mem j member)) fun k other => by
          rw [setBitOther word inside _ other, same k other]
      rw [setBitGet word inside, if_pos rfl] at second
      rw [← here]
      exact ⟨second, others⟩
    · rw [if_neg covered, List.filter_cons_of_neg (by simpa using covered)]
      exact ih word (fun k member => behind k (List.mem_cons_of_mem j member)) same

theorem selfClear (word : BitVec 64) (inside : i < 64) :
    (setBit word i (word.getLsbD i ^^ word.getLsbD i)).getLsbD i = false := by
  rw [setBitGet word inside, if_pos rfl, Bool.xor_self]

theorem codeBitASettles (word : BitVec 64) (i : Nat) (member : i ∈ [1, 2, 4, 8, 16, 32]) :
    Settles fullA i word (codeBitA word i) := by
  obtain ⟨inside, own, some, same⟩ : i < 64 ∧ fullA i i = true ∧ List.range' i (64 - i) = i :: List.range' (i + 1) (63 - i) ∧
      ∀ j, j < 64 → decide ((i < j ∧ j < 64) ∧ i &&& j ≠ 0) = (decide (j ≠ i) && fullA i j) := by
    have every : ∀ i ∈ [1, 2, 4, 8, 16, 32], i < 64 ∧ fullA i i = true ∧
        List.range' i (64 - i) = i :: List.range' (i + 1) (63 - i) ∧
        ∀ j, j < 64 → decide ((i < j ∧ j < 64) ∧ i &&& j ≠ 0) = (decide (j ≠ i) && fullA i j) := by
      decide
    exact every i member
  have itself : i &&& i ≠ 0 := by simpa [fullA] using own
  obtain ⟨second, others⟩ := innerA word inside (fun j => i &&& j ≠ 0) (List.range' (i + 1) (63 - i))
    (setBit word i (word.getLsbD i ^^ word.getLsbD i)) (fun j inRange => by
      have := List.mem_range'_1.mp inRange
      omega) fun k other => setBitOther word inside _ other
  have unfolded : codeBitA word i = (List.range' (i + 1) (63 - i)).foldl
      (fun word j => if i &&& j ≠ 0 then setBit word i (word.getLsbD i ^^ word.getLsbD j) else word)
      (setBit word i (word.getLsbD i ^^ word.getLsbD i)) := by
    rw [codeBitA, some, List.foldl_cons, if_pos itself]
  rw [unfolded]
  refine settles inside own others ?_
  rw [second, selfClear word inside, foldPlaces _ (fun _ => behindSmall _), Bool.false_xor]
  exact checkCongr fun j inRange => by rw [placedBehind, same j inRange]

def fullParity (_ _ : Nat) : Bool := true

theorem paritySettlesB (word : BitVec 64) (clear : word.getLsbD 63 = false) :
    Settles fullParity 63 word (setBit word 63 (word.getLsbD 63 || parityOf word)) := by
  refine settles (by decide) rfl (fun k other => setBitOther word (by decide) _ other) ?_
  have small : ∀ k ∈ List.range 64, k < 64 := by decide
  rw [setBitGet word (by decide), if_pos rfl, clear, Bool.false_or, parityOf, foldPlaces _ small, Bool.false_xor]
  refine checkCongr fun j inside => ?_
  rw [placedAll inside]
  by_cases top : j = 63
  · rw [top, clear, Bool.and_false, Bool.and_false]
  · simp [top, fullParity]

theorem paritySettlesA (word : BitVec 64) : Settles fullParity 0 word
    ((List.range 64).foldl (fun number j => setBit number 0 (number.getLsbD 0 ^^ number.getLsbD j)) word) := by
  obtain ⟨second, others⟩ := innerA word (i := 0) (by decide) (fun _ => True) (List.range' 1 63)
    (setBit word 0 (word.getLsbD 0 ^^ word.getLsbD 0)) (by decide) fun k other => setBitOther word (by decide) _ other
  simp only [if_true] at second others
  have unfolded : List.range 64 = 0 :: List.range' 1 63 := by decide
  have same : ∀ j, j < 64 → decide ((0 < j ∧ j < 64) ∧ True) = (decide (j ≠ 0) && fullParity 0 j) := by decide
  rw [unfolded, List.foldl_cons]
  refine settles (by decide) rfl others ?_
  rw [second, selfClear word (by decide), foldPlaces _ (fun _ => behindSmall (i := 0) _), Bool.false_xor]
  exact checkCongr fun j inside => by rw [placedBehind _ 0, same j inside]

theorem clearedB (number : BitVec 64) (k : Nat) :
    ([0, 1, 3, 7, 15, 31, 63].foldl (fun number i => setBit number i false) number).getLsbD k =
      if k ∈ [0, 1, 3, 7, 15, 31, 63] then false else number.getLsbD k := by
  simp only [List.foldl_cons, List.foldl_nil, setBitGet _ (show 63 < 64 by decide), setBitGet _ (show 31 < 64 by decide),
    setBitGet _ (show 15 < 64 by decide), setBitGet _ (show 7 < 64 by decide), setBitGet _ (show 3 < 64 by decide),
    setBitGet _ (show 1 < 64 by decide), setBitGet _ (show 0 < 64 by decide), List.mem_cons, List.not_mem_nil, or_false]
  split_ifs <;> first | rfl | (exfalso; omega)

theorem checkKept {mask : Nat → Bool} {word word' : BitVec 64} (none : mask i = false)
    (others : ∀ k, k ≠ i → word'.getLsbD k = word.getLsbD k) : check mask word'.getLsbD 64 = check mask word.getLsbD 64 := by
  refine checkCongr fun j _ => ?_
  by_cases here : j = i
  · rw [here, none, Bool.false_and, Bool.false_and]
  · rw [others j here]

theorem generatedB (number : BitVec 64) : drvrBCheckCodeWord64 (generateCodeBitsHammingB number) = 0 ∧
    ∀ k, k ∉ [0, 1, 3, 7, 15, 31, 63] → (generateCodeBitsHammingB number).getLsbD k = number.getLsbD k := by
  have clear (k : Nat) (member : k ∈ [0, 1, 3, 7, 15, 31, 63]) := (clearedB number k).trans (if_pos member)
  have kept (k : Nat) (out : k ∉ [0, 1, 3, 7, 15, 31, 63]) := (clearedB number k).trans (if_neg out)
  have widen (k : Nat) (member : k ∈ [0, 1, 3, 7, 15, 31]) : k ∈ [0, 1, 3, 7, 15, 31, 63] := by
    have every : ∀ k ∈ [0, 1, 3, 7, 15, 31], k ∈ [0, 1, 3, 7, 15, 31, 63] := by decide
    exact every k member
  unfold generateCodeBitsHammingB
  dsimp only
  generalize [0, 1, 3, 7, 15, 31, 63].foldl (fun number i => setBit number i false) number = cleared at clear kept
  obtain ⟨even, _, others⟩ := @steps fullB codeBitB (· = false) [0, 1, 3, 7, 15, 31] (by decide) codeBitBSettles [0, 1, 3, 7, 15, 31]
    (by decide) (fun _ member => member) cleared fun i member => clear i (widen i member)
  generalize [0, 1, 3, 7, 15, 31].foldl codeBitB cleared = coded at even others
  obtain ⟨parity, last⟩ := paritySettlesB coded ((others 63 (by decide)).trans (clear 63 (by decide)))
  generalize setBit coded 63 (coded.getLsbD 63 || parityOf coded) = final at parity last
  refine ⟨?_, fun k out => ?_⟩
  · rw [drvrChecks, codeBitsBAre, Prod.mk.injEq, syndromeZero]
    refine ⟨parity, fun b inside => ?_⟩
    rcases Nat.lt_or_ge b 6 with low | large
    · obtain ⟨member, top, same⟩ : 2 ^ b - 1 ∈ [0, 1, 3, 7, 15, 31] ∧ fullB (2 ^ b - 1) 63 = false ∧
          ∀ j, j < 64 → (indexB j).getLsbD b = fullB (2 ^ b - 1) j := by
        have every : ∀ b, b < 6 → 2 ^ b - 1 ∈ [0, 1, 3, 7, 15, 31] ∧ fullB (2 ^ b - 1) 63 = false ∧
            ∀ j, j < 64 → (indexB j).getLsbD b = fullB (2 ^ b - 1) j := by decide
        exact every b low
      have covers : check (fun j => (indexB j).getLsbD b) final.getLsbD 64 = check (fullB (2 ^ b - 1)) final.getLsbD 64 :=
        checkCongr fun j inRange => by rw [same j inRange]
      rw [covers, checkKept top last, even _ member]
    · exact highNone final large
  · have notTop : k ≠ 63 := fun equal => out (by rw [equal]; decide)
    rw [last k notTop, others k (fun member => out (widen k member)), kept k out]

theorem generatedA (number : BitVec 64) : syndrome (BitVec.ofNat 6) (generateCodeBitsHammingA number).getLsbD 64 = 0 ∧
    check (fun _ => true) (generateCodeBitsHammingA number).getLsbD 64 = false ∧
    ∀ k, k ∉ [0, 1, 2, 4, 8, 16, 32] → (generateCodeBitsHammingA number).getLsbD k = number.getLsbD k := by
  unfold generateCodeBitsHammingA
  dsimp only
  obtain ⟨even, _, others⟩ := @steps fullA codeBitA (fun _ => True) [1, 2, 4, 8, 16, 32] (by decide)
    (fun word i member _ => codeBitASettles word i member) [1, 2, 4, 8, 16, 32] (by decide) (fun _ member => member) number
    fun _ _ => trivial
  generalize [1, 2, 4, 8, 16, 32].foldl codeBitA number = coded at even others
  obtain ⟨parity, last⟩ := paritySettlesA coded
  generalize (List.range 64).foldl (fun number j => setBit number 0 (number.getLsbD 0 ^^ number.getLsbD j)) coded = final
    at parity last
  refine ⟨?_, parity, fun k out => ?_⟩
  · rw [syndromeZero]
    intro b low
    obtain ⟨member, top, same⟩ : 2 ^ b ∈ [1, 2, 4, 8, 16, 32] ∧ fullA (2 ^ b) 0 = false ∧
        ∀ j, j < 64 → (BitVec.ofNat 6 j).getLsbD b = fullA (2 ^ b) j := by
      have every : ∀ b, b < 6 → 2 ^ b ∈ [1, 2, 4, 8, 16, 32] ∧ fullA (2 ^ b) 0 = false ∧
          ∀ j, j < 64 → (BitVec.ofNat 6 j).getLsbD b = fullA (2 ^ b) j := by decide
      exact every b low
    have covers : check (fun j => (BitVec.ofNat 6 j).getLsbD b) final.getLsbD 64 = check (fullA (2 ^ b)) final.getLsbD 64 :=
      checkCongr fun j inRange => by rw [same j inRange]
    rw [covers, checkKept top last, even _ member]
  · have notParity : k ≠ 0 := fun equal => out (by rw [equal]; decide)
    have notCode : k ∉ [1, 2, 4, 8, 16, 32] := fun member => out (List.mem_cons_of_mem 0 member)
    rw [last k notParity, others k notCode]

end Generated

structure CodeWordsValid (otpmk : BitVec 256) (minimalFlag : Bool) (drvr : BitVec 64) : Prop where
  otpmkChecked : otpmkCheckCodeWord256 (otpmkMakeCodeWord256 otpmk) = 0
  otpmkTouches : Touches (· ≤ 128) otpmk (otpmkMakeCodeWord256 otpmk)
  otpmkSame : otpmkCheckCodeWord256 otpmk = 0 → otpmkMakeCodeWord256 otpmk = otpmk
  sfpChecked : otpmkCheckCodeWord256 (Fuse.otpmkMakeCodeWord256 otpmk minimalFlag) = 0
  sfpForced : minimalFlag = true → ∀ b, 252 ≤ b → b < 256 → (Fuse.otpmkMakeCodeWord256 otpmk minimalFlag).getLsbD b = true
  drvrChecked : drvrBCheckCodeWord64 (drvrBMakeCodeWord64 drvr) = 0
  drvrKept : ∀ b, 32 ≤ b → b ≤ 62 → (drvrBMakeCodeWord64 drvr).getLsbD b = drvr.getLsbD b
  drvrSame : drvrBCheckCodeWord64 drvr = 0 → drvrBMakeCodeWord64 drvr = drvr
  hammingB : drvrBCheckCodeWord64 (generateCodeBitsHammingB drvr) = 0 ∧
    ∀ k, k ∉ [0, 1, 3, 7, 15, 31, 63] → (generateCodeBitsHammingB drvr).getLsbD k = drvr.getLsbD k
  hammingA : syndrome (BitVec.ofNat 6) (generateCodeBitsHammingA drvr).getLsbD 64 = 0 ∧
    check (fun _ => true) (generateCodeBitsHammingA drvr).getLsbD 64 = false ∧
    ∀ k, k ∉ [0, 1, 2, 4, 8, 16, 32] → (generateCodeBitsHammingA drvr).getLsbD k = drvr.getLsbD k

theorem codeWordsValid (otpmk : BitVec 256) (minimalFlag : Bool) (drvr : BitVec 64) :
    CodeWordsValid otpmk minimalFlag drvr := by
  obtain ⟨otpmkValid, otpmkTouches, otpmkSame⟩ := otpmkMakes otpmk
  obtain ⟨sfpValid, sfpTouches, _⟩ := sfpMakes otpmk minimalFlag
  obtain ⟨drvrValid, drvrTouches, drvrSame⟩ := drvrMakes drvr
  refine ⟨(otpmkChecks _).mpr otpmkValid, otpmkTouches, fun valid => otpmkSame ((otpmkChecks _).mp valid),
    (otpmkChecks _).mpr sfpValid, fun flag b high inside => ?_, (drvrChecks _).mpr drvrValid, fun b low high => ?_,
    fun valid => drvrSame ((drvrChecks _).mp valid), generatedB drvr, generatedA drvr⟩
  · subst flag
    rw [touchesOne sfpTouches (by omega)]
    exact forcedBits otpmk high inside
  · exact touchesOne drvrTouches (by omega)

end Flexbuild.CodeWords
