import Flexbuild.PbiCreation

/-! What the steps of the rewriting do: the words that the copy loop looks at, the CRC as the
remainder that `rcw.py` computes, and the images behind one another. -/
namespace Flexbuild.PbiCreation
open ByteMemory (Byte)
open Fields (fullBytes)
open PbiCopy (byteSwap32 fwriteWord)
open Remainders (feed zeros step)

variable {cfg : Config} {garbage : BitVec 32} {file : List Byte}

section Words

def wordsFrom : List Byte → List (BitVec 32)
  | b₀ :: b₁ :: b₂ :: b₃ :: rest => (b₀ ++ b₁ ++ b₂ ++ b₃) :: wordsFrom rest
  | _ => []

theorem fourBytes (w : BitVec 32) :
    w = w.extractLsb' 24 8 ++ w.extractLsb' 16 8 ++ w.extractLsb' 8 8 ++ w.extractLsb' 0 8 := by
  rw [BitVec.extractLsb'_append_extractLsb'_eq_extractLsb' (by rfl),
    BitVec.extractLsb'_append_extractLsb'_eq_extractLsb' (by rfl),
    BitVec.extractLsb'_append_extractLsb'_eq_extractLsb' (by rfl)]
  exact BitVec.extractLsb'_eq_self.symm

theorem swapped (w : BitVec 32) :
    byteSwap32 w = w.extractLsb' 0 8 ++ w.extractLsb' 8 8 ++ w.extractLsb' 16 8 ++ w.extractLsb' 24 8 := by
  obtain ⟨first, second, third, fourth⟩ := PbiCopy.swappedByte w
  have all := fourBytes (byteSwap32 w)
  rwa [first, second, third, fourth] at all

theorem wordBytes (b₀ b₁ b₂ b₃ : Byte) :
    (wordOf b₀ b₁ b₂ b₃).extractLsb' 0 8 = b₀ ∧ (wordOf b₀ b₁ b₂ b₃).extractLsb' 8 8 = b₁ ∧
      (wordOf b₀ b₁ b₂ b₃).extractLsb' 16 8 = b₂ ∧ (wordOf b₀ b₁ b₂ b₃).extractLsb' 24 8 = b₃ := by
  refine ⟨?_, ?_, ?_, ?_⟩ <;> apply BitVec.eq_of_getLsbD_eq <;> intro i inside <;>
    simp only [wordOf, BitVec.getLsbD_extractLsb', BitVec.getLsbD_append] <;> grind

theorem swappedWord (b₀ b₁ b₂ b₃ : Byte) : byteSwap32 (wordOf b₀ b₁ b₂ b₃) = b₀ ++ b₁ ++ b₂ ++ b₃ := by
  obtain ⟨first, second, third, fourth⟩ := wordBytes b₀ b₁ b₂ b₃
  rw [swapped, first, second, third, fourth]

theorem swapTwice (w : BitVec 32) : byteSwap32 (byteSwap32 w) = w := by
  obtain ⟨first, second, third, fourth⟩ := PbiCopy.swappedByte w
  rw [swapped (byteSwap32 w), first, second, third, fourth]
  exact (fourBytes w).symm

theorem fwriteBack (w : BitVec 32) : fwriteWord w = fullBytes (byteSwap32 w) := by
  rw [← PbiCopy.fwriteSwapped, swapTwice]

theorem fullSplit (b₀ b₁ b₂ b₃ : Byte) : fullBytes (b₀ ++ b₁ ++ b₂ ++ b₃) = [b₀, b₁, b₂, b₃] := by
  obtain ⟨first, second, third, fourth⟩ := wordBytes b₀ b₁ b₂ b₃
  rw [← swappedWord, ← fwriteBack, fwriteWord, first, second, third, fourth]

theorem fullLength (w : BitVec 32) : (fullBytes w).length = 4 := rfl

theorem fullsLength (ws : List (BitVec 32)) : (ws.flatMap fullBytes).length = 4 * ws.length := by
  induction ws with
  | nil => rfl
  | cons w rest later =>
    rw [List.flatMap_cons, List.length_append, later, fullLength, List.length_cons]
    omega

theorem fullHead (w : BitVec 32) (rest : List Byte) : ∃ b₀ b₁ b₂ b₃, fullBytes w ++ rest = b₀ :: b₁ :: b₂ :: b₃ :: rest ∧
    b₀ ++ b₁ ++ b₂ ++ b₃ = w :=
  ⟨w.extractLsb' 24 8, w.extractLsb' 16 8, w.extractLsb' 8 8, w.extractLsb' 0 8, by
    have all := fullSplit (w.extractLsb' 24 8) (w.extractLsb' 16 8) (w.extractLsb' 8 8) (w.extractLsb' 0 8)
    rw [← fourBytes w] at all
    rw [all]
    rfl, (fourBytes w).symm⟩

theorem wordsFulls (ws : List (BitVec 32)) (rest : List Byte) :
    wordsFrom (ws.flatMap fullBytes ++ rest) = ws ++ wordsFrom rest := by
  induction ws with
  | nil => rfl
  | cons w ws later =>
    obtain ⟨b₀, b₁, b₂, b₃, split, same⟩ := fullHead w (ws.flatMap fullBytes ++ rest)
    rw [List.flatMap_cons, List.append_assoc, split, wordsFrom, same, later, List.cons_append]

theorem copyWordsScan (stop : BitVec 32) : ∀ rest word, copyWords stop word rest =
    if stop ∈ byteSwap32 word :: wordsFrom rest
    then some (((byteSwap32 word :: wordsFrom rest).takeWhile (· ≠ stop)).flatMap fullBytes) else none
  | b₀ :: b₁ :: b₂ :: b₃ :: rest, word => by
    rw [copyWords, wordsFrom]
    by_cases found : byteSwap32 word = stop
    · rw [if_pos found, if_pos (by simp [found]), List.takeWhile_cons_of_neg (by simp [found])]
      rfl
    · rw [if_neg found, copyWordsScan stop rest, swappedWord]
      by_cases later : stop ∈ (b₀ ++ b₁ ++ b₂ ++ b₃) :: wordsFrom rest
      · rw [if_pos later, if_pos (List.mem_cons_of_mem _ later),
          @List.takeWhile_cons_of_pos _ _ (byteSwap32 word) _ (by simpa using found), List.flatMap_cons, fwriteBack]
        rfl
      · rw [if_neg later, if_neg (by rw [List.mem_cons]; exact fun no => no.elim (fun same => found same.symm) later)]
        rfl
  | [], word => last stop word rfl
  | [_], word => last stop word rfl
  | [_, _], word => last stop word rfl
  | [_, _, _], word => last stop word rfl
where
  last (stop word : BitVec 32) {rest : List Byte} (few : wordsFrom rest = []) : (if byteSwap32 word = stop then some []
      else none) = if stop ∈ byteSwap32 word :: wordsFrom rest
        then some (((byteSwap32 word :: wordsFrom rest).takeWhile (· ≠ stop)).flatMap fullBytes) else none := by
    rw [few]
    by_cases found : byteSwap32 word = stop
    · rw [if_pos found, if_pos (by simp [found]), List.takeWhile_cons_of_neg (by simp [found])]
      rfl
    · rw [if_neg found, if_neg (by simpa using Ne.symm found)]

-- The words of the RCW as the code leaves them: bits are set and never cleared.
def orBits (cfg : Config) (word : BitVec 32) : BitVec 32 :=
  let word := if cfg.sbEn then word ||| sbEnMask else word
  if cfg.bootHo then word ||| bootHoMask else word

theorem rcwWordSwapped (i : Nat) (w : BitVec 32) : byteSwap32 (rcwWord cfg i w) =
    if i = sbEnBootHoWord then orBits cfg (byteSwap32 w) else byteSwap32 w := by
  unfold rcwWord orBits
  split
  · exact swapTwice _
  · rfl

theorem rcwWordsFulls (ws : List (BitVec 32)) (rest : List Byte) : ∀ i,
    rcwWords cfg ws.length i (ws.flatMap fullBytes ++ rest) =
      ((ws.mapIdx fun k w => if i + k = sbEnBootHoWord then orBits cfg w else w).flatMap fullBytes, rest) := by
  induction ws with
  | nil => exact fun _ => rfl
  | cons w ws later =>
    intro i
    obtain ⟨b₀, b₁, b₂, b₃, split, same⟩ := fullHead w (ws.flatMap fullBytes ++ rest)
    rw [List.flatMap_cons, List.append_assoc, split, List.length_cons, rcwWords, later, fwriteBack,
      rcwWordSwapped, swappedWord, same, List.mapIdx_cons, List.flatMap_cons]
    have next : ∀ k, i + 1 + k = i + (k + 1) := by omega
    simp only [next, Nat.add_zero]

theorem rcwWordsLeft : ∀ n i (file : List Byte), 4 * n ≤ file.length →
    (rcwWords cfg n i file).1.length = 4 * n ∧ (rcwWords cfg n i file).2 = file.drop (4 * n)
  | 0, _, _, _ => ⟨rfl, rfl⟩
  | n + 1, i, b₀ :: b₁ :: b₂ :: b₃ :: rest, long => by
    simp only [List.length_cons] at long
    obtain ⟨length, left⟩ := rcwWordsLeft n (i + 1) rest (by omega)
    rw [rcwWords, Nat.mul_succ]
    refine ⟨?_, left⟩
    rw [List.length_append, length]
    exact Nat.add_comm _ _
  | n + 1, _, [], long => by simp at long
  | n + 1, _, [_], long => by simp at long; omega
  | n + 1, _, [_, _], long => by simp at long; omega
  | n + 1, _, [_, _, _], long => by simp at long; omega

end Words

section Crc

theorem tableStep (c : BitVec 32) :
    (if c &&& 0x80000000 ≠ 0 then pbiCrcPolynomial ^^^ (c <<< 1) else c <<< 1) = step Rcw.polynomial c false := by
  have top : c &&& 0x80000000 ≠ 0 ↔ c.msb = true := by
    have single : c &&& 0x80000000 = if c.msb then 0x80000000 else 0 := by
      apply BitVec.eq_of_getLsbD_eq
      intro i inside
      have mask : (0x80000000 : BitVec 32).getLsbD i = decide (i = 31) := by
        have all : ∀ i < 32, (0x80000000 : BitVec 32).getLsbD i = decide (i = 31) := by decide
        exact all i inside
      rw [BitVec.getLsbD_and, mask, BitVec.msb_eq_getLsbD_last]
      by_cases last : i = 31
      · subst last
        cases c.getLsbD 31 <;> simp
      · rw [decide_eq_false last, Bool.and_false]
        cases c.getLsbD (32 - 1) with
        | true =>
          rw [if_pos rfl]
          exact (mask.trans (decide_eq_false last)).symm
        | false => simp
    rw [single]
    cases c.msb <;> simp
  unfold step
  rw [Bool.xor_false]
  by_cases set : c.msb = true
  · rw [if_pos (top.mpr set), if_pos set, BitVec.xor_comm]
    rfl
  · rw [if_neg (fun masked => set (top.mp masked)), if_neg set, BitVec.xor_zero]

theorem tableFed (i : BitVec 32) : crcTable i = feed Rcw.polynomial (i <<< 24) (zeros 8) := by
  unfold crcTable
  have steps : ∀ n, (List.range n).foldl (fun (c : BitVec 32) _ =>
      if c &&& 0x80000000 ≠ 0 then pbiCrcPolynomial ^^^ (c <<< 1) else c <<< 1) (i <<< 24) =
      feed Rcw.polynomial (i <<< 24) (zeros n) := by
    intro n
    induction n with
    | zero => rfl
    | succ n fed =>
      have last : zeros (n + 1) = zeros n ++ [false] := List.replicate_succ'
      rw [List.range_succ, List.foldl_append, List.foldl_cons, List.foldl_nil, fed, tableStep, last,
        Remainders.feedAppend]
      rfl
  exact steps 8

theorem crcByte (crc : BitVec 32) (d : Byte) :
    crcTable (((crc >>> 24) ^^^ d.setWidth 32) &&& 0xff) ^^^ (crc <<< 8) =
      feed Rcw.polynomial crc (BitStrings.binary 8 d.toNat) := by
  have small : d.toNat < 256 := d.isLt
  have index : (((crc >>> 24) ^^^ d.setWidth 32) &&& 0xff).toNat = (crc.toNat >>> 24) ^^^ d.toNat := by
    have bound : (crc.toNat >>> 24) ^^^ d.toNat < 2 ^ 8 := by
      apply Nat.xor_lt_two_pow
      · have := crc.isLt
        rw [Nat.shiftRight_eq_div_pow]
        omega
      · exact small
    rw [BitVec.toNat_and, BitVec.toNat_xor, BitVec.toNat_ushiftRight, BitVec.toNat_setWidth,
      Nat.mod_eq_of_lt (by omega : d.toNat < 2 ^ 32)]
    have masked := Nat.and_two_pow_sub_one_eq_mod ((crc.toNat >>> 24) ^^^ d.toNat) 8
    exact masked.trans (Nat.mod_eq_of_lt bound)
  apply BitVec.eq_of_toNat_eq
  rw [← Rcw.byteFed crc small, Rcw.entryFed, tableFed, BitVec.toNat_xor, BitVec.toNat_shiftLeft]
  have entry : (((crc >>> 24) ^^^ d.setWidth 32) &&& 0xff) <<< 24 =
      BitVec.ofNat 32 (((crc.toNat >>> 24) ^^^ d.toNat) <<< 24) := by
    rw [Rcw.registerShift, ← index, BitVec.ofNat_toNat, BitVec.setWidth_eq]
  rw [entry]
  have cut := Nat.and_two_pow_sub_one_eq_mod (crc.toNat <<< 8 ^^^ (feed Rcw.polynomial
    (BitVec.ofNat 32 (((crc.toNat >>> 24) ^^^ d.toNat) <<< 24)) (zeros 8)).toNat) 32
  rw [show (0xffffffff : Nat) = 2 ^ 32 - 1 by rfl, cut, Nat.xor_mod_two_pow, Nat.xor_comm,
    Nat.mod_eq_of_lt (BitVec.isLt _)]

theorem pbiCrcSerial (data : List Byte) : (pbiCrc data).toNat = Rcw.crc32 (data.map BitVec.toNat) := by
  have small : ∀ i ∈ data.map BitVec.toNat, i < 256 := by
    intro i member
    obtain ⟨d, _, rfl⟩ := List.mem_map.mp member
    exact d.isLt
  rw [Rcw.crcSerial small]
  have fed : ∀ crc : BitVec 32, data.foldl (fun (crc : BitVec 32) (d : Byte) =>
      crcTable (((crc >>> 24) ^^^ d.setWidth 32) &&& 0xff) ^^^ (crc <<< 8)) crc =
      feed Rcw.polynomial crc ((data.map BitVec.toNat).flatMap (BitStrings.binary 8)) := by
    induction data with
    | nil => exact fun _ => rfl
    | cons d rest later =>
      intro crc
      rw [List.foldl_cons, crcByte, later (fun i member => small i (List.mem_cons_of_mem _ member)), List.map_cons,
        List.flatMap_cons, Remainders.feedAppend]
  exact congrArg BitVec.toNat (fed 0xffffffff)

theorem crcBytes (w : BitVec 32) : (fullBytes w).map BitVec.toNat = BitStrings.pack false 4 w.toNat := by
  have number (i : Nat) : (w.extractLsb' (8 * i) 8).toNat = w.toNat / 256 ^ i % 256 := by
    rw [BitVec.extractLsb'_toNat, Nat.shiftRight_eq_div_pow, Nat.pow_mul]
  have bytes : fullBytes w = [w.extractLsb' (8 * 3) 8, w.extractLsb' (8 * 2) 8, w.extractLsb' (8 * 1) 8,
      w.extractLsb' (8 * 0) 8] := by
    have all := fullSplit (w.extractLsb' 24 8) (w.extractLsb' 16 8) (w.extractLsb' 8 8) (w.extractLsb' 0 8)
    rwa [← fourBytes w] at all
  rw [bytes]
  simp only [List.map_cons, List.map_nil, number]
  rfl

theorem stopResidue (out : List Byte) :
    Rcw.crc32 ((out ++ fullBytes (pbiCrc out)).map BitVec.toNat) = 0 := by
  rw [List.map_append, crcBytes, pbiCrcSerial]
  refine Rcw.crcResidue fun i member => ?_
  obtain ⟨d, _, rfl⟩ := List.mem_map.mp member
  exact d.isLt

end Crc
end Flexbuild.PbiCreation
