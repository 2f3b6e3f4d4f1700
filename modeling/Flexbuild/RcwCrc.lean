import Flexbuild.Remainders
import Flexbuild.RcwRoundTrip

/-! The CRC of a compiled RCW. The table is built with a mask that is never cut, yet only the bits
below the 32nd are looked at and kept, so an entry is what eight zeros leave of its index in the
register; with that a byte of the data is eight steps of the division. -/
namespace Flexbuild.Rcw
open Numerals BitStrings Remainders

def polynomial : BitVec 32 := 0x04c11db7

def remainder (data : List Nat) : BitVec 32 := feed polynomial 0xffffffff (data.flatMap (binary 8))

variable {data pbi : List Nat} {i n : Nat}

theorem registerShift (k mask : Nat) : BitVec.ofNat 32 (mask <<< k) = BitVec.ofNat 32 mask <<< k := by
  apply BitVec.eq_of_toNat_eq
  rw [BitVec.toNat_shiftLeft, BitVec.toNat_ofNat, BitVec.toNat_ofNat, Nat.shiftLeft_eq, Nat.shiftLeft_eq,
    Nat.mod_mul_mod]

theorem maskStep (mask : Nat) :
    BitVec.ofNat 32 (if mask &&& 0x80000000 ≠ 0 then (mask <<< 1) ^^^ 0x04c11db7 else mask <<< 1) =
      step polynomial (BitVec.ofNat 32 mask) false := by
  have top : mask &&& 0x80000000 ≠ 0 ↔ mask.testBit 31 = true := by
    have single : mask &&& 0x80000000 = (mask.testBit 31).toNat * 0x80000000 := Nat.and_two_pow mask 31
    rw [single]
    cases mask.testBit 31 <;> simp
  have msb : (BitVec.ofNat 32 mask).msb = mask.testBit 31 := by
    rw [BitVec.msb_eq_getLsbD_last, BitVec.getLsbD_ofNat]
    rfl
  have shifted := registerShift 1 mask
  unfold step
  rw [msb, Bool.xor_false]
  by_cases set : mask.testBit 31 = true
  · rw [if_pos (top.mpr set), if_pos set, ← shifted]
    exact BitVec.ofNat_xor ..
  · rw [if_neg (fun masked => set (top.mp masked)), if_neg set, shifted, BitVec.xor_zero]

theorem masksFed (n mask : Nat) :
    BitVec.ofNat 32 ((List.range n).foldl (fun mask _ =>
      if mask &&& 0x80000000 ≠ 0 then (mask <<< 1) ^^^ 0x04c11db7 else mask <<< 1) mask) =
      feed polynomial (BitVec.ofNat 32 mask) (zeros n) := by
  induction n with
  | zero => rfl
  | succ n fed =>
    have last : zeros (n + 1) = zeros n ++ [false] := List.replicate_succ'
    rw [List.range_succ, List.foldl_append, List.foldl_cons, List.foldl_nil, maskStep, fed, last, feedAppend]
    rfl

theorem entryFed (i : Nat) :
    crcTableEntry i = (feed polynomial (BitVec.ofNat 32 (i <<< 24)) (zeros 8)).toNat := by
  rw [← masksFed, BitVec.toNat_ofNat]
  exact Nat.and_two_pow_sub_one_eq_mod _ 32

theorem byteFed (crc : BitVec 32) (small : i < 256) :
    ((crc.toNat <<< 8) ^^^ crcTableEntry ((crc.toNat >>> 24) ^^^ i)) &&& 0xffffffff =
      (feed polynomial crc (binary 8 i)).toNat := by
  have bound : ((crc.toNat >>> 24) ^^^ i) < 2 ^ 8 := by
    apply Nat.xor_lt_two_pow
    · have := crc.isLt
      rw [Nat.shiftRight_eq_div_pow]
      omega
    · exact small
  have high : BitVec.ofNat 32 (((crc.toNat >>> 24) ^^^ i) <<< 24) <<< 8 = 0#32 := by
    apply BitVec.eq_of_getLsbD_eq
    intro p lt
    rw [BitVec.getLsbD_shiftLeft, BitVec.getLsbD_ofNat, Nat.testBit_shiftLeft]
    by_cases reached : 8 + 24 ≤ p
    · omega
    · have : ¬ 24 ≤ p - 8 := by omega
      simp [this]
  have made : leading 8 (crc ^^^ BitVec.ofNat 32 (((crc.toNat >>> 24) ^^^ i) <<< 24)) = binary 8 i := by
    apply List.ext_getElem
    · simp [leading, binaryLength]
    · intro j lt _
      have inside : j < 8 := by simpa [leading] using lt
      simp only [leading, binary, List.getElem_map, List.getElem_range, List.getElem_reverse, List.length_range]
      rw [BitVec.getMsbD_eq_getLsbD, BitVec.getLsbD_xor, BitVec.getLsbD_ofNat, Nat.testBit_shiftLeft,
        Nat.testBit_xor, Nat.testBit_shiftRight]
      have position : 24 + (32 - 1 - j - 24) = 32 - 1 - j := by omega
      have low : 32 - 1 - j - 24 = 8 - 1 - j := by omega
      have above : 24 ≤ 32 - 1 - j := by omega
      rw [position, low, decide_eq_true above, decide_eq_true (show 32 - 1 - j < 32 by omega),
        decide_eq_true (show j < 32 by omega), BitVec.testBit_toNat]
      simp
  have through := feedThrough polynomial (binaryLength 8 i) high crc made
  have shifted := registerShift 8 crc.toNat
  rw [through, entryFed]
  have masked : ∀ x : Nat, x &&& 0xffffffff = x % 2 ^ 32 := fun x => Nat.and_two_pow_sub_one_eq_mod x 32
  rw [masked, ← BitVec.toNat_ofNat, BitVec.ofNat_xor, shifted, BitVec.ofNat_toNat, BitVec.setWidth_eq,
    BitVec.ofNat_toNat, BitVec.setWidth_eq]

theorem crcSerial (small : ∀ i ∈ data, i < 256) : crc32 data = (remainder data).toNat := by
  have fed : ∀ crc : BitVec 32, data.foldl (fun crc i =>
      ((crc <<< 8) ^^^ crcTableEntry ((crc >>> 24) ^^^ i)) &&& 0xffffffff) crc.toNat =
        (feed polynomial crc (data.flatMap (binary 8))).toNat := by
    induction data with
    | nil => exact fun _ => rfl
    | cons i rest later =>
      intro crc
      rw [List.foldl_cons, byteFed crc (small i List.mem_cons_self), later fun j mem =>
        small j (List.mem_cons_of_mem i mem), List.flatMap_cons, feedAppend]
  exact fed 0xffffffff

theorem packSmall (little : Bool) (n x : Nat) : ∀ b ∈ pack little n x, b < 256 := by
  intro b mem
  have listed : b ∈ (List.range n).map fun i => x / 256 ^ i % 256 := by
    unfold pack at mem
    cases little
    · exact List.mem_reverse.mp mem
    · exact mem
  obtain ⟨i, _, rfl⟩ := List.mem_map.mp listed
  exact Nat.mod_lt _ (by decide)

theorem packBits (x : Nat) : (pack false 4 x).flatMap (binary 8) = binary 32 x := by
  have bytes : pack false 4 x = (List.range 4).map fun i => (x >>> (8 * 4 - 8 * (i + 1))) &&& 0xff := by
    have masked : ∀ y : Nat, y &&& 0xff = y % 256 := fun y => Nat.and_two_pow_sub_one_eq_mod y 8
    simp [pack, List.range_succ, masked, Nat.shiftRight_eq_div_pow]
  rw [bytes]
  exact binaryBytes 4 x

theorem leadingRegister (r : BitVec 32) : leading 32 r = binary 32 r.toNat := by
  apply List.ext_getElem
  · simp [leading, binaryLength]
  · intro j lt _
    have inside : j < 32 := by simpa [leading] using lt
    simp only [leading, binary, List.getElem_map, List.getElem_range, List.getElem_reverse, List.length_range]
    rw [BitVec.getMsbD_eq_getLsbD, decide_eq_true inside, Bool.true_and, BitVec.testBit_toNat]

theorem crcResidue (small : ∀ i ∈ data, i < 256) : crc32 (data ++ pack false 4 (crc32 data)) = 0 := by
  have whole : ∀ i ∈ data ++ pack false 4 (crc32 data), i < 256 := by
    intro i mem
    rcases List.mem_append.mp mem with front | back
    · exact small i front
    · exact packSmall false 4 _ i back
  have itself := feedItself polynomial (remainder data)
  rw [crcSerial whole, remainder, List.flatMap_append, feedAppend, packBits, crcSerial small, ← leadingRegister]
  rw [← remainder, itself]
  rfl

variable {v : Vars} {symbols : List Field} {assignments : List (Text × Nat)} {binary head stop : List Nat}

theorem packLBytes {little : Bool} {x : Nat} {bytes : List Nat} (packed : packL little x = some bytes) :
    bytes = pack little 4 x := by
  unfold packL at packed
  split at packed <;> cases packed
  rfl

theorem packWordsSmall {little : Bool} {xs bytes : List Nat} (packed : packWords little xs = some bytes) :
    ∀ b ∈ bytes, b < 256 := by
  induction xs generalizing bytes with
  | nil =>
    cases packed
    exact fun b mem => by cases mem
  | cons x xs later =>
    rw [packWords] at packed
    obtain ⟨front, one, packed⟩ := Option.bind_eq_some_iff.mp packed
    obtain ⟨back, rest, packed⟩ := Option.bind_eq_some_iff.mp packed
    cases packed
    intro b mem
    rcases List.mem_append.mp mem with first | second
    · rw [packLBytes one] at first
      exact packSmall little 4 x b first
    · exact later rest b second

theorem endTraditional (crc : v.nocrc ≠ 1) (format : v.pbiformat ≠ 2) (classic : v.classicbitnumbers = false)
    (big : v.littleendian = false) (ended : v.endCommand binary pbi = some stop) :
    ∃ cmd, (∀ b ∈ cmd, b < 256) ∧ stop = cmd ++ pack false 4 (crc32 (binary ++ cmd)) := by
  unfold Vars.endCommand at ended
  rw [if_neg crc, if_neg format, if_neg format, if_neg format, classic, big] at ended
  obtain ⟨cmd, packed, ended⟩ := Option.bind_eq_some_iff.mp ended
  simp only [Bool.false_eq_true, if_false, Nat.xor_zero] at ended
  obtain ⟨sum, summed, ended⟩ := Option.bind_eq_some_iff.mp ended
  cases ended
  refine ⟨cmd, ?_, by rw [packLBytes summed]⟩
  rw [packLBytes packed]
  exact packSmall false 4 _

theorem createTraditional {printed : List String} (format : v.pbiformat ≠ 2) (quads : v.littleendian64b = false)
    (created : v.createBinary true symbols assignments pbi = some (binary, printed)) :
    ∃ bits head stop, v.preamble = some head ∧
      v.endCommand (head ++ v.rcwBytes bits ++ pbi) pbi = some stop ∧
      binary = head ++ v.rcwBytes bits ++ pbi ++ stop := by
  unfold Vars.createBinary at created
  obtain ⟨⟨bits, lines⟩, _, created⟩ := Option.bind_eq_some_iff.mp created
  simp only [quads, format, if_true, if_false, Bool.false_eq_true, Option.bind_eq_bind, Option.bind_some] at created
  obtain ⟨head, first, created⟩ := Option.bind_eq_some_iff.mp created
  obtain ⟨stop, last, created⟩ := Option.bind_eq_some_iff.mp created
  cases created
  exact ⟨bits, head, stop, first, last, rfl⟩

theorem createdResidue {printed : List String} (crc : v.nocrc ≠ 1) (format : v.pbiformat ≠ 2)
    (classic : v.classicbitnumbers = false) (big : v.littleendian = false) (quads : v.littleendian64b = false)
    (bytes : ∀ b ∈ pbi, b < 256)
    (created : v.createBinary true symbols assignments pbi = some (binary, printed)) : crc32 binary = 0 := by
  obtain ⟨bits, head, stop, first, last, rfl⟩ := createTraditional format quads created
  obtain ⟨cmd, small, rfl⟩ := endTraditional crc format classic big last
  have whole : ∀ b ∈ head ++ v.rcwBytes bits ++ pbi ++ cmd, b < 256 := by
    simp only [List.mem_append]
    rintro b (((mem | mem) | mem) | mem)
    · exact packWordsSmall first b mem
    · exact rcwBytesLt b mem
    · exact bytes b mem
    · exact small b mem
  rw [← List.append_assoc]
  exact crcResidue whole

theorem crcBitSerial (data : List Nat) (small : ∀ i ∈ data, i < 256) (v : Vars) (symbols : List Field)
    (assignments : List (Text × Nat)) (pbi : List Nat) (bytes : ∀ b ∈ pbi, b < 256) (crc : v.nocrc = 0)
    (format : v.pbiformat ≠ 2) (classic : v.classicbitnumbers = false) (big : v.littleendian = false)
    (quads : v.littleendian64b = false) :
    crc32 data = (remainder data).toNat ∧
      ∀ binary printed, v.createBinary true symbols assignments pbi = some (binary, printed) → crc32 binary = 0 := by
  refine ⟨crcSerial small, fun binary printed created => ?_⟩
  have appended : v.nocrc ≠ 1 := by
    rw [crc]
    decide
  exact createdResidue appended format classic big quads bytes created

def traditional : Vars := ⟨64, 0, false, false, false, false, 0, 0, 0x138000⟩

theorem crcBitSerialDigits :
    remainder [49, 50, 51, 52, 53, 54, 55, 56, 57] = 0x0376e6e7 ∧
      traditional.createBinary true rcwFields [(['A'], 3)] [0x09, 0x13, 0x80, 0x80, 0, 0, 16, 0] =
        some ([0xaa, 0x55, 0xaa, 0x55, 0x11, 0, 0, 0, 0x18, 0, 0, 0, 0, 0, 0, 0, 0x09, 0x13, 0x80, 0x80, 0, 0, 16, 0,
          0x08, 0x13, 0x80, 0x40, 131, 143, 101, 17], []) ∧
      crc32 [0xaa, 0x55, 0xaa, 0x55, 0x11, 0, 0, 0, 0x18, 0, 0, 0, 0, 0, 0, 0, 0x09, 0x13, 0x80, 0x80, 0, 0, 16, 0,
          0x08, 0x13, 0x80, 0x40, 131, 143, 101, 17] = 0 := by
  have created : traditional.createBinary true rcwFields [(['A'], 3)] [0x09, 0x13, 0x80, 0x80, 0, 0, 16, 0] =
        some ([0xaa, 0x55, 0xaa, 0x55, 0x11, 0, 0, 0, 0x18, 0, 0, 0, 0, 0, 0, 0, 0x09, 0x13, 0x80, 0x80, 0, 0, 16, 0,
          0x08, 0x13, 0x80, 0x40, 131, 143, 101, 17], []) := by
    decide
  have both := crcBitSerial [49, 50, 51, 52, 53, 54, 55, 56, 57] (by decide) traditional rcwFields [(['A'], 3)]
    [0x09, 0x13, 0x80, 0x80, 0, 0, 16, 0] (by decide) rfl (by decide) rfl rfl rfl
  refine ⟨?_, created, both.2 _ _ created⟩
  apply BitVec.eq_of_toNat_eq
  rw [← both.1]
  decide

end Flexbuild.Rcw
