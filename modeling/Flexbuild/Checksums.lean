import Flexbuild.OnesComplement
import Mathlib.Data.List.GetD

/-! The incremental update of an Internet checksum: a 32-bit word of the data changes, and the
checksum follows in ones' complement arithmetic, instruction by instruction. Data whose sum was all
ones keeps that sum, unless nothing but zeros is left. -/
namespace Flexbuild.Checksums
open OnesComplement

def carry (n : Nat) : Nat := n / 2 ^ 32

def word (n : Nat) : Nat := n % 2 ^ 32

def cksumUpdateUint32 (cksum : BitVec 16) (oldVal newVal : BitVec 32) : BitVec 16 :=
  let sum := cksum.toNat + oldVal.toNat
  let sum' := (~~~newVal).toNat + word sum + carry sum
  let temp := word (word sum' + carry sum')
  -- The half words change places; the upper half of the sum is the folded sum.
  let folded := word (temp / 2 ^ 16 + temp % 2 ^ 16 * 2 ^ 16 + temp)
  BitVec.ofNat 16 (folded / 2 ^ 16)

def cksumOnesComplementSum16 (arg1 arg2 : BitVec 16) : BitVec 16 :=
  let tmp := arg1.toNat + arg2.toNat
  BitVec.ofNat 16 (tmp + tmp >>> 16)

def onesSum (words : List (BitVec 16)) : BitVec 16 := words.foldl cksumOnesComplementSum16 0

structure Carried where
  value : BitVec 32
  ca : Bool
  deriving DecidableEq, Repr

def addc (a b : BitVec 32) : Carried := ⟨a + b, decide (2 ^ 32 ≤ a.toNat + b.toNat)⟩

def adde (a b : BitVec 32) (ca : Bool) : Carried :=
  ⟨a + b + BitVec.ofNat 32 ca.toNat, decide (2 ^ 32 ≤ a.toNat + b.toNat + ca.toNat)⟩

def addze (a : BitVec 32) (ca : Bool) : BitVec 32 := a + BitVec.ofNat 32 ca.toNat

def nor (a b : BitVec 32) : BitVec 32 := ~~~(a ||| b)

def cksumAccumulativeUpdateUint32 (cksum : BitVec 16) (oldVal newVal : BitVec 32) : BitVec 16 :=
  let newVal := nor newVal newVal
  let sum := addc (cksum.setWidth 32) oldVal
  let sum := adde newVal sum.value sum.ca
  let cksum := addze sum.value sum.ca
  let temp2 := cksum.rotateLeft 16
  let temp2 := temp2 + cksum
  (temp2 >>> 16).setWidth 16

theorem foldedHalves (temp : Nat) (wide : temp < 2 ^ 32) :
    word (temp / 2 ^ 16 + temp % 2 ^ 16 * 2 ^ 16 + temp) / 2 ^ 16 =
      if temp / 2 ^ 16 + temp % 2 ^ 16 < 2 ^ 16 then temp / 2 ^ 16 + temp % 2 ^ 16
      else temp / 2 ^ 16 + temp % 2 ^ 16 + 1 - 2 ^ 16 := by
  have whole : temp / 2 ^ 16 + temp % 2 ^ 16 * 2 ^ 16 + temp = (temp / 2 ^ 16 + temp % 2 ^ 16) * (2 ^ 16 + 1) := by omega
  have most : temp / 2 ^ 16 + temp % 2 ^ 16 ≤ 2 ^ 17 - 2 := by omega
  rw [word, whole]
  generalize temp / 2 ^ 16 + temp % 2 ^ 16 = sum at most
  split
  · next small =>
    rw [Nat.mod_eq_of_lt (by omega)]
    omega
  · next large =>
    have turned : sum * (2 ^ 16 + 1) % 2 ^ 32 = sum * (2 ^ 16 + 1) - 2 ^ 32 := by
      rw [Nat.mod_eq_sub_mod (by omega), Nat.mod_eq_of_lt (by omega)]
    rw [turned]
    omega

theorem foldedResidue (temp : Nat) (wide : temp < 2 ^ 32) :
    word (temp / 2 ^ 16 + temp % 2 ^ 16 * 2 ^ 16 + temp) / 2 ^ 16 < 2 ^ 16 ∧
    word (temp / 2 ^ 16 + temp % 2 ^ 16 * 2 ^ 16 + temp) / 2 ^ 16 ≡ temp [MOD 2 ^ 16 - 1] := by
  have halves : temp / 2 ^ 16 + temp % 2 ^ 16 ≡ temp [MOD 2 ^ 16 - 1] := sameResidue (temp / 2 ^ 16) (by omega)
  rw [foldedHalves temp wide]
  split
  · next small => exact ⟨small, halves⟩
  · next large => exact ⟨by omega, (sameResidue 1 (by omega)).trans halves⟩

theorem carryResidue (sum : Nat) : word sum + carry sum ≡ sum [MOD 2 ^ 16 - 1] := by
  unfold word carry
  exact sameResidue ((2 ^ 16 + 1) * (sum / 2 ^ 32)) (by omega)

theorem carryWord {a b : Nat} (first : a < 2 ^ 32) (second : b < 2 ^ 32) : word (a + b) + carry (a + b) < 2 ^ 32 := by
  unfold word carry
  omega

theorem updateResidue (cksum : BitVec 16) (oldVal newVal : BitVec 32) :
    (cksumUpdateUint32 cksum oldVal newVal).toNat + newVal.toNat ≡ cksum.toNat + oldVal.toNat [MOD 2 ^ 16 - 1] := by
  have newIn := newVal.isLt
  have negated : (~~~newVal).toNat = 2 ^ 32 - 1 - newVal.toNat := BitVec.toNat_not
  have added := carryResidue (cksum.toNat + oldVal.toNat)
  have inside : word (cksum.toNat + oldVal.toNat) + carry (cksum.toNat + oldVal.toNat) < 2 ^ 32 :=
    carryWord (cksum.isLt.trans (by decide)) oldVal.isLt
  unfold cksumUpdateUint32
  simp only [negated, BitVec.toNat_ofNat, Nat.add_assoc (2 ^ 32 - 1 - newVal.toNat)]
  generalize word (cksum.toNat + oldVal.toNat) + carry (cksum.toNat + oldVal.toNat) = sum at added inside
  have taken := carryResidue (2 ^ 32 - 1 - newVal.toNat + sum)
  have wide : word (2 ^ 32 - 1 - newVal.toNat + sum) + carry (2 ^ 32 - 1 - newVal.toNat + sum) < 2 ^ 32 :=
    carryWord (by omega) inside
  generalize word (2 ^ 32 - 1 - newVal.toNat + sum) + carry (2 ^ 32 - 1 - newVal.toNat + sum) = temp at taken wide
  obtain ⟨short, folded⟩ := foldedResidue temp wide
  rw [show word temp = temp from Nat.mod_eq_of_lt wide, Nat.mod_eq_of_lt short]
  refine ((folded.trans taken).add_right _).trans (Nat.ModEq.trans ?_ added)
  exact (sameResidue (2 ^ 16 + 1) (by omega)).symm

theorem addcToNat (a b : BitVec 32) : (addc a b).value.toNat = word (a.toNat + b.toNat) ∧
    (addc a b).ca.toNat = carry (a.toNat + b.toNat) := by
  have first := a.isLt
  have second := b.isLt
  refine ⟨BitVec.toNat_add _ _, ?_⟩
  unfold addc carry
  by_cases large : 2 ^ 32 ≤ a.toNat + b.toNat
  · rw [decide_eq_true large, Bool.toNat_true]
    omega
  · rw [decide_eq_false large, Bool.toNat_false]
    omega

theorem carryInToNat (a : BitVec 32) (ca : Bool) : (addze a ca).toNat = word (a.toNat + ca.toNat) := by
  have one := ca.toNat_le
  rw [addze, BitVec.toNat_add, BitVec.toNat_ofNat, Nat.mod_eq_of_lt (a := ca.toNat) (by omega), word]

theorem addeToNat (a b : BitVec 32) (ca : Bool) : (adde a b ca).value.toNat = word (a.toNat + b.toNat + ca.toNat) ∧
    (adde a b ca).ca.toNat = carry (a.toNat + b.toNat + ca.toNat) := by
  have first := a.isLt
  have second := b.isLt
  have one := ca.toNat_le
  constructor
  · rw [show (adde a b ca).value = addze (a + b) ca from rfl, carryInToNat, BitVec.toNat_add, word, word, Nat.mod_add_mod]
  · unfold adde carry
    by_cases large : 2 ^ 32 ≤ a.toNat + b.toNat + ca.toNat
    · rw [decide_eq_true large, Bool.toNat_true]
      omega
    · rw [decide_eq_false large, Bool.toNat_false]
      omega

theorem halvesTurned (a : BitVec 32) : (a.rotateLeft 16).toNat = a.toNat / 2 ^ 16 + a.toNat % 2 ^ 16 * 2 ^ 16 := by
  have inside := a.isLt
  have upper : a.toNat <<< 16 % 2 ^ 32 = a.toNat % 2 ^ 16 * 2 ^ 16 := by
    rw [Nat.shiftLeft_eq]
    omega
  have lower : a.toNat >>> 16 = a.toNat / 2 ^ 16 := Nat.shiftRight_eq_div_pow _ _
  have apart : a.toNat / 2 ^ 16 < 2 ^ 16 := by omega
  rw [BitVec.toNat_rotateLeft, show 16 % 32 = 16 from rfl, show 32 - 16 = 16 from rfl, upper, lower, Nat.mul_comm,
    ← Nat.two_pow_add_eq_or_of_lt apart, Nat.add_comm]

theorem accumulativeUpdate (cksum : BitVec 16) (oldVal newVal : BitVec 32) :
    cksumAccumulativeUpdateUint32 cksum oldVal newVal = cksumUpdateUint32 cksum oldVal newVal := by
  obtain ⟨value, ca⟩ := addcToNat (cksum.setWidth 32) oldVal
  obtain ⟨value', ca'⟩ := addeToNat (nor newVal newVal) (addc (cksum.setWidth 32) oldVal).value (addc (cksum.setWidth 32) oldVal).ca
  have low : (cksum.setWidth 32).toNat = cksum.toNat := BitVec.toNat_setWidth_of_le (by decide)
  have negated : nor newVal newVal = ~~~newVal := by rw [nor, BitVec.or_self]
  rw [low] at value ca
  rw [value, ca, negated] at value' ca'
  refine BitVec.eq_of_toNat_eq ?_
  unfold cksumAccumulativeUpdateUint32 cksumUpdateUint32
  dsimp only
  rw [BitVec.toNat_setWidth, BitVec.toNat_ushiftRight, BitVec.toNat_add, halvesTurned, carryInToNat, negated, value', ca',
    BitVec.toNat_ofNat, Nat.shiftRight_eq_div_pow]
  rfl

theorem sum16Adds (arg1 arg2 : BitVec 16) : cksumOnesComplementSum16 arg1 arg2 = add arg1 arg2 := by
  rw [cksumOnesComplementSum16, add, Nat.shiftRight_eq_div_pow]

theorem onesSumTotal (words : List (BitVec 16)) : onesSum words = total words := by
  rw [onesSum, total, show cksumOnesComplementSum16 = add from funext fun a => funext (sum16Adds a)]

section update

variable {words : List (BitVec 16)} {cs pair : Nat}

def replaced (words : List (BitVec 16)) (pair : Nat) (newVal : BitVec 32) : List (BitVec 16) :=
  (words.set pair (newVal.extractLsb' 16 16)).set (pair + 1) (newVal.extractLsb' 0 16)

theorem replacedSum (newVal : BitVec 32) (inside : pair + 1 < words.length) :
    plain (replaced words pair newVal) + (words[pair] ++ words[pair + 1]).toNat ≡ plain words + newVal.toNat [MOD 2 ^ 16 - 1] := by
  have first := plainSet words pair (newVal.extractLsb' 16 16) (Nat.lt_of_succ_lt inside)
  have second := plainSet (words.set pair (newVal.extractLsb' 16 16)) (pair + 1) (newVal.extractLsb' 0 16) (by simpa using inside)
  rw [List.getElem_set_ne (by omega)] at second
  have old : (words[pair] ++ words[pair + 1]).toNat = words[pair].toNat * 2 ^ 16 + words[pair + 1].toNat := by
    rw [BitVec.toNat_append, Nat.shiftLeft_eq, Nat.mul_comm, ← Nat.two_pow_add_eq_or_of_lt words[pair + 1].isLt]
  have new : newVal.toNat = (newVal.extractLsb' 16 16).toNat * 2 ^ 16 + (newVal.extractLsb' 0 16).toNat := by
    have inside := newVal.isLt
    rw [BitVec.extractLsb'_toNat, BitVec.extractLsb'_toNat, Nat.shiftRight_eq_div_pow, Nat.shiftRight_eq_div_pow]
    omega
  rw [old, new, replaced]
  generalize newVal.extractLsb' 16 16 = high at first second
  generalize newVal.extractLsb' 0 16 = low at first second
  exact (sameResidue words[pair].toNat (a := plain words + high.toNat + low.toNat) (by omega)).symm.trans
    (sameResidue high.toNat (by omega))

theorem updatedSum (newVal : BitVec 32) (csInside : cs < words.length) (pairInside : pair + 1 < words.length)
    (apart : cs ≠ pair ∧ cs ≠ pair + 1) :
    plain ((replaced words pair newVal).set cs (cksumUpdateUint32 words[cs] (words[pair] ++ words[pair + 1]) newVal)) ≡
      plain words [MOD 2 ^ 16 - 1] := by
  have inside : cs < (replaced words pair newVal).length := by simpa [replaced] using csInside
  have kept : (replaced words pair newVal)[cs] = words[cs] := by
    simp only [replaced, List.getElem_set_ne apart.1.symm, List.getElem_set_ne apart.2.symm]
  have data := replacedSum newVal pairInside
  have update := updateResidue words[cs] (words[pair] ++ words[pair + 1]) newVal
  have stored := plainSet (replaced words pair newVal) cs
    (cksumUpdateUint32 words[cs] (words[pair] ++ words[pair + 1]) newVal) inside
  rw [kept] at stored
  generalize cksumUpdateUint32 words[cs] (words[pair] ++ words[pair + 1]) newVal = cksum at update stored
  refine Nat.ModEq.add_right_cancel' (words[cs].toNat + (words[pair] ++ words[pair + 1]).toNat) ?_
  rw [← Nat.add_assoc, stored, Nat.add_right_comm]
  refine (data.add_right _).trans ?_
  rw [Nat.add_assoc, Nat.add_comm newVal.toNat]
  exact update.add_left _

theorem checksumKept (words : List (BitVec 16)) (cs pair : Nat) (newVal : BitVec 32) (csInside : cs < words.length)
    (pairInside : pair + 1 < words.length) (apart : cs ≠ pair ∧ cs ≠ pair + 1) (ones : onesSum words = 0xFFFF) :
    let oldVal := words[pair] ++ words[pair + 1]
    let changed := (replaced words pair newVal).set cs (cksumUpdateUint32 words[cs] oldVal newVal)
    let changed' := (replaced words pair newVal).set cs (cksumAccumulativeUpdateUint32 words[cs] oldVal newVal)
    (onesSum changed = 0xFFFF ↔ ¬∀ a ∈ changed, a = 0) ∧ (onesSum changed' = 0xFFFF ↔ ¬∀ a ∈ changed', a = 0) := by
  dsimp only
  rw [accumulativeUpdate, and_self, onesSumTotal]
  rw [onesSumTotal] at ones
  have before := ((totalOnes (by decide) words).mp ones).1
  have after := (updatedSum newVal csInside pairInside apart).trans before
  exact (totalOnes (by decide) _).trans (and_iff_right after)

def header : List (BitVec 16) := [0x4500, 0x0054, 0xBAAB]

theorem checksumKeptExample : ∃ cksum : BitVec 16, cksum = 0xBA9B ∧ onesSum ((replaced header 0 0x45000064).set 2 cksum) = 0xFFFF := by
  have kept := (checksumKept header 2 0 0x45000064 (by decide) (by decide) (by decide) (by decide)).1
  have computed : cksumUpdateUint32 header[2] (header[0] ++ header[1]) 0x45000064 = 0xBA9B := by decide
  rw [computed] at kept
  exact ⟨0xBA9B, rfl, kept.mpr fun zeros => absurd (zeros 0xBA9B (List.mem_set (by decide) _)) (by decide)⟩

end update

section updates
variable {cs : Nat} {words : List (BitVec 16)} {updates : List (Nat × BitVec 32)}

def updated (cs : Nat) (words : List (BitVec 16)) (update : Nat × BitVec 32) : List (BitVec 16) :=
  (replaced words update.1 update.2).set cs
    (cksumUpdateUint32 (words.getD cs 0) (words.getD update.1 0 ++ words.getD (update.1 + 1) 0) update.2)

def OfData (cs length : Nat) (update : Nat × BitVec 32) : Prop :=
  update.1 + 1 < length ∧ cs ≠ update.1 ∧ cs ≠ update.1 + 1

theorem updatesSum (csInside : cs < words.length) (valid : ∀ update ∈ updates, OfData cs words.length update) :
    (updates.foldl (updated cs) words).length = words.length ∧
      plain (updates.foldl (updated cs) words) ≡ plain words [MOD 2 ^ 16 - 1] := by
  induction updates generalizing words with
  | nil => exact ⟨rfl, rfl⟩
  | cons update rest ih =>
    obtain ⟨⟨inside, apart⟩, later⟩ := List.forall_mem_cons.mp valid
    have length : (updated cs words update).length = words.length := by simp [updated, replaced]
    have step : plain (updated cs words update) ≡ plain words [MOD 2 ^ 16 - 1] := by
      have sum := updatedSum update.2 csInside inside apart
      rwa [updated, List.getD_eq_getElem _ _ csInside, List.getD_eq_getElem _ _ (Nat.lt_of_succ_lt inside),
        List.getD_eq_getElem _ _ inside]
    obtain ⟨same, sum⟩ := ih (length ▸ csInside) (by rwa [length])
    exact ⟨same.trans length, sum.trans step⟩

/-- However many pairs of words are replaced, the checksum that is kept up to date is the one that a sum over all the
data would give, but for the two zeros of ones' complement. -/
theorem updatesRecomputed (cs : Nat) (words : List (BitVec 16)) (updates : List (Nat × BitVec 32))
    (csInside : cs < words.length) (valid : ∀ update ∈ updates, OfData cs words.length update)
    (ones : onesSum words = 0xFFFF) :
    let last := updates.foldl (updated cs) words
    let computed := ~~~onesSum (last.set cs 0)
    last.getD cs 0 = computed ∨ last.getD cs 0 = 0 ∧ computed = 0xFFFF ∨ last.getD cs 0 = 0xFFFF ∧ computed = 0 := by
  obtain ⟨length, sum⟩ := updatesSum csInside valid
  dsimp only
  generalize updates.foldl (updated cs) words = last at length sum
  have inside : cs < last.length := length ▸ csInside
  rw [onesSumTotal] at ones
  have before := ((totalOnes (by decide) words).mp ones).1
  have cleared := plainSet last cs 0 inside
  have residue := totalResidue (last.set cs 0)
  rw [onesSumTotal, List.getD_eq_getElem _ _ inside]
  generalize total (last.set cs 0) = whole at residue
  generalize last[cs] = cksum at cleared
  have vanishes : plain (last.set cs 0) + cksum.toNat ≡ 0 [MOD 2 ^ 16 - 1] := by
    rw [cleared]
    exact sum.trans before
  have both : whole.toNat + cksum.toNat ≡ 0 [MOD 2 ^ 16 - 1] := (residue.add_right _).trans vanishes
  have first := whole.isLt
  have second := cksum.isLt
  simp only [← BitVec.toNat_inj, BitVec.toNat_not]
  rw [Nat.ModEq] at both
  change cksum.toNat = 2 ^ 16 - 1 - whole.toNat ∨ cksum.toNat = 0 ∧ 2 ^ 16 - 1 - whole.toNat = 65535 ∨
    cksum.toNat = 65535 ∧ 2 ^ 16 - 1 - whole.toNat = 0
  omega

theorem updatesRecomputedExample : let last := [(0, 0x45000064#32), (1, 0x00640001#32)].foldl (updated 3) [0x4500, 0x0054, 0x0001, 0xBAAA]
    last.getD 3 0 = ~~~onesSum (last.set 3 0) := by
  have kept := updatesRecomputed 3 [0x4500, 0x0054, 0x0001, 0xBAAA]
    [(0, 0x45000064#32), (1, 0x00640001#32)] (by decide) (by simp [OfData]) (by decide)
  exact kept.resolve_right (by decide)

end updates

end Flexbuild.Checksums
