import Mathlib.Tactic.Common
import Flexbuild.HashDrbg

/-! The generator and the automaton that it stands for go in step: the same results, and the
registers are the numbers of the automaton. The counter of the code has 32 bits, and it parts
from that of the automaton when it goes round. -/
namespace Flexbuild.HashDrbg
open BigEndian

variable {sha256 : Sha256} {inst inst' : HashDrbgCtx} {call : Call} {result : Result}

namespace Automaton

structure State where
  state : InstanceState
  interval : Nat
  counter : Nat
  v : Nat
  c : Nat

def start : State := ⟨.uninstantiated, 0, 0, 0, 0⟩

def modulus : Nat := 2 ^ seedLength

def hashDf (sha256 : Sha256) (input : List Byte) (n : Nat) : List Byte :=
  (blocks (fun j => (sha256 (BitVec.ofNat 8 (j + 1) :: (encode 4 (8 * n) ++ input))).toList) ((n + 31) / 32)).take n

def hashGen (sha256 : Sha256) (v n : Nat) : List Byte :=
  (blocks (fun j => (sha256 (encode seedlen ((v + j) % modulus))).toList) ((n + 31) / 32)).take n

def seeded (sha256 : Sha256) (seed : List Byte) (s : State) : State :=
  let v := value (hashDf sha256 seed seedlen)
  { s with counter := 1, v, c := value (hashDf sha256 (0 :: encode seedlen v) seedlen) }

def instantiate (sha256 : Sha256) (persStr entropy nonce : List Byte) (interval : Nat) (s : State) : Result × State :=
  if persStr.length > persStrMaxLen ∨ entropy.length > entropyMaxLen ∨ nonce.length > nonceMaxLen then
    (failed, { s with state := .error, interval, counter := 1 })
  else (⟨.success, []⟩, seeded sha256 (entropy ++ nonce ++ persStr) { s with state := .instantiated, interval })

def reseed (sha256 : Sha256) (addInput entropy : List Byte) (s : State) : State :=
  seeded sha256 (1 :: (encode seedlen s.v ++ entropy ++ addInput)) s

def generate (sha256 : Sha256) (addInput : List Byte) (outLen : Nat) (s : State) : Result × State :=
  let v := if addInput ≠ [] then (s.v + value (sha256 (2 :: (encode seedlen s.v ++ addInput))).toList) % modulus else s.v
  (⟨.success, hashGen sha256 v outLen⟩,
    { s with v := (v + value (sha256 (3 :: encode seedlen v)).toList + s.c + s.counter) % modulus, counter := s.counter + 1 })

def step (sha256 : Sha256) (call : Call) (s : State) : Result × State :=
  match call with
  | .instantiateAlg persStr entropy nonce interval => instantiate sha256 persStr entropy nonce interval.toNat s
  | .reseedAlg addInput entropy =>
    if s.state ≠ .instantiated ∨ addInput.length > addInputMaxLen ∨ entropy.length > entropyMaxLen then (failed, s)
    else (⟨.success, []⟩, reseed sha256 addInput entropy s)
  | .reseed addInput entropy =>
    if s.state ≠ .instantiated ∨ addInput.length > addInputMaxLen then (failed, s)
    else
      match entropy with
      | none => (⟨.catastrophicErrorFlag, []⟩, s)
      | some entropy => (⟨.success, []⟩, reseed sha256 addInput entropy.toList s)
  | .generate addInput outLen predResReq entropy =>
    if s.state ≠ .instantiated ∨ outLen > requestMax ∨ addInput.length > addInputMaxLen then (failed, s)
    else if s.counter > s.interval ∨ predResReq = 1 then
      match entropy with
      | none => (⟨.catastrophicErrorFlag, []⟩, s)
      | some entropy => generate sha256 [] outLen (reseed sha256 addInput entropy.toList s)
    else generate sha256 addInput outLen s
  | .generateAlg addInput outLen =>
    if s.state ≠ .instantiated ∨ outLen > requestMax ∨ addInput.length > addInputMaxLen then (failed, s)
    else generate sha256 addInput outLen s
  | .uninstantiate =>
    if s.state = .uninstantiated then (failed, s)
    else (⟨.success, []⟩, { s with state := .uninstantiated, v := 0, c := 0 })

end Automaton

theorem byteAddLength (y : List Byte) (yOffset : Int) (left c : Nat) (x : List Byte) :
    (byteAddLoop y yOffset left c x).length = x.length := by
  induction left generalizing c x with
  | zero => rfl
  | succ left more => rw [byteAddLoop, more, List.length_set]

theorem byteAddStep (y : List Byte) (yOffset : Int) (i c : Nat) (x : List Byte) :
    byteAddLoop y yOffset (i + 1) c x =
      byteAddLoop y yOffset i
        (if (x.getD i 0).toNat + (if (i : Int) - yOffset ≥ 0 then (y.getD (i - yOffset).toNat 0).toNat else 0) + c > 255
          then 1 else 0)
        (x.set i (BitVec.ofNat 8
          ((x.getD i 0).toNat + (if (i : Int) - yOffset ≥ 0 then (y.getD (i - yOffset).toNat 0).toNat else 0) + c))) :=
  rfl

theorem valueTake {l : List Byte} {n : Nat} (lt : n < l.length) :
    value (l.take (n + 1)) = value (l.take n) * 256 + (l.getD n 0).toNat := by
  rw [List.take_succ_eq_append_getElem lt, valueSnoc, List.getD_eq_getElem?_getD, List.getElem?_eq_getElem lt,
    Option.getD_some]

theorem carried (a b s m : Nat) (small : s < 512) :
    (a + b + if s > 255 then 1 else 0) % m * 256 + s % 256 = ((a + b) * 256 + s) % (256 * m) := by
  have low : ((a + b) * 256 + s) % 256 = s % 256 := by omega
  have high : ((a + b) * 256 + s) / 256 = a + b + if s > 255 then 1 else 0 := by
    split <;> omega
  rw [Nat.mod_mul, low, high]
  omega

theorem byteAddSum {y : List Byte} {k : Nat} (left c : Nat) (x : List Byte) (below : left ≤ x.length)
    (offset : x.length = k + y.length) (carry : c ≤ 1) :
    value ((byteAddLoop y k left c x).take left) =
        (value (x.take left) + value (y.take (left - k)) + c) % 256 ^ left ∧
      (byteAddLoop y k left c x).drop left = x.drop left := by
  induction left generalizing c x with
  | zero =>
    constructor
    · simp [Nat.mod_one]
    · rfl
  | succ left more =>
    have inside : left < x.length := below
    obtain ⟨added, isAdded, part⟩ : ∃ added : Byte,
        (if (left : Int) - (k : Int) ≥ 0 then (y.getD ((left : Int) - k).toNat 0).toNat else 0) = added.toNat ∧
        value (y.take (left + 1 - k)) = value (y.take (left - k)) * 256 + added.toNat := by
      by_cases reach : k ≤ left
      · refine ⟨y.getD (left - k) 0, ?_, ?_⟩
        · rw [if_pos (by omega), show ((left : Int) - k).toNat = left - k by omega]
        · rw [show left + 1 - k = left - k + 1 by omega]
          exact valueTake (by omega)
      · refine ⟨0, if_neg (by omega), ?_⟩
        have none_ : left + 1 - k = 0 := by omega
        have before : left - k = 0 := by omega
        simp [none_, before]
    have smallX := (x.getD left 0).isLt
    have smallY := added.isLt
    rw [byteAddStep, isAdded, part, valueTake inside]
    generalize total : (x.getD left 0).toNat + added.toNat + c = s
    have next : x.set left (BitVec.ofNat 8 s) = x.take left ++ BitVec.ofNat 8 s :: x.drop (left + 1) := by
      rw [List.set_eq_take_append_cons_drop, if_pos inside]
    have front : (x.take left).length = left := by rw [List.length_take]; omega
    obtain ⟨sum, behind⟩ := more (if s > 255 then 1 else 0) (x.set left (BitVec.ofNat 8 s))
      (by rw [List.length_set]; omega) (by rw [List.length_set]; exact offset) (by split <;> omega)
    generalize byteAddLoop y k left (if s > 255 then 1 else 0) (x.set left (BitVec.ofNat 8 s)) = z at sum behind ⊢
    rw [next, List.take_append_of_le_length front.ge, List.take_of_length_le front.le] at sum
    rw [next, List.drop_append_of_le_length front.ge, List.drop_of_length_le front.le, List.nil_append] at behind
    have cut : z.take (left + 1) = z.take left ++ [BitVec.ofNat 8 s] := by
      rw [List.take_add, behind]
      rfl
    constructor
    · have byte : (BitVec.ofNat 8 s).toNat = s % 256 := BitVec.toNat_ofNat s 8
      rw [cut, valueSnoc, sum, byte, carried _ _ _ _ (by omega), Nat.pow_succ, Nat.mul_comm (256 ^ left)]
      exact congrArg (fun n => n % (256 * 256 ^ left)) (by omega)
    · rw [← List.drop_drop, behind]
      rfl

theorem byteAddLengthSame (x y : List Byte) : (byteAdd x y).length = x.length := byteAddLength _ _ _ _ _

theorem byteAddValue {x y : List Byte} (le : y.length ≤ x.length) :
    value (byteAdd x y) = (value x + value y) % 256 ^ x.length := by
  have offset : (x.length : Int) - y.length = ((x.length - y.length : Nat) : Int) := by omega
  have sum := (@byteAddSum y (x.length - y.length) x.length 0 x le_rfl (by omega) (Nat.zero_le _)).1
  rw [← offset, List.take_of_length_le (byteAddLength _ _ _ _ _).le, List.take_of_length_le le_rfl,
    show x.length - (x.length - y.length) = y.length by omega, List.take_of_length_le le_rfl, Nat.add_zero] at sum
  exact sum

theorem modulusBytes : 256 ^ seedlen = Automaton.modulus := by
  have bits : seedLength = 8 * seedlen := rfl
  have byte : 256 = 2 ^ 8 := rfl
  rw [Automaton.modulus, bits, Nat.pow_mul, ← byte]

theorem wordBytesValue (n : BitVec 32) : value (wordBytes n) = n.toNat := by
  have small := n.isLt
  simp only [value, wordBytes, List.foldl_cons, List.foldl_nil, BitVec.extractLsb'_toNat, Nat.shiftRight_eq_div_pow]
  omega

theorem wordBytesEncode (n : BitVec 32) : wordBytes n = encode 4 n.toNat := by
  rw [← wordBytesValue]
  exact (encodeValue (wordBytes n)).symm

section Blocks

variable {block : Nat → List Byte} {j n : Nat}

theorem copiedNext (each : ∀ j, (block j).length = 32) (below : j < (n + 31) / 32) :
    (blocks block j).take n ++ copied (j + 1) ((n + 31) / 32) n (block j) = (blocks block (j + 1)).take n := by
  have length := blocksLength each j
  have all : (blocks block j).take n = blocks block j := List.take_of_length_le (by omega)
  rw [all, copied]
  split
  · next whole =>
    rw [blocksSucc, List.take_of_length_le]
    rw [List.length_append, length, each]
    omega
  · next part =>
    have cut := blocksCut each (n % 32) j
    rw [show j * 32 + n % 32 = n by omega] at cut
    exact cut.symm

theorem hashDfLoopBlocks {input numBytes : List Byte} (short : (n + 31) / 32 ≤ 255)
    (isBlock : ∀ j, block j = (sha256 ([BitVec.ofNat 8 (j + 1)] ++ numBytes ++ input)).toList) (turns : Nat)
    (le : j ≤ (n + 31) / 32) (enough : (n + 31) / 32 < j + turns) :
    hashDfLoop sha256 input numBytes ((n + 31) / 32) n turns (BitVec.ofNat 8 (j + 1)) ((blocks block j).take n) =
      (blocks block ((n + 31) / 32)).take n := by
  have each : ∀ j, (block j).length = 32 := fun j => by rw [isBlock, Vector.length_toList]
  induction turns generalizing j with
  | zero => omega
  | succ turns more =>
    rw [hashDfLoop]
    rcases Nat.lt_or_eq_of_le le with below | done
    · have counter : (BitVec.ofNat 8 (j + 1)).toNat = j + 1 := by
        rw [BitVec.toNat_ofNat]
        omega
      have runs : (BitVec.ofNat 8 (j + 1)).toNat ≤ (n + 31) / 32 ∧ BitVec.ofNat 8 (j + 1) ≠ 0 := by
        refine ⟨by omega, fun zero => ?_⟩
        rw [zero] at counter
        exact absurd counter (Nat.succ_ne_zero j).symm
      have next : BitVec.ofNat 8 (j + 1) + 1 = BitVec.ofNat 8 (j + 1 + 1) := (BitVec.ofNat_add (j + 1) 1).symm
      rw [if_pos runs]
      dsimp only
      rw [counter, next, ← isBlock, copiedNext each below]
      exact more below (by omega)
    · rw [if_neg, done]
      rintro ⟨counted, nonzero⟩
      rw [BitVec.toNat_ofNat] at counted
      have wrapped : j + 1 = 256 := by omega
      rw [wrapped] at nonzero
      exact nonzero rfl

theorem hashDfBlocks (input : List Byte) (short : n ≤ 255 * 32) :
    hashDf sha256 input n = some (Automaton.hashDf sha256 input n) := by
  have bits : wordBytes (BitVec.ofNat 32 (n * 8)) = encode 4 (8 * n) := by
    rw [wordBytesEncode, BitVec.toNat_ofNat, Nat.mod_eq_of_lt (by omega), Nat.mul_comm]
  rw [hashDf, if_neg (by omega), bits, Automaton.hashDf]
  have loop := @hashDfLoopBlocks sha256 (fun j => (sha256 (BitVec.ofNat 8 (j + 1) :: (encode 4 (8 * n) ++ input))).toList)
    0 n input (encode 4 (8 * n)) (by omega) (fun _ => rfl) 256 (Nat.zero_le _) (by omega)
  rw [show (blocks (fun j => (sha256 (BitVec.ofNat 8 (j + 1) :: (encode 4 (8 * n) ++ input))).toList) 0).take n = [] from
    List.take_nil] at loop
  exact congrArg some loop

theorem hashGenLoopBlocks {comp comp' out data : List Byte} {v : Nat}
    (isBlock : ∀ j, block j = (sha256 (encode seedlen ((v + j) % Automaton.modulus))).toList) (left : Nat)
    (count : j + left = (n + 31) / 32) (length : data.length = seedlen) (isData : value data = (v + j) % Automaton.modulus)
    (done : hashGenLoop sha256 ((n + 31) / 32) n left (j + 1) data comp ((blocks block j).take n) = some (out, comp')) :
    out = (blocks block ((n + 31) / 32)).take n := by
  have each : ∀ j, (block j).length = 32 := fun j => by rw [isBlock, Vector.length_toList]
  induction left generalizing j data comp with
  | zero =>
    cases done
    rw [← count]
    rfl
  | succ left more =>
    rw [hashGenLoop] at done
    have hash : (sha256 data).toList = block j := by rw [isBlock, ← isData, ← length, encodeValue]
    split at done
    · cases done
    · rw [hash, copiedNext each (by omega)] at done
      refine more (by omega) ((byteAddLengthSame _ _).trans length) ?_ done
      have one : value [1] = 1 := rfl
      rw [byteAddValue (by rw [length]; decide), isData, length, modulusBytes, one, Nat.mod_add_mod, Nat.add_assoc]

end Blocks

structure Represents (inst : HashDrbgCtx) (s : Automaton.State) : Prop where
  state : inst.state = s.state
  interval : inst.reseedInterval.toNat = s.interval
  counter : inst.reseedCount.toNat = s.counter % 2 ^ 32
  vLength : inst.v.length = seedlen
  cLength : inst.c.length = seedlen
  v : value inst.v = s.v
  c : value inst.c = s.c

variable {s : Automaton.State}

theorem zerosValue (n : Nat) : value (zeros n) = 0 := by
  induction n with
  | zero => rfl
  | succ n more =>
    rw [zeros, List.replicate_succ', valueSnoc]
    change value (zeros n) * 256 + 0 = 0
    rw [more]

theorem startRepresents : Represents startInstance Automaton.start :=
  ⟨rfl, rfl, rfl, List.length_replicate, List.length_replicate, zerosValue _, zerosValue _⟩

theorem Represents.bytes (represents : Represents inst s) : encode seedlen s.v = inst.v := by
  rw [← represents.v, ← represents.vLength, encodeValue]

theorem hashDfLength (input : List Byte) (n : Nat) : (Automaton.hashDf sha256 input n).length = n := by
  rw [Automaton.hashDf, List.length_take, @blocksLength _ _ 32 fun _ => Vector.length_toList]
  omega

theorem seedRepresents {seed v c : List Byte} (state : inst.state = s.state)
    (interval : inst.reseedInterval.toNat = s.interval)
    (isV : hashDf sha256 seed seedlen = some v) (isC : hashDf sha256 (0 :: v) seedlen = some c) :
    Represents { inst with v, c, reseedCount := 1 } (Automaton.seeded sha256 seed s) := by
  rw [hashDfBlocks seed (by decide)] at isV
  cases isV
  have back := encodeValue (Automaton.hashDf sha256 seed seedlen)
  rw [hashDfLength] at back
  rw [hashDfBlocks _ (by decide)] at isC
  cases isC
  refine ⟨state, interval, rfl, hashDfLength _ _, hashDfLength _ _, rfl, ?_⟩
  change _ = value (Automaton.hashDf sha256 (0 :: encode seedlen (value (Automaton.hashDf sha256 seed seedlen))) seedlen)
  rw [back]

theorem instantiateRefines {persStr entropy nonce : List Byte} {interval : BitVec 32} (represents : Represents inst s)
    (done : hashDrbgInstantiateAlg sha256 persStr entropy nonce interval inst = (result, inst')) :
    (Automaton.instantiate sha256 persStr entropy nonce interval.toNat s).1 = result ∧
      Represents inst' (Automaton.instantiate sha256 persStr entropy nonce interval.toNat s).2 := by
  unfold hashDrbgInstantiateAlg at done
  unfold Automaton.instantiate
  dsimp only at done
  split at done
  · next long =>
    cases done
    rw [if_pos long]
    exact ⟨rfl, rfl, rfl, rfl, represents.vLength, represents.cLength, represents.v, represents.c⟩
  · next short =>
    rw [if_neg short]
    have isV := @hashDfBlocks sha256 seedlen (entropy ++ nonce ++ persStr) (by decide)
    have isC := @hashDfBlocks sha256 seedlen (0 :: Automaton.hashDf sha256 (entropy ++ nonce ++ persStr) seedlen)
      (by decide)
    simp only [isV, isC] at done
    cases done
    have started : Represents _ _ := @seedRepresents sha256
      { inst with comp := zeros 32, state := .instantiated, reseedInterval := interval }
      { s with state := .instantiated, interval := interval.toNat } _ _ _ rfl rfl isV isC
    exact ⟨rfl, started⟩

theorem reseedAlgRefines {addInput entropy : List Byte} (represents : Represents inst s) (ready : inst.state = .instantiated)
    (short : ¬ (addInput.length > addInputMaxLen ∨ entropy.length > entropyMaxLen)) :
    ∃ inst', hashDrbgReseedAlg sha256 addInput entropy inst = (⟨.success, []⟩, inst') ∧
      Represents inst' (Automaton.reseed sha256 addInput entropy s) := by
  have isV := @hashDfBlocks sha256 seedlen (1 :: (inst.v ++ entropy ++ addInput)) (by decide)
  have isC := @hashDfBlocks sha256 seedlen
    (0 :: Automaton.hashDf sha256 (1 :: (inst.v ++ entropy ++ addInput)) seedlen) (by decide)
  refine ⟨{ inst with
    v := Automaton.hashDf sha256 (1 :: (inst.v ++ entropy ++ addInput)) seedlen
    c := Automaton.hashDf sha256 (0 :: Automaton.hashDf sha256 (1 :: (inst.v ++ entropy ++ addInput)) seedlen) seedlen
    reseedCount := 1 }, ?_, ?_⟩
  · unfold hashDrbgReseedAlg
    rw [if_neg (not_not_intro ready), if_neg short]
    dsimp only
    rw [isV]
    dsimp only
    rw [isC]
  · rw [Automaton.reseed, represents.bytes]
    exact seedRepresents represents.state represents.interval isV isC

theorem reseedRefines {addInput : List Byte} {entropy : Option (Vector Byte 32)} (represents : Represents inst s)
    (ready : inst.state = .instantiated) (short : ¬ addInput.length > addInputMaxLen) :
    match entropy with
    | none => hashDrbgReseed sha256 addInput entropy inst = (⟨.catastrophicErrorFlag, []⟩, inst)
    | some bytes => ∃ inst', hashDrbgReseed sha256 addInput entropy inst = (⟨.success, []⟩, inst') ∧
        Represents inst' (Automaton.reseed sha256 addInput bytes.toList s) := by
  unfold hashDrbgReseed
  rw [if_neg (not_not_intro ready), if_neg short]
  cases entropy with
  | none => rfl
  | some bytes =>
    refine reseedAlgRefines represents ready fun long => long.elim short ?_
    rw [Vector.length_toList]
    decide

variable {outLen : Nat}

theorem hashGenRefines (length : inst.v.length = seedlen) (fits : ¬ outLen > requestMax)
    (done : hashGen sha256 outLen inst = some (result, inst')) :
    result = ⟨.success, Automaton.hashGen sha256 (value inst.v) outLen⟩ ∧ ∃ comp, inst' = { inst with comp } := by
  unfold hashGen at done
  rw [if_neg fits] at done
  obtain ⟨⟨out, comp⟩, loop, same⟩ := Option.map_eq_some_iff.1 done
  cases same
  have small : (value inst.v + 0) % Automaton.modulus = value inst.v := by
    have lt := valueLt inst.v
    rw [length, modulusBytes] at lt
    rw [Nat.add_zero, Nat.mod_eq_of_lt lt]
  have blocks := @hashGenLoopBlocks sha256 (fun j => (sha256 (encode seedlen ((value inst.v + j) % Automaton.modulus))).toList)
    0 outLen inst.comp comp out inst.v (value inst.v) (fun _ => rfl) ((outLen + 31) / 32) (Nat.zero_add _) length small.symm
    (by rw [BigEndian.blocks, List.range_zero, List.flatMap_nil, List.take_nil]; exact loop)
  exact ⟨congrArg (Result.mk _) blocks, comp, rfl⟩

theorem inputRefines (addInput : List Byte) (represents : Represents inst s) :
    Represents (if addInput.length > 0 then { inst with v := byteAdd inst.v (sha256 (2 :: (inst.v ++ addInput))).toList }
        else inst)
      { s with v := if addInput ≠ [] then
          (s.v + value (sha256 (2 :: (encode seedlen s.v ++ addInput))).toList) % Automaton.modulus else s.v } := by
  by_cases given : addInput = []
  · rw [if_neg (by rw [given]; decide), if_neg (not_not_intro given)]
    exact represents
  · rw [if_pos (List.length_pos_iff.2 given), if_pos given]
    refine ⟨represents.state, represents.interval, represents.counter,
      (byteAddLengthSame _ _).trans represents.vLength, represents.cLength, ?_, represents.c⟩
    change value (byteAdd inst.v _) = _
    rw [byteAddValue (by rw [Vector.length_toList, represents.vLength]; decide), represents.vLength, modulusBytes,
      represents.v, represents.bytes]

variable {addInput : List Byte}

theorem generateAlgRefines (represents : Represents inst s)
    (ready : inst.state = .instantiated) (fits : ¬ outLen > requestMax) (short : ¬ addInput.length > addInputMaxLen)
    (narrow : s.counter < 2 ^ 32) (done : hashDrbgGenerateAlg sha256 addInput outLen inst = some (result, inst')) :
    (Automaton.generate sha256 addInput outLen s).1 = result ∧
      Represents inst' (Automaton.generate sha256 addInput outLen s).2 := by
  have mixed := @inputRefines sha256 inst s addInput represents
  unfold hashDrbgGenerateAlg at done
  rw [if_neg (not_not_intro ready), if_neg fits, if_neg short] at done
  unfold Automaton.generate
  dsimp only at done ⊢
  generalize (if addInput.length > 0 then { inst with v := byteAdd inst.v (sha256 (2 :: (inst.v ++ addInput))).toList }
    else inst) = mid at mixed done
  generalize (if addInput ≠ [] then (s.v + value (sha256 (2 :: (encode seedlen s.v ++ addInput))).toList) %
    Automaton.modulus else s.v) = v at mixed ⊢
  obtain ⟨⟨generated, after⟩, gen, same⟩ := Option.map_eq_some_iff.1 done
  obtain ⟨isGenerated, comp, isAfter⟩ := hashGenRefines mixed.vLength fits gen
  cases isGenerated
  cases isAfter
  cases same
  have bytes : encode seedlen v = mid.v := mixed.bytes
  have isV : value mid.v = v := mixed.v
  have small := valueLt mid.v
  have count : mid.reseedCount.toNat = s.counter := mixed.counter.trans (Nat.mod_eq_of_lt narrow)
  rw [isV, bytes]
  refine ⟨rfl, mixed.state, mixed.interval, ?_, ?_, mixed.cLength, ?_, mixed.c⟩
  · change (mid.reseedCount + 1).toNat = (s.counter + 1) % 2 ^ 32
    rw [BitVec.toNat_add, count]
    rfl
  · change (byteAdd (byteAdd (byteAdd mid.v mid.c) _) _).length = seedlen
    rw [byteAddLengthSame, byteAddLengthSame, byteAddLengthSame, mixed.vLength]
  · change value (byteAdd (byteAdd (byteAdd mid.v mid.c) (sha256 (3 :: mid.v)).toList) (wordBytes mid.reseedCount)) =
      (v + value (sha256 (3 :: mid.v)).toList + s.c + s.counter) % Automaton.modulus
    have first := byteAddLengthSame mid.v mid.c
    have second := (byteAddLengthSame (byteAdd mid.v mid.c) (sha256 (3 :: mid.v)).toList).trans first
    have isC : value mid.c = s.c := mixed.c
    have four : (wordBytes mid.reseedCount).length ≤ seedlen := show 4 ≤ seedlen by decide
    rw [byteAddValue (by rw [second, mixed.vLength]; exact four), byteAddValue (by rw [first, Vector.length_toList, mixed.vLength]; decide),
      byteAddValue (by rw [mixed.vLength]; exact mixed.cLength.le), second, first, mixed.vLength, modulusBytes, isV, isC,
      wordBytesValue, count, Nat.mod_add_mod, Nat.add_assoc ((v + s.c) % Automaton.modulus), Nat.mod_add_mod]
    exact congrArg (· % Automaton.modulus) (by omega)

def Counted (call : Call) (s : Automaton.State) : Prop :=
  match call with
  | .generate _ _ predResReq _ => s.state = .instantiated → predResReq ≠ 1 → s.counter < 2 ^ 32
  | .generateAlg _ _ => s.state = .instantiated → s.counter < 2 ^ 32
  | _ => True

theorem generateRefines {predResReq : BitVec 32} {entropy : Option (Vector Byte 32)}
    (represents : Represents inst s) (counted : Counted (.generate addInput outLen predResReq entropy) s)
    (done : hashDrbgGenerate sha256 addInput outLen predResReq entropy inst = some (result, inst')) :
    (Automaton.step sha256 (.generate addInput outLen predResReq entropy) s).1 = result ∧
      Represents inst' (Automaton.step sha256 (.generate addInput outLen predResReq entropy) s).2 := by
  unfold hashDrbgGenerate at done
  unfold Automaton.step
  dsimp only
  split at done
  · next absent =>
    cases done
    rw [if_pos (Or.inl (represents.state ▸ absent))]
    exact ⟨rfl, represents⟩
  next ready =>
  have ready := not_not.1 ready
  have there : s.state = .instantiated := represents.state ▸ ready
  split at done
  · next much =>
    cases done
    rw [if_pos (Or.inr (Or.inl much))]
    exact ⟨rfl, represents⟩
  next fits =>
  split at done
  · next long =>
    cases done
    rw [if_pos (Or.inr (Or.inr long))]
    exact ⟨rfl, represents⟩
  next short =>
  rw [if_neg (not_or.2 ⟨not_not_intro there, not_or.2 ⟨fits, short⟩⟩)]
  have due : (inst.reseedCount > inst.reseedInterval ∨ predResReq = 1) ↔ (s.counter > s.interval ∨ predResReq = 1) := by
    by_cases asked : predResReq = 1
    · exact ⟨fun _ => Or.inr asked, fun _ => Or.inr asked⟩
    · have count : inst.reseedCount.toNat = s.counter := represents.counter.trans (Nat.mod_eq_of_lt (counted there asked))
      rw [gt_iff_lt, BitVec.lt_def, count, represents.interval]
  split at done
  · next reseeding =>
    rw [if_pos (due.1 reseeding)]
    have reseeded := @reseedRefines sha256 inst s addInput entropy represents ready short
    cases entropy with
    | none =>
      dsimp only at reseeded
      rw [reseeded] at done
      cases done
      exact ⟨rfl, represents⟩
    | some bytes =>
      obtain ⟨mid, isMid, mixed⟩ := reseeded
      rw [isMid] at done
      exact generateAlgRefines mixed (mixed.state.trans there) fits (by decide) (show 1 < 2 ^ 32 by decide) done
  · next fresh =>
    rw [if_neg fun again => fresh (due.2 again)]
    exact generateAlgRefines represents ready fits short (counted there fun asked => fresh (Or.inr asked)) done

theorem stepRefines (represents : Represents inst s) (counted : Counted call s)
    (done : call.exec sha256 inst = some (result, inst')) :
    (Automaton.step sha256 call s).1 = result ∧ Represents inst' (Automaton.step sha256 call s).2 := by
  cases call with
  | instantiateAlg persStr entropy nonce reseedInterval => exact instantiateRefines represents (Option.some.inj done)
  | reseedAlg addInput entropy =>
    have done := Option.some.inj done
    unfold Automaton.step
    dsimp only
    by_cases ready : inst.state = .instantiated
    · by_cases long : addInput.length > addInputMaxLen ∨ entropy.length > entropyMaxLen
      · unfold hashDrbgReseedAlg at done
        rw [if_neg (not_not_intro ready), if_pos long] at done
        cases done
        rw [if_pos (Or.inr long)]
        exact ⟨rfl, represents⟩
      · obtain ⟨after, isAfter, mixed⟩ := @reseedAlgRefines sha256 inst s addInput entropy represents ready long
        rw [isAfter] at done
        cases done
        rw [if_neg (not_or.2 ⟨not_not_intro (represents.state ▸ ready), long⟩)]
        exact ⟨rfl, mixed⟩
    · unfold hashDrbgReseedAlg at done
      rw [if_pos ready] at done
      cases done
      rw [if_pos (Or.inl (represents.state ▸ ready))]
      exact ⟨rfl, represents⟩
  | reseed addInput entropy =>
    have done := Option.some.inj done
    unfold Automaton.step
    dsimp only
    by_cases ready : inst.state = .instantiated
    · by_cases long : addInput.length > addInputMaxLen
      · unfold hashDrbgReseed at done
        rw [if_neg (not_not_intro ready), if_pos long] at done
        cases done
        rw [if_pos (Or.inr long)]
        exact ⟨rfl, represents⟩
      · have reseeded := @reseedRefines sha256 inst s addInput entropy represents ready long
        rw [if_neg (not_or.2 ⟨not_not_intro (represents.state ▸ ready), long⟩)]
        cases entropy with
        | none =>
          dsimp only at reseeded
          rw [reseeded] at done
          cases done
          exact ⟨rfl, represents⟩
        | some bytes =>
          obtain ⟨after, isAfter, mixed⟩ := reseeded
          rw [isAfter] at done
          cases done
          exact ⟨rfl, mixed⟩
    · unfold hashDrbgReseed at done
      rw [if_pos ready] at done
      cases done
      rw [if_pos (Or.inl (represents.state ▸ ready))]
      exact ⟨rfl, represents⟩
  | generate addInput outLen predResReq entropy => exact generateRefines represents counted done
  | generateAlg addInput outLen =>
    change hashDrbgGenerateAlg sha256 addInput outLen inst = some (result, inst') at done
    unfold Automaton.step
    dsimp only
    by_cases refused : s.state ≠ .instantiated ∨ outLen > requestMax ∨ addInput.length > addInputMaxLen
    · rw [if_pos refused]
      unfold hashDrbgGenerateAlg at done
      rw [represents.state] at done
      rcases refused with absent | much | long
      · rw [if_pos absent] at done
        cases done
        exact ⟨rfl, represents⟩
      · rw [if_pos much, ite_self] at done
        cases done
        exact ⟨rfl, represents⟩
      · rw [if_pos long, ite_self, ite_self] at done
        cases done
        exact ⟨rfl, represents⟩
    · rw [if_neg refused]
      obtain ⟨there, accepted⟩ := not_or.1 refused
      obtain ⟨fits, short⟩ := not_or.1 accepted
      have there := not_not.1 there
      exact generateAlgRefines represents (represents.state.trans there) fits short (counted there) done
  | uninstantiate =>
    have done := Option.some.inj done
    unfold hashDrbgUninstantiate at done
    unfold Automaton.step
    dsimp only
    split at done
    · next absent =>
      cases done
      rw [if_pos (represents.state ▸ absent)]
      exact ⟨rfl, represents⟩
    · next there =>
      cases done
      rw [if_neg fun absent => there (represents.state.trans absent)]
      exact ⟨rfl, rfl, represents.interval, represents.counter, List.length_replicate, List.length_replicate,
        zerosValue _, zerosValue _⟩

def run (sha256 : Sha256) (inst : HashDrbgCtx) : List Call → Option (List Result × HashDrbgCtx)
  | [] => some ([], inst)
  | call :: rest =>
    match call.exec sha256 inst with
    | none => none
    | some (result, inst) => (run sha256 inst rest).map fun (results, inst) => (result :: results, inst)

def Automaton.run (sha256 : Sha256) (s : Automaton.State) : List Call → List Result × Automaton.State
  | [] => ([], s)
  | call :: rest =>
    let (result, s) := Automaton.step sha256 call s
    let (results, s) := Automaton.run sha256 s rest
    (result :: results, s)

def CountedAll (sha256 : Sha256) (s : Automaton.State) : List Call → Prop
  | [] => True
  | call :: rest => Counted call s ∧ CountedAll sha256 (Automaton.step sha256 call s).2 rest

def Call.Positive : Call → Prop
  | .instantiateAlg _ _ _ reseedInterval => reseedInterval ≠ 0
  | _ => True

theorem automatonAppend (calls more : List Call) (s : Automaton.State) :
    Automaton.run sha256 s (calls ++ more) =
      ((Automaton.run sha256 s calls).1 ++ (Automaton.run sha256 (Automaton.run sha256 s calls).2 more).1,
        (Automaton.run sha256 (Automaton.run sha256 s calls).2 more).2) := by
  induction calls generalizing s with
  | nil => rfl
  | cons call rest later =>
    rw [List.cons_append, Automaton.run, Automaton.run]
    dsimp only
    rw [later]
    rfl

theorem countedAppend {calls more : List Call} (counted : CountedAll sha256 s (calls ++ more)) :
    CountedAll sha256 s calls ∧ CountedAll sha256 (Automaton.run sha256 s calls).2 more := by
  induction calls generalizing s with
  | nil => exact ⟨trivial, counted⟩
  | cons call rest later =>
    obtain ⟨first, others⟩ := later counted.2
    exact ⟨⟨counted.1, first⟩, others⟩

theorem runCons {rest : List Call} {results : List Result} {mid : HashDrbgCtx} (done : call.exec sha256 inst = some (result, mid))
    (ran : run sha256 mid rest = some (results, inst')) : run sha256 inst (call :: rest) = some (result :: results, inst') := by
  rw [run, done]
  dsimp only
  rw [ran]
  rfl

theorem runRefines {calls : List Call} {results : List Result} (represents : Represents inst s)
    (counted : CountedAll sha256 s calls) (ran : run sha256 inst calls = some (results, inst')) :
    (Automaton.run sha256 s calls).1 = results ∧ Represents inst' (Automaton.run sha256 s calls).2 := by
  induction calls generalizing inst s results with
  | nil =>
    cases ran
    exact ⟨rfl, represents⟩
  | cons call rest later =>
    rw [run] at ran
    split at ran
    · cases ran
    · next result mid done =>
      obtain ⟨⟨others, last⟩, ran, same⟩ := Option.map_eq_some_iff.1 ran
      cases same
      obtain ⟨isResult, mixed⟩ := stepRefines represents counted.1 done
      obtain ⟨isOthers, final⟩ := later mixed counted.2 ran
      exact ⟨congrArg₂ List.cons isResult isOthers, final⟩

namespace Automaton

theorem stepSilent (out : (step sha256 call s).1.out ≠ []) : s.state = .instantiated := by
  by_contra absent
  apply out
  cases call with
  | instantiateAlg persStr entropy nonce interval =>
    simp only [step, instantiate]
    split <;> rfl
  | reseedAlg | reseed | generate | generateAlg => simp [step, absent, failed]
  | uninstantiate =>
    simp only [step]
    split <;> rfl

def Ready (s : State) : Prop := s.state = .instantiated → 1 ≤ s.interval

theorem stepReady (ready : Ready s) (positive : call.Positive) : Ready (step sha256 call s).2 := by
  cases call with
  | instantiateAlg persStr entropy nonce interval =>
    simp only [step, instantiate]
    split
    · exact fun absent => InstanceState.noConfusion absent
    · exact fun _ => Nat.pos_of_ne_zero fun zero => positive (BitVec.eq_of_toNat_eq zero)
  | reseedAlg addInput entropy =>
    simp only [step]
    split <;> exact ready
  | reseed addInput entropy =>
    simp only [step]
    split
    · exact ready
    · cases entropy <;> exact ready
  | generate addInput outLen predResReq entropy =>
    simp only [step]
    split
    · exact ready
    · split
      · cases entropy <;> exact ready
      · exact ready
  | generateAlg addInput outLen =>
    simp only [step]
    split <;> exact ready
  | uninstantiate =>
    simp only [step]
    split
    · exact ready
    · exact fun absent => InstanceState.noConfusion absent

theorem runReady {calls : List Call} (ready : Ready s) (positive : ∀ call ∈ calls, call.Positive) :
    Ready (run sha256 s calls).2 := by
  induction calls generalizing s with
  | nil => exact ready
  | cons call rest later =>
    exact later (stepReady ready (positive call List.mem_cons_self)) fun other member =>
      positive other (List.mem_cons_of_mem call member)

theorem generateLimited {predResReq : BitVec 32} {entropy : Option (Vector Byte 32)}
    (ready : Ready s) (answered : (step sha256 (.generate addInput outLen predResReq entropy) s).1.code = .success) :
    (step sha256 (.generate addInput outLen predResReq entropy) s).2.counter ≤
      (step sha256 (.generate addInput outLen predResReq entropy) s).2.interval + 1 := by
  simp only [step] at answered ⊢
  split at answered
  · cases answered
  · next accepted =>
    rw [if_neg accepted]
    have there := not_not.1 (not_or.1 accepted).1
    split at answered
    · next reseeding =>
      rw [if_pos reseeding]
      cases entropy with
      | none => cases answered
      | some bytes =>
        have one : 1 ≤ s.interval := ready there
        change 1 + 1 ≤ s.interval + 1
        omega
    · next fresh =>
      rw [if_neg fresh]
      have within := (not_or.1 fresh).1
      change s.counter + 1 ≤ s.interval + 1
      omega

end Automaton

structure Refines (sha256 : Sha256) (calls : List Call) (call : Call) (results : List Result) (inst : HashDrbgCtx)
    (result : Result) (inst' : HashDrbgCtx) : Prop where
  results : (Automaton.run sha256 Automaton.start (calls ++ [call])).1 = results ++ [result]
  represents : Represents inst' (Automaton.run sha256 Automaton.start (calls ++ [call])).2
  silent : result.out ≠ [] → inst.state = .instantiated
  limited : ∀ addInput outLen predResReq entropy, call = .generate addInput outLen predResReq entropy →
    result.code = .success → (Automaton.run sha256 Automaton.start (calls ++ [call])).2.counter ≤
      (Automaton.run sha256 Automaton.start (calls ++ [call])).2.interval + 1

theorem hashDrbgRefines (sha256 : Sha256) (calls : List Call) (call : Call) (results : List Result)
    (inst inst' : HashDrbgCtx) (result : Result) (ran : run sha256 startInstance calls = some (results, inst))
    (done : call.exec sha256 inst = some (result, inst'))
    (counted : CountedAll sha256 Automaton.start (calls ++ [call])) (positive : ∀ other ∈ calls ++ [call], other.Positive) :
    Refines sha256 calls call results inst result inst' := by
  obtain ⟨before, last⟩ := countedAppend counted
  obtain ⟨isResults, mixed⟩ := runRefines startRepresents before ran
  obtain ⟨isResult, final⟩ := stepRefines mixed last.1 done
  have whole : Automaton.run sha256 Automaton.start (calls ++ [call]) =
      (results ++ [result], (Automaton.step sha256 call (Automaton.run sha256 Automaton.start calls).2).2) := by
    rw [automatonAppend, isResults, ← isResult]
    rfl
  refine ⟨by rw [whole], by rw [whole]; exact final, fun out => ?_, ?_⟩
  · rw [← isResult] at out
    exact mixed.state.trans (Automaton.stepSilent out)
  · rintro addInput outLen predResReq entropy rfl success
    rw [whole]
    rw [← isResult] at success
    refine Automaton.generateLimited (Automaton.runReady ?_ fun other member => ?_) success
    · exact fun absent => absurd absent (by decide)
    · exact positive other (List.mem_append_left _ member)

def lengthHash : Sha256 := fun input => Vector.replicate 32 (BitVec.ofNat 8 (input.length + 1))

theorem hashDrbgRefinesExample : ∃ results inst result inst', result.out.length = 3 ∧
    Refines lengthHash [.instantiateAlg [5] [1, 2] [3] 1] (.generate [7] 3 0 none) results inst result inst' := by
  refine ⟨_, _, _, _, ?_, hashDrbgRefines lengthHash _ _ _ _ _ _ rfl rfl ⟨trivial, fun _ _ => ?_, trivial⟩
    fun call member => ?_⟩
  · rfl
  · decide
  · rcases List.mem_append.1 member with first | last
    · rw [List.mem_singleton.1 first]
      exact fun zero => absurd zero (by decide)
    · rw [List.mem_singleton.1 last]
      trivial

def emptyRequest : Call := .generate [] 0 0 none

theorem emptyAnswered (n : Nat) (inst : HashDrbgCtx) (ready : inst.state = .instantiated)
    (unbounded : inst.reseedInterval = BitVec.allOnes 32) :
    ∃ inst', run sha256 inst (List.replicate n emptyRequest) = some (List.replicate n ⟨.success, []⟩, inst') := by
  induction n generalizing inst with
  | zero => exact ⟨inst, rfl⟩
  | succ n more =>
    have due : ¬ (inst.reseedCount > inst.reseedInterval ∨ (0 : BitVec 32) = 1) := by
      rintro (above | asked)
      · rw [unbounded, gt_iff_lt, BitVec.lt_def, BitVec.toNat_allOnes] at above
        have := inst.reseedCount.isLt
        omega
      · exact absurd asked (by decide)
    have answer : ∃ mid, emptyRequest.exec sha256 inst = some (⟨.success, []⟩, mid) ∧ mid.state = .instantiated ∧
        mid.reseedInterval = BitVec.allOnes 32 := by
      change ∃ mid, hashDrbgGenerate sha256 [] 0 0 none inst = some (⟨.success, []⟩, mid) ∧ _
      unfold hashDrbgGenerate hashDrbgGenerateAlg
      rw [if_neg (not_not_intro ready), if_neg (by decide), if_neg (by decide), if_neg due,
        if_neg (not_not_intro ready), if_neg (by decide), if_neg (by decide)]
      exact ⟨_, rfl, ready, unbounded⟩
    obtain ⟨mid, answered, there, still⟩ := answer
    obtain ⟨last, others⟩ := more mid there still
    exact ⟨last, runCons answered others⟩

theorem emptyCounted (n : Nat) (s : Automaton.State) (ready : s.state = .instantiated) (within : s.counter + n ≤ s.interval + 1) :
    ∃ v, Automaton.run sha256 s (List.replicate n emptyRequest) =
      (List.replicate n ⟨.success, []⟩, { s with counter := s.counter + n, v }) := by
  induction n generalizing s with
  | zero => exact ⟨s.v, rfl⟩
  | succ n more =>
    have accepted : ¬ (s.state ≠ .instantiated ∨ 0 > requestMax ∨ ([] : List Byte).length > addInputMaxLen) :=
      not_or.2 ⟨not_not_intro ready, by decide⟩
    have fresh : ¬ (s.counter > s.interval ∨ (0 : BitVec 32) = 1) := not_or.2 ⟨by omega, by decide⟩
    have answer : Automaton.step sha256 emptyRequest s = Automaton.generate sha256 [] 0 s := by
      change (if _ then _ else if _ then _ else _) = _
      rw [if_neg accepted, if_neg fresh]
    obtain ⟨v, others⟩ := more (Automaton.generate sha256 [] 0 s).2 ready (by
      change s.counter + 1 + n ≤ s.interval + 1
      omega)
    refine ⟨v, ?_⟩
    rw [List.replicate_succ, Automaton.run, answer]
    dsimp only
    rw [others]
    change (_, { s with counter := s.counter + 1 + n, v }) = (_, { s with counter := s.counter + (n + 1), v })
    rw [Nat.add_assoc, Nat.add_comm 1 n]
    rfl

theorem roundParts {n : Nat} (round : n + 1 = 2 ^ 32) : ∃ results inst,
    run sha256 startInstance (.instantiateAlg [] [] [] (BitVec.allOnes 32) :: (List.replicate n emptyRequest ++ [emptyRequest])) =
      some (results, inst) ∧
    (Automaton.run sha256 Automaton.start
      (.instantiateAlg [] [] [] (BitVec.allOnes 32) :: (List.replicate n emptyRequest ++ [emptyRequest]))).1 ≠ results := by
  obtain ⟨seeded, isSeeded, ready, interval⟩ : ∃ mid,
      hashDrbgInstantiateAlg sha256 [] [] [] (BitVec.allOnes 32) startInstance = (⟨.success, []⟩, mid) ∧
      mid.state = .instantiated ∧ mid.reseedInterval = BitVec.allOnes 32 := ⟨_, rfl, rfl, rfl⟩
  obtain ⟨last, answered⟩ := @emptyAnswered sha256 (n + 1) seeded ready interval
  generalize isAutomaton : Automaton.instantiate sha256 [] [] [] (BitVec.allOnes 32).toNat Automaton.start = first
  have firstReady : first.2.state = .instantiated := by rw [← isAutomaton]; rfl
  have firstCounter : first.2.counter = 1 := by rw [← isAutomaton]; rfl
  have firstInterval : first.2.interval = n := by
    rw [← isAutomaton]
    change (BitVec.allOnes 32).toNat = n
    rw [BitVec.toNat_allOnes]
    omega
  obtain ⟨v, counted⟩ := @emptyCounted sha256 n first.2 firstReady (by omega)
  have due : Automaton.step sha256 emptyRequest { first.2 with counter := first.2.counter + n, v } =
      (⟨.catastrophicErrorFlag, []⟩, { first.2 with counter := first.2.counter + n, v }) := by
    change (if _ then _ else if _ then _ else _) = _
    rw [if_neg (not_or.2 ⟨not_not_intro firstReady, by decide⟩),
      if_pos (Or.inl (show first.2.counter + n > first.2.interval by omega))]
  rw [← List.replicate_succ']
  refine ⟨⟨.success, []⟩ :: List.replicate (n + 1) ⟨.success, []⟩, last, ?_, ?_⟩
  · exact runCons (congrArg some isSeeded) answered
  · have ran : (Automaton.run sha256 Automaton.start
        (.instantiateAlg [] [] [] (BitVec.allOnes 32) :: List.replicate (n + 1) emptyRequest)).1 =
        first.1 :: (Automaton.run sha256 first.2 (List.replicate (n + 1) emptyRequest)).1 := by
      rw [Automaton.run, ← isAutomaton]
      rfl
    have requests : List.replicate (n + 1) emptyRequest = List.replicate n emptyRequest ++ [emptyRequest] :=
      List.replicate_succ'
    rw [ran, requests, automatonAppend, counted, List.replicate_succ']
    intro same
    have ends := List.append_inj_right (List.cons.inj same).2 rfl
    rw [Automaton.run, due] at ends
    exact absurd (List.cons.inj ends).1 (by decide)

theorem neverReseeded : ∃ results inst,
    run lengthHash startInstance
        (.instantiateAlg [] [] [] (BitVec.allOnes 32) :: (List.replicate (2 ^ 32 - 1) emptyRequest ++ [emptyRequest])) =
      some (results, inst) ∧
    (Automaton.run lengthHash Automaton.start
        (.instantiateAlg [] [] [] (BitVec.allOnes 32) :: (List.replicate (2 ^ 32 - 1) emptyRequest ++ [emptyRequest]))).1 ≠
      results :=
  roundParts (Nat.sub_add_cancel (Nat.one_le_two_pow))

end Flexbuild.HashDrbg
