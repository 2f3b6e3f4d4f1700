import Mathlib
import Flexbuild.HashDrbgRefinement
import Flexbuild.ScratchBuffers

/-! The local buffers `tmp` of the random generator: what each function copies there, how far the copies
reach, and which bytes are left when it returns. Every byte carries where it came from. -/
namespace Flexbuild.HashDrbgScratch
open HashDrbg BigEndian

inductive Origin where
  | stale | constant | persStr | entropy | nonce | addInput | v
  deriving DecidableEq, Repr

def Secret (origin : Origin) : Prop := origin = .entropy ∨ origin = .nonce ∨ origin = .v
instance (origin) : Decidable (Secret origin) := by unfold Secret; infer_instance

abbrev Cell := Byte × Origin
abbrev Tmp := Scratch Cell

def marked (origin : Origin) (bytes : List Byte) : List Cell := bytes.map (·, origin)
def message (tmp : Tmp) (n : Nat) : List Byte := (tmp.read n).map Prod.fst

def unset (stack : Nat → Byte) : Tmp := ⟨fun i => (stack i, .stale), 0⟩

def instantiateTmp : Nat := 3000
def reseedTmp : Nat := 3000
def generateTmp : Nat := 1000
def cleared : Nat := 1000

structure AlgRun where
  result : Result
  inst : HashDrbgCtx
  tmp : Tmp
  entropy : List Cell
  nonce : List Cell

def setVAndC (sha256 : Sha256) (tmp : Tmp) (n : Nat) (inst : HashDrbgCtx) : Result × HashDrbgCtx × Tmp :=
  match hashDf sha256 (message tmp n) seedlen with
  | none => (failed, inst, tmp)
  | some v =>
    let tmp := (tmp.copy 0 [(0, .constant)]).copy 1 (marked .v v)
    match hashDf sha256 (message tmp (1 + seedlen)) seedlen with
    | none => (failed, { inst with v }, tmp)
    | some c => (⟨.success, []⟩, { inst with v, c }, tmp)

def zeroCell : Cell := (0, .constant)

def wiped (cells : List Cell) : List Cell := cells.map fun _ => zeroCell

def instantiateAlg (sha256 : Sha256) (stack : Nat → Byte) (persStr entropy nonce : List Byte)
    (reseedInterval : BitVec 32) (inst : HashDrbgCtx) : AlgRun :=
  let inst := { inst with state := .error, reseedInterval, reseedCount := 1 }
  let tmp := unset stack
  let entropyCells := marked .entropy entropy
  let nonceCells := marked .nonce nonce
  if persStr.length > persStrMaxLen ∨ entropy.length > entropyMaxLen ∨ nonce.length > nonceMaxLen then
    ⟨failed, inst, tmp, entropyCells, nonceCells⟩
  else
    let tmp := tmp.copy 0 entropyCells
    let tmp := tmp.copy entropy.length nonceCells
    let tmp := tmp.copy (entropy.length + nonce.length) (marked .persStr persStr)
    let (result, inst, tmp) := setVAndC sha256 tmp (entropy.length + nonce.length + persStr.length) inst
    ⟨result, { inst with comp := zeros 32, state := .instantiated }, tmp.wipe zeroCell cleared,
      wiped entropyCells, wiped nonceCells⟩

def reseedAlg (sha256 : Sha256) (stack : Nat → Byte) (addInput entropy : List Byte) (inst : HashDrbgCtx) : AlgRun :=
  let tmp := unset stack
  let entropyCells := marked .entropy entropy
  if inst.state ≠ .instantiated then ⟨failed, inst, tmp, entropyCells, []⟩
  else if addInput.length > addInputMaxLen ∨ entropy.length > entropyMaxLen then
    ⟨failed, inst, tmp, entropyCells, []⟩
  else
    let tmp := tmp.copy 0 [(1, .constant)]
    let tmp := tmp.copy 1 (marked .v inst.v)
    let tmp := tmp.copy (1 + seedlen) entropyCells
    let tmp := tmp.copy (1 + seedlen + entropy.length) (marked .addInput addInput)
    let (result, inst, tmp) := setVAndC sha256 tmp (1 + seedlen + entropy.length + addInput.length) inst
    ⟨result, { inst with reseedCount := 1 }, tmp.wipe zeroCell cleared, wiped entropyCells, []⟩

structure GenerateRun where
  tmp : Tmp
  done : Option (Result × HashDrbgCtx)

def generateInput (sha256 : Sha256) (addInput : List Byte) (inst : HashDrbgCtx) (tmp : Tmp) : HashDrbgCtx × Tmp :=
  if addInput.length > 0 then
    let tmp := tmp.copy 0 [(2, .constant)]
    let tmp := tmp.copy 1 (marked .v inst.v)
    let tmp := tmp.copy (1 + seedlen) (marked .addInput addInput)
    ({ inst with v := byteAdd inst.v (sha256 (message tmp (1 + seedlen + addInput.length))).toList }, tmp)
  else (inst, tmp)

def generateAlg (sha256 : Sha256) (stack : Nat → Byte) (addInput : List Byte) (outLen : Nat) (inst : HashDrbgCtx) :
    GenerateRun :=
  let tmp := unset stack
  if inst.state ≠ .instantiated then ⟨tmp, some (failed, inst)⟩
  else if outLen > requestMax then ⟨tmp, some (failed, inst)⟩
  else if addInput.length > addInputMaxLen then ⟨tmp, some (failed, inst)⟩
  else
    let (inst, tmp) := generateInput sha256 addInput inst tmp
    match hashGen sha256 outLen inst with
    | none => ⟨tmp, none⟩
    | some (result, inst) =>
      if result.code = .success then
        let r := wordBytes inst.reseedCount
        let tmp := tmp.copy 0 [(3, .constant)]
        let tmp := tmp.copy 1 (marked .v inst.v)
        let h := (sha256 (message tmp (1 + seedlen))).toList
        ⟨tmp, some (result, { inst with
          v := byteAdd (byteAdd (byteAdd inst.v inst.c) h) r
          reseedCount := inst.reseedCount + 1 })⟩
      else ⟨tmp, some (result, inst)⟩

section Messages

variable {sha256 : Sha256} {tmp : Tmp} {inst : HashDrbgCtx} {n i : Nat} {origin : Origin}

theorem markedLength (origin : Origin) (bytes : List Byte) : (marked origin bytes).length = bytes.length :=
  List.length_map _

theorem messageCopy (tmp : Tmp) (n : Nat) (origin : Origin) (bytes : List Byte) :
    message (tmp.copy n (marked origin bytes)) (n + bytes.length) = message tmp n ++ bytes := by
  have read := tmp.readCopy n (marked origin bytes)
  rw [markedLength] at read
  rw [message, read, List.map_append, marked, List.map_map]
  exact congrArg (message tmp n ++ ·) (List.map_id _)

theorem messageHead (tmp : Tmp) (b : Byte) : message (tmp.copy 0 [(b, .constant)]) 1 = [b] :=
  messageCopy tmp 0 .constant [b]

theorem messageV (tmp : Tmp) (b : Byte) {v : List Byte} (length : v.length = seedlen) :
    message ((tmp.copy 0 [(b, .constant)]).copy 1 (marked .v v)) (1 + seedlen) = b :: v := by
  rw [← length, messageCopy, messageHead, List.singleton_append]

theorem headReach (tmp : Tmp) (b : Byte) {v : List Byte} (length : v.length = seedlen) :
    ((tmp.copy 0 [(b, .constant)]).copy 1 (marked .v v)).reach ≤ max tmp.reach (1 + seedlen) := by
  have first := @Scratch.copyReach _ tmp 0 [(b, .constant)]
  have second := @Scratch.copyReach _ (tmp.copy 0 [(b, .constant)]) 1 (marked .v v)
  rw [markedLength, length] at second
  rw [List.length_singleton] at first
  omega

theorem headBehind (tmp : Tmp) (b : Byte) {v : List Byte} (length : v.length = seedlen) (behind : 1 + seedlen ≤ i) :
    ((tmp.copy 0 [(b, .constant)]).copy 1 (marked .v v)).cells i = tmp.cells i := by
  rw [Scratch.copyBehind (by rw [markedLength, length]; exact behind)]
  exact Scratch.copyBehind (by rw [List.length_singleton]; omega)

theorem setVAndCDone {seed : List Byte} (isSeed : message tmp n = seed) : ∃ tmp',
    setVAndC sha256 tmp n inst = (⟨.success, []⟩, { inst with
      v := Automaton.hashDf sha256 seed seedlen
      c := Automaton.hashDf sha256 (0 :: Automaton.hashDf sha256 seed seedlen) seedlen }, tmp') ∧
      (∀ i, 1 + seedlen ≤ i → tmp'.cells i = tmp.cells i) ∧ tmp'.reach ≤ max tmp.reach (1 + seedlen) := by
  have length : (Automaton.hashDf sha256 seed seedlen).length = seedlen := hashDfLength seed seedlen
  refine ⟨_, ?_, fun i behind => headBehind tmp 0 length behind, headReach tmp 0 length⟩
  rw [setVAndC, isSeed, hashDfBlocks _ (by decide)]
  dsimp only
  rw [messageV tmp 0 length, hashDfBlocks _ (by decide)]

end Messages

def InstantiateAccepts (persStr entropy nonce : List Byte) : Prop :=
  persStr.length ≤ persStrMaxLen ∧ entropy.length ≤ entropyMaxLen ∧ nonce.length ≤ nonceMaxLen
def ReseedAccepts (addInput entropy : List Byte) (inst : HashDrbgCtx) : Prop :=
  inst.state = .instantiated ∧ addInput.length ≤ addInputMaxLen ∧ entropy.length ≤ entropyMaxLen
def GenerateAccepts (addInput : List Byte) (outLen : Nat) (inst : HashDrbgCtx) : Prop :=
  inst.state = .instantiated ∧ outLen ≤ requestMax ∧ addInput.length ≤ addInputMaxLen

structure LeavesNothing (size : Nat) (run : AlgRun) : Prop where
  inside : run.tmp.reach ≤ size
  tmp : ∀ i < size, ¬ Secret (run.tmp.cells i).2
  entropy : ∀ cell ∈ run.entropy, ¬ Secret cell.2
  nonce : ∀ cell ∈ run.nonce, ¬ Secret cell.2

def instantiatePieces (stack : Nat → Byte) (persStr entropy nonce : List Byte) : Tmp :=
  (((unset stack).copy 0 (marked .entropy entropy)).copy entropy.length (marked .nonce nonce)).copy
    (entropy.length + nonce.length) (marked .persStr persStr)
def reseedPieces (stack : Nat → Byte) (addInput entropy v : List Byte) : Tmp :=
  ((((unset stack).copy 0 [(1, .constant)]).copy 1 (marked .v v)).copy (1 + seedlen) (marked .entropy entropy)).copy
    (1 + seedlen + entropy.length) (marked .addInput addInput)
def generatePieces (stack : Nat → Byte) (addInput v : List Byte) : Tmp :=
  (((unset stack).copy 0 [(2, .constant)]).copy 1 (marked .v v)).copy (1 + seedlen) (marked .addInput addInput)

section Layout

variable {stack : Nat → Byte} {persStr entropy nonce addInput v : List Byte} {n i : Nat} {tmp : Tmp}

def Quiet (n : Nat) (tmp : Tmp) : Prop := ∀ i, n ≤ i → ¬ Secret (tmp.cells i).2

theorem unsetQuiet : Quiet 0 (unset stack) := fun _ _ => (by decide : ¬ Secret .stale)

theorem Quiet.from (quiet : Quiet n tmp) {m : Nat} (le : n ≤ m) : Quiet m tmp := fun i from' => quiet i (le.trans from')

theorem Quiet.before (quiet : Quiet n tmp) (start : Nat) (piece : List Cell) (ends : start + piece.length ≤ n) :
    Quiet n (tmp.copy start piece) := by
  intro i behind
  rw [Scratch.copyBehind (ends.trans behind)]
  exact quiet i behind

theorem Quiet.public (quiet : Quiet n tmp) (start : Nat) {origin : Origin} (isPublic : ¬ Secret origin)
    (bytes : List Byte) : Quiet n (tmp.copy start (marked origin bytes)) := by
  intro i behind
  rcases tmp.copyCases start (marked origin bytes) i with kept | ⟨_, _, copied⟩
  · rw [kept]
    exact quiet i behind
  · obtain ⟨b, _, isCell⟩ := List.mem_map.mp copied
    rw [← isCell]
    exact isPublic

theorem copiedOrigin (tmp : Tmp) {start : Nat} (origin : Origin) (bytes : List Byte) (after : start ≤ i)
    (within : i < start + bytes.length) : ((tmp.copy start (marked origin bytes)).cells i).2 = origin := by
  have cell := @Scratch.copyWithin _ tmp start (marked origin bytes) (i - start) (by rw [markedLength]; omega)
  have place : start + (i - start) = i := by omega
  rw [place] at cell
  rw [cell]
  simp [marked]

theorem instantiateMessage : message (instantiatePieces stack persStr entropy nonce)
    (entropy.length + nonce.length + persStr.length) = entropy ++ nonce ++ persStr := by
  have first := messageCopy (unset stack) 0 .entropy entropy
  rw [Nat.zero_add] at first
  rw [instantiatePieces, messageCopy, messageCopy, first]
  rfl

theorem reseedMessage (length : v.length = seedlen) : message (reseedPieces stack addInput entropy v)
    (1 + seedlen + entropy.length + addInput.length) = 1 :: (v ++ entropy ++ addInput) := by
  rw [reseedPieces, messageCopy, messageCopy, messageV _ _ length]
  rfl

theorem instantiateQuiet : Quiet (entropy.length + nonce.length) (instantiatePieces stack persStr entropy nonce) := by
  have start : Quiet (entropy.length + nonce.length) (unset stack) := unsetQuiet.from (Nat.zero_le _)
  have withEntropy := start.before 0 (marked .entropy entropy) (by rw [markedLength]; omega)
  have withNonce := withEntropy.before entropy.length (marked .nonce nonce) (by rw [markedLength])
  exact withNonce.public _ (by decide) persStr

theorem reseedQuiet (length : v.length = seedlen) :
    Quiet (1 + seedlen + entropy.length) (reseedPieces stack addInput entropy v) := by
  have start : Quiet (1 + seedlen + entropy.length) (unset stack) := unsetQuiet.from (Nat.zero_le _)
  have withHead := start.before 0 [(1, .constant)] (by rw [List.length_singleton]; omega)
  have withV := withHead.before 1 (marked .v v) (by rw [markedLength, length]; omega)
  have withEntropy := withV.before (1 + seedlen) (marked .entropy entropy) (by rw [markedLength])
  exact withEntropy.public _ (by decide) addInput

theorem instantiateSecret (within : i < entropy.length + nonce.length) :
    Secret ((instantiatePieces stack persStr entropy nonce).cells i).2 := by
  rw [instantiatePieces, Scratch.copyBefore within]
  by_cases inEntropy : i < entropy.length
  · rw [Scratch.copyBefore inEntropy, copiedOrigin _ _ _ (Nat.zero_le _) (by omega)]
    decide
  · rw [copiedOrigin _ _ _ (by omega) within]
    decide

theorem reseedSecret (after : 1 + seedlen ≤ i) (within : i < 1 + seedlen + entropy.length) :
    Secret ((reseedPieces stack addInput entropy v).cells i).2 := by
  rw [reseedPieces, Scratch.copyBefore within, copiedOrigin _ _ _ after within]
  decide

theorem instantiateReach : (instantiatePieces stack persStr entropy nonce).reach ≤
    entropy.length + nonce.length + persStr.length := by
  have first := @Scratch.copyReach _ (unset stack) 0 (marked .entropy entropy)
  have second := @Scratch.copyReach _ ((unset stack).copy 0 (marked .entropy entropy)) entropy.length (marked .nonce nonce)
  have third := @Scratch.copyReach _ (((unset stack).copy 0 (marked .entropy entropy)).copy entropy.length
    (marked .nonce nonce)) (entropy.length + nonce.length) (marked .persStr persStr)
  have start : (unset stack).reach = 0 := rfl
  rw [markedLength] at first second third
  rw [instantiatePieces]
  omega

theorem reseedReach (length : v.length = seedlen) : (reseedPieces stack addInput entropy v).reach ≤
    1 + seedlen + entropy.length + addInput.length := by
  have first := headReach (unset stack) 1 length
  have second := @Scratch.copyReach _ (((unset stack).copy 0 [(1, .constant)]).copy 1 (marked .v v)) (1 + seedlen)
    (marked .entropy entropy)
  have third := @Scratch.copyReach _ ((((unset stack).copy 0 [(1, .constant)]).copy 1 (marked .v v)).copy (1 + seedlen)
    (marked .entropy entropy)) (1 + seedlen + entropy.length) (marked .addInput addInput)
  have start : (unset stack).reach = 0 := rfl
  rw [markedLength] at second third
  rw [reseedPieces]
  omega

theorem generateReach (length : v.length = seedlen) (given : addInput.length > 0) :
    (generatePieces stack addInput v).reach = 1 + seedlen + addInput.length := by
  have first := headReach (unset stack) 2 length
  have second := @Scratch.copyReach _ (((unset stack).copy 0 [(2, .constant)]).copy 1 (marked .v v)) (1 + seedlen)
    (marked .addInput addInput)
  have reaches := @Scratch.copyReaches _ (((unset stack).copy 0 [(2, .constant)]).copy 1 (marked .v v)) (1 + seedlen)
    (marked .addInput addInput) (by
      intro empty
      have noLength := congrArg List.length empty
      rw [markedLength] at noLength
      exact given.ne' noLength)
  have start : (unset stack).reach = 0 := rfl
  rw [markedLength] at second reaches
  rw [generatePieces]
  omega

end Layout

section Runs

variable {sha256 : Sha256} {stack : Nat → Byte} {persStr entropy nonce addInput : List Byte}
  {reseedInterval : BitVec 32} {inst : HashDrbgCtx} {outLen size : Nat} {pieces : Tmp}

structure Clears (pieces tmp : Tmp) : Prop where
  below : ∀ i < cleared, tmp.cells i = zeroCell
  behind : ∀ i, cleared ≤ i → tmp.cells i = pieces.cells i
  reach : tmp.reach ≤ max pieces.reach cleared

theorem wipeClears {tmp : Tmp} (behind : ∀ i, 1 + seedlen ≤ i → tmp.cells i = pieces.cells i)
    (reach : tmp.reach ≤ max pieces.reach (1 + seedlen)) : Clears pieces (tmp.wipe zeroCell cleared) := by
  have small : 1 + seedlen ≤ cleared := by decide
  refine ⟨fun i below => Scratch.wipeBelow below, fun i from' => ?_, ?_⟩
  · rw [Scratch.wipeBehind from']
    exact behind i (small.trans from')
  · have wipe := @Scratch.wipeReach _ tmp zeroCell cleared
    omega

theorem Clears.clean {tmp : Tmp} (clears : Clears pieces tmp) (quiet : Quiet cleared pieces) (i : Nat) :
    ¬ Secret (tmp.cells i).2 := by
  by_cases below : i < cleared
  · rw [clears.below i below]
    decide
  · have from' : cleared ≤ i := by omega
    rw [clears.behind i from']
    exact quiet i from'

theorem wipedClean (cells : List Cell) : ∀ cell ∈ wiped cells, ¬ Secret cell.2 := by
  intro cell among
  obtain ⟨_, _, isZero⟩ := List.mem_map.mp among
  rw [← isZero]
  decide

theorem instantiateRun (accepts : InstantiateAccepts persStr entropy nonce) :
    ∃ tmp, Clears (instantiatePieces stack persStr entropy nonce) tmp ∧
      instantiateAlg sha256 stack persStr entropy nonce reseedInterval inst =
        ⟨(hashDrbgInstantiateAlg sha256 persStr entropy nonce reseedInterval inst).1,
          (hashDrbgInstantiateAlg sha256 persStr entropy nonce reseedInterval inst).2, tmp,
          wiped (marked .entropy entropy), wiped (marked .nonce nonce)⟩ := by
  have short : ¬ (persStr.length > persStrMaxLen ∨ entropy.length > entropyMaxLen ∨ nonce.length > nonceMaxLen) := by
    obtain ⟨persShort, entropyShort, nonceShort⟩ := accepts
    omega
  obtain ⟨tmp, done, behind, reach⟩ := @setVAndCDone sha256 (instantiatePieces stack persStr entropy nonce)
    { inst with state := .error, reseedInterval := reseedInterval, reseedCount := 1 } _ _ instantiateMessage
  refine ⟨_, wipeClears behind reach, ?_⟩
  unfold instantiateAlg hashDrbgInstantiateAlg
  rw [if_neg short, if_neg short]
  unfold instantiatePieces at done
  dsimp only
  simp only [done, hashDfBlocks _ (by decide : seedlen ≤ 255 * 32)]

theorem reseedRun (length : inst.v.length = seedlen) (accepts : ReseedAccepts addInput entropy inst) :
    ∃ tmp, Clears (reseedPieces stack addInput entropy inst.v) tmp ∧
      reseedAlg sha256 stack addInput entropy inst =
        ⟨(hashDrbgReseedAlg sha256 addInput entropy inst).1, (hashDrbgReseedAlg sha256 addInput entropy inst).2, tmp,
          wiped (marked .entropy entropy), []⟩ := by
  obtain ⟨ready, addShort, entropyShort⟩ := accepts
  have short : ¬ (addInput.length > addInputMaxLen ∨ entropy.length > entropyMaxLen) := by omega
  obtain ⟨tmp, done, behind, reach⟩ := @setVAndCDone sha256 (reseedPieces stack addInput entropy inst.v) inst _ _
    (reseedMessage length)
  refine ⟨_, wipeClears behind reach, ?_⟩
  unfold reseedAlg hashDrbgReseedAlg
  rw [if_neg (not_not_intro ready), if_neg short, if_neg (not_not_intro ready), if_neg short]
  unfold reseedPieces at done
  dsimp only
  simp only [done, hashDfBlocks _ (by decide : seedlen ≤ 255 * 32)]

theorem generateInputSame (tmp : Tmp) (length : inst.v.length = seedlen) : (generateInput sha256 addInput inst tmp).1 =
    if addInput.length > 0 then { inst with v := byteAdd inst.v (sha256 (2 :: (inst.v ++ addInput))).toList }
    else inst := by
  unfold generateInput
  split
  · dsimp only
    rw [messageCopy, messageV _ _ length, List.cons_append]
  · rfl

theorem generateInputLength (tmp : Tmp) (length : inst.v.length = seedlen) :
    (generateInput sha256 addInput inst tmp).1.v.length = seedlen := by
  rw [generateInputSame tmp length]
  split
  · exact (byteAddLengthSame _ _).trans length
  · exact length

theorem generateInputReach (length : inst.v.length = seedlen) :
    (generateInput sha256 addInput inst (unset stack)).2.reach =
      if addInput.length > 0 then 1 + seedlen + addInput.length else 0 := by
  unfold generateInput
  split
  · next given => exact generateReach length given
  · rfl

theorem generateRun (length : inst.v.length = seedlen) (accepts : GenerateAccepts addInput outLen inst) :
    (generateAlg sha256 stack addInput outLen inst).done = hashDrbgGenerateAlg sha256 addInput outLen inst ∧
      (generateInput sha256 addInput inst (unset stack)).2.reach ≤
        (generateAlg sha256 stack addInput outLen inst).tmp.reach ∧
      (generateAlg sha256 stack addInput outLen inst).tmp.reach ≤
        max (generateInput sha256 addInput inst (unset stack)).2.reach (1 + seedlen) := by
  obtain ⟨ready, outShort, addShort⟩ := accepts
  have same := @generateInputSame sha256 addInput inst (unset stack) length
  have vLength := @generateInputLength sha256 addInput inst (unset stack) length
  unfold generateAlg hashDrbgGenerateAlg
  rw [if_neg (not_not_intro ready), if_neg (by omega : ¬ outLen > requestMax), if_neg (by omega), if_neg (not_not_intro ready),
    if_neg (by omega : ¬ outLen > requestMax), if_neg (by omega)]
  dsimp only
  rw [← same]
  generalize generateInput sha256 addInput inst (unset stack) = given at vLength
  obtain ⟨inst, tmp⟩ := given
  dsimp only at vLength ⊢
  cases generated : hashGen sha256 outLen inst with
  | none => exact ⟨rfl, Nat.le_refl _, Nat.le_max_left _ _⟩
  | some answer =>
    obtain ⟨result, inst'⟩ := answer
    have sameV : inst'.v = inst.v := by
      unfold hashGen at generated
      split at generated
      · cases generated
        rfl
      · obtain ⟨_, _, isInst⟩ := Option.map_eq_some_iff.mp generated
        cases isInst
        rfl
    rw [← sameV] at vLength
    dsimp only [Option.map_some]
    split
    · rw [messageV _ _ vLength]
      exact ⟨rfl, Scratch.copyKeepsReach.trans Scratch.copyKeepsReach, headReach _ _ vLength⟩
    · exact ⟨rfl, Nat.le_refl _, Nat.le_max_left _ _⟩

theorem instantiateLeaves (accepts : InstantiateAccepts persStr entropy nonce) :
    LeavesNothing instantiateTmp (instantiateAlg sha256 stack persStr entropy nonce reseedInterval inst) ↔
      entropy.length + nonce.length ≤ cleared := by
  obtain ⟨tmp, clears, isRun⟩ :=
    @instantiateRun sha256 stack persStr entropy nonce reseedInterval inst accepts
  obtain ⟨persShort, entropyShort, nonceShort⟩ := accepts
  unfold persStrMaxLen at persShort
  unfold entropyMaxLen at entropyShort
  unfold nonceMaxLen at nonceShort
  rw [isRun]
  constructor
  · intro leaves
    by_contra long
    have secret := @instantiateSecret stack persStr entropy nonce cleared (by omega)
    rw [← clears.behind cleared (Nat.le_refl _)] at secret
    exact leaves.tmp cleared (by decide) secret
  · intro short
    have reach := clears.reach
    have pieces := @instantiateReach stack persStr entropy nonce
    refine ⟨?_, fun i _ => clears.clean (instantiateQuiet.from short) i, wipedClean _, wipedClean _⟩
    unfold cleared at reach
    unfold instantiateTmp
    dsimp only
    omega

theorem reseedLeaves (length : inst.v.length = seedlen) (accepts : ReseedAccepts addInput entropy inst) :
    LeavesNothing reseedTmp (reseedAlg sha256 stack addInput entropy inst) ↔ 1 + seedlen + entropy.length ≤ cleared := by
  obtain ⟨tmp, clears, isRun⟩ := @reseedRun sha256 stack entropy addInput inst length accepts
  obtain ⟨_, addShort, entropyShort⟩ := accepts
  unfold addInputMaxLen at addShort
  unfold entropyMaxLen at entropyShort
  have small : 1 + seedlen ≤ cleared := by decide
  rw [isRun]
  constructor
  · intro leaves
    by_contra long
    have secret := @reseedSecret stack entropy addInput inst.v cleared small (by omega)
    rw [← clears.behind cleared (Nat.le_refl _)] at secret
    exact leaves.tmp cleared (by decide) secret
  · intro short
    have reach := clears.reach
    have pieces := @reseedReach stack entropy addInput inst.v length
    refine ⟨?_, fun i _ => clears.clean ((reseedQuiet length).from short) i, wipedClean _, fun _ among => nomatch among⟩
    unfold cleared at reach small
    unfold reseedTmp
    dsimp only
    omega

theorem generateInside (length : inst.v.length = seedlen) (accepts : GenerateAccepts addInput outLen inst) :
    (generateAlg sha256 stack addInput outLen inst).tmp.reach ≤ generateTmp ↔
      1 + seedlen + addInput.length ≤ generateTmp := by
  obtain ⟨_, least, most⟩ := @generateRun sha256 stack addInput inst outLen length accepts
  have reached := @generateInputReach sha256 stack addInput inst length
  have small : 1 + seedlen ≤ generateTmp := by decide
  split at reached <;> omega

end Runs

theorem scratchBuffers (sha256 : Sha256) (stack : Nat → Byte) (persStr entropy nonce addInput : List Byte)
    (reseedInterval : BitVec 32) (outLen : Nat) (inst : HashDrbgCtx) (vLength : inst.v.length = seedlen) :
    (InstantiateAccepts persStr entropy nonce →
      (LeavesNothing instantiateTmp (instantiateAlg sha256 stack persStr entropy nonce reseedInterval inst) ↔
        entropy.length + nonce.length ≤ cleared)) ∧
    (ReseedAccepts addInput entropy inst →
      (LeavesNothing reseedTmp (reseedAlg sha256 stack addInput entropy inst) ↔
        1 + seedlen + entropy.length ≤ cleared)) ∧
    (GenerateAccepts addInput outLen inst →
      ((generateAlg sha256 stack addInput outLen inst).tmp.reach ≤ generateTmp ↔
        1 + seedlen + addInput.length ≤ generateTmp)) :=
  ⟨instantiateLeaves, reseedLeaves vLength, generateInside vLength⟩

def readyInstance : HashDrbgCtx := { startInstance with state := .instantiated, reseedInterval := 10000 }

theorem zerosLength (n : Nat) : (zeros n).length = n := List.length_replicate

theorem scratchBuffersFilled :
    LeavesNothing instantiateTmp (instantiateAlg lengthHash 0 (zeros 1000) (zeros 500) (zeros 500) 1 readyInstance) ∧
      (generateAlg lengthHash 0 (zeros 944) 32 readyInstance).tmp.reach ≤ generateTmp := by
  obtain ⟨instantiate, _, generate⟩ :=
    scratchBuffers lengthHash 0 (zeros 1000) (zeros 500) (zeros 500) (zeros 944) 1 32 readyInstance (zerosLength _)
  refine ⟨(instantiate ?_).mpr ?_, (generate ⟨rfl, by decide, ?_⟩).mpr ?_⟩
  · simp only [InstantiateAccepts, zerosLength]
    decide
  · simp only [zerosLength]
    decide
  · simp only [zerosLength]
    decide
  · simp only [zerosLength]
    decide

theorem secretsLeft :
    ¬ LeavesNothing instantiateTmp (instantiateAlg lengthHash 0 [] (zeros 600) (zeros 600) 1 readyInstance) ∧
      ¬ LeavesNothing reseedTmp (reseedAlg lengthHash 0 [] (zeros 1000) readyInstance) ∧
      ¬ (generateAlg lengthHash 0 (zeros 1000) 32 readyInstance).tmp.reach ≤ generateTmp := by
  have short : (zeros 600).length ≤ entropyMaxLen ∧ (zeros 1000).length ≤ entropyMaxLen := by
    simp only [zerosLength]
    decide
  refine ⟨?_, ?_, ?_⟩
  · rw [instantiateLeaves ⟨by decide, short.1, short.1⟩]
    simp only [zerosLength]
    decide
  · rw [reseedLeaves (zerosLength _) ⟨rfl, by decide, short.2⟩]
    simp only [zerosLength]
    decide
  · rw [generateInside (zerosLength _) ⟨rfl, by decide, short.2⟩]
    simp only [zerosLength]
    decide

end Flexbuild.HashDrbgScratch
