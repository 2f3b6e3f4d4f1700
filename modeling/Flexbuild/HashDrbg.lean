import Flexbuild.BigEndian

/-! The deterministic random generator over a hash function, byte by byte as it is coded, and the
automaton over numbers that it stands for. -/
namespace Flexbuild.HashDrbg
open BigEndian

abbrev Sha256 := List Byte → Vector Byte 32

def seedLength : Nat := 440
def seedlen : Nat := seedLength / 8
def persStrMaxLen : Nat := 1000
def addInputMaxLen : Nat := 1000
def entropyMaxLen : Nat := 1000
def nonceMaxLen : Nat := 1000
def requestMax : Nat := 1000000

inductive ReturnCode where
  | success | errorFlag | catastrophicErrorFlag
  deriving DecidableEq, Repr

inductive InstanceState where
  | uninstantiated | instantiated | error
  deriving DecidableEq, Repr

structure HashDrbgCtx where
  reseedInterval : BitVec 32
  reseedCount : BitVec 32
  v : List Byte
  c : List Byte
  comp : List Byte
  state : InstanceState

def zeros (n : Nat) : List Byte := List.replicate n 0

def startInstance : HashDrbgCtx := ⟨0, 0, zeros seedlen, zeros seedlen, zeros 32, .uninstantiated⟩

def byteAddLoop (y : List Byte) (yOffset : Int) : Nat → Nat → List Byte → List Byte
  | 0, _, x => x
  | i + 1, c, x =>
    let sum := (x.getD i 0).toNat + (if (i : Int) - yOffset ≥ 0 then (y.getD (i - yOffset).toNat 0).toNat else 0) + c
    byteAddLoop y yOffset i (if sum > 255 then 1 else 0) (x.set i (BitVec.ofNat 8 sum))

def byteAdd (x y : List Byte) : List Byte := byteAddLoop y (x.length - y.length) x.length 0 x

def wordBytes (n : BitVec 32) : List Byte :=
  [n.extractLsb' 24 8, n.extractLsb' 16 8, n.extractLsb' 8 8, n.extractLsb' 0 8]

def copied (counter len outLen : Nat) (hashBytes : List Byte) : List Byte :=
  if counter ≠ len ∨ outLen % 32 = 0 then hashBytes else hashBytes.take (outLen % 32)

-- The counter has 8 bits, so that 256 turns are enough.
def hashDfLoop (sha256 : Sha256) (input numBytes : List Byte) (len outLen : Nat) : Nat → BitVec 8 → List Byte → List Byte
  | 0, _, out => out
  | turns + 1, counter, out =>
    if counter.toNat ≤ len ∧ counter ≠ 0 then
      let hashBytes := (sha256 ([counter] ++ numBytes ++ input)).toList
      hashDfLoop sha256 input numBytes len outLen turns (counter + 1) (out ++ copied counter.toNat len outLen hashBytes)
    else out

def hashDf (sha256 : Sha256) (input : List Byte) (outLen : Nat) : Option (List Byte) :=
  if outLen > 255 * 32 then none
  else some (hashDfLoop sha256 input (wordBytes (BitVec.ofNat 32 (outLen * 8))) ((outLen + 31) / 32) outLen 256 1 [])

-- `none` when the continuous test fires, which ends the program.
def hashGenLoop (sha256 : Sha256) (len outLen : Nat) :
    Nat → Nat → List Byte → List Byte → List Byte → Option (List Byte × List Byte)
  | 0, _, _, comp, out => some (out, comp)
  | left + 1, counter, data, comp, out =>
    let hashBytes := (sha256 data).toList
    if hashBytes = comp then none
    else hashGenLoop sha256 len outLen left (counter + 1) (byteAdd data [1]) hashBytes
      (out ++ copied counter len outLen hashBytes)

structure Result where
  code : ReturnCode
  out : List Byte
  deriving DecidableEq

def failed : Result := ⟨.errorFlag, []⟩

def hashGen (sha256 : Sha256) (outLen : Nat) (inst : HashDrbgCtx) : Option (Result × HashDrbgCtx) :=
  if outLen > requestMax then some (failed, inst)
  else
    let len := (outLen + 31) / 32
    (hashGenLoop sha256 len outLen len 1 inst.v inst.comp []).map fun (out, comp) => (⟨.success, out⟩, { inst with comp })

def hashDrbgInstantiateAlg (sha256 : Sha256) (persStr entropy nonce : List Byte) (reseedInterval : BitVec 32)
    (inst : HashDrbgCtx) : Result × HashDrbgCtx :=
  let inst := { inst with state := .error, reseedInterval, reseedCount := 1 }
  if persStr.length > persStrMaxLen ∨ entropy.length > entropyMaxLen ∨ nonce.length > nonceMaxLen then (failed, inst)
  else
    let done := { inst with comp := zeros 32, state := .instantiated }
    match hashDf sha256 (entropy ++ nonce ++ persStr) seedlen with
    | none => (failed, done)
    | some v =>
      match hashDf sha256 (0 :: v) seedlen with
      | none => (failed, { done with v })
      | some c => (⟨.success, []⟩, { done with v, c })

def hashDrbgReseedAlg (sha256 : Sha256) (addInput entropy : List Byte) (inst : HashDrbgCtx) : Result × HashDrbgCtx :=
  if inst.state ≠ .instantiated then (failed, inst)
  else if addInput.length > addInputMaxLen ∨ entropy.length > entropyMaxLen then (failed, inst)
  else
    let done := { inst with reseedCount := 1 }
    match hashDf sha256 (1 :: (inst.v ++ entropy ++ addInput)) seedlen with
    | none => (failed, done)
    | some v =>
      match hashDf sha256 (0 :: v) seedlen with
      | none => (failed, { done with v })
      | some c => (⟨.success, []⟩, { done with v, c })

def hashDrbgReseed (sha256 : Sha256) (addInput : List Byte) (entropy : Option (Vector Byte 32)) (inst : HashDrbgCtx) :
    Result × HashDrbgCtx :=
  if inst.state ≠ .instantiated then (failed, inst)
  else if addInput.length > addInputMaxLen then (failed, inst)
  else
    match entropy with
    | none => (⟨.catastrophicErrorFlag, []⟩, inst)
    | some entropy => hashDrbgReseedAlg sha256 addInput entropy.toList inst

def hashDrbgGenerateAlg (sha256 : Sha256) (addInput : List Byte) (outLen : Nat) (inst : HashDrbgCtx) :
    Option (Result × HashDrbgCtx) :=
  if inst.state ≠ .instantiated then some (failed, inst)
  else if outLen > requestMax then some (failed, inst)
  else if addInput.length > addInputMaxLen then some (failed, inst)
  else
    let inst := if addInput.length > 0 then
        { inst with v := byteAdd inst.v (sha256 (2 :: (inst.v ++ addInput))).toList }
      else inst
    (hashGen sha256 outLen inst).map fun (result, inst) =>
      if result.code = .success then
        let h := (sha256 (3 :: inst.v)).toList
        let r := wordBytes inst.reseedCount
        (result, { inst with
          v := byteAdd (byteAdd (byteAdd inst.v inst.c) h) r
          reseedCount := inst.reseedCount + 1 })
      else (result, inst)

def hashDrbgGenerate (sha256 : Sha256) (addInput : List Byte) (outLen : Nat) (predResReq : BitVec 32)
    (entropy : Option (Vector Byte 32)) (inst : HashDrbgCtx) : Option (Result × HashDrbgCtx) :=
  if inst.state ≠ .instantiated then some (failed, inst)
  else if outLen > requestMax then some (failed, inst)
  else if addInput.length > addInputMaxLen then some (failed, inst)
  else if inst.reseedCount > inst.reseedInterval ∨ predResReq = 1 then
    match hashDrbgReseed sha256 addInput entropy inst with
    | (⟨.success, _⟩, inst) => hashDrbgGenerateAlg sha256 [] outLen inst
    | (result, inst) => some (result, inst)
  else hashDrbgGenerateAlg sha256 addInput outLen inst

def hashDrbgUninstantiate (inst : HashDrbgCtx) : Result × HashDrbgCtx :=
  if inst.state = .uninstantiated then (failed, inst)
  else (⟨.success, []⟩, { inst with v := zeros seedlen, c := zeros seedlen, state := .uninstantiated })

inductive Call where
  | instantiateAlg (persStr entropy nonce : List Byte) (reseedInterval : BitVec 32)
  | reseedAlg (addInput entropy : List Byte)
  | reseed (addInput : List Byte) (entropy : Option (Vector Byte 32))
  | generate (addInput : List Byte) (outLen : Nat) (predResReq : BitVec 32) (entropy : Option (Vector Byte 32))
  | generateAlg (addInput : List Byte) (outLen : Nat)
  | uninstantiate

def Call.exec (sha256 : Sha256) (call : Call) (inst : HashDrbgCtx) : Option (Result × HashDrbgCtx) :=
  match call with
  | .instantiateAlg persStr entropy nonce reseedInterval =>
    some (hashDrbgInstantiateAlg sha256 persStr entropy nonce reseedInterval inst)
  | .reseedAlg addInput entropy => some (hashDrbgReseedAlg sha256 addInput entropy inst)
  | .reseed addInput entropy => some (hashDrbgReseed sha256 addInput entropy inst)
  | .generate addInput outLen predResReq entropy => hashDrbgGenerate sha256 addInput outLen predResReq entropy inst
  | .generateAlg addInput outLen => hashDrbgGenerateAlg sha256 addInput outLen inst
  | .uninstantiate => some (hashDrbgUninstantiate inst)

end Flexbuild.HashDrbg
