import Flexbuild.TokenObjects

/-! Signing in a PKCS#11 session. `sign_init` checks the key and leaves an active operation in the
session; `sign` pads the message in a local block, or hashes it, and gives it to the secure library
for the operation with the private key. Lengths are `CK_ULONG` here and 16 bits wide there. -/
namespace Flexbuild.Signing
open ByteMemory (Byte)
open ObjectSearch (Attribute templateCheckAttr)
open TokenObjects

inductive Rv where
  | ok | argumentsBad | hostMemory | generalError | operationActive | operationNotInitialized
  | sessionHandleInvalid | objectHandleInvalid | attributeSensitive | attributeTypeInvalid | bufferTooSmall
  | dataLenRange | keyFunctionNotPermitted | keyTypeInconsistent | mechanismInvalid | mechanismParamInvalid
  deriving DecidableEq, Repr

def maxRsaKeylen : Nat := 512
def maxHashLen : Nat := 64

def ckaCertificateType : BitVec 64 := 0x80
def ckoSecretKey : BitVec 64 := 4

def ckmRsaPkcs : BitVec 64 := 0x1
def ckmMd5RsaPkcs : BitVec 64 := 0x5
def ckmSha1RsaPkcs : BitVec 64 := 0x6
def ckmSha256RsaPkcs : BitVec 64 := 0x40
def ckmSha384RsaPkcs : BitVec 64 := 0x41
def ckmSha512RsaPkcs : BitVec 64 := 0x42

def skmRsaPkcsNopad : BitVec 32 := 107

structure SkFunctions where
  digest : BitVec 32 → List Byte → BitVec 16 → Option (List Byte)
  sign : BitVec 32 → Nat → List Byte → BitVec 16 → Option (List Byte)
  decrypt : BitVec 32 → Nat → List Byte → BitVec 16 → Option (List Byte)

-- `rsadorep` of the secure world: what `rsa_exptmod` left, without the zero bytes ahead of the last byte.
def withoutPadding : List Byte → List Byte
  | b :: c :: rest => if b = 0 then withoutPadding (c :: rest) else b :: c :: rest
  | short => short

def rsadorep (buf : List Byte) (dstLen : Nat) : Option (List Byte) :=
  if dstLen < (withoutPadding buf).length then none else some (withoutPadding buf)

structure Env where
  sessionValid : Bool
  objects : Nat → Option Object
  functions : Option SkFunctions
  mechanismsMemory : Bool
  parameterMemory : Bool
  stack : Nat → Byte

structure Mechanism where
  mechanism : BitVec 64
  parameter : List Byte
  deriving DecidableEq

structure Message where
  bytes : List Byte
  fits : bytes.length < 2 ^ 64

structure Context where
  key : Nat
  mech : Mechanism
  context : Option Nat
  contextLen : Nat
  multi : Bool
  recover : Bool
  active : Bool
  deriving DecidableEq

def Context.zero : Context := ⟨0, ⟨0, []⟩, none, 0, false, false, false⟩

section Attributes

def ulongOf (l : List Byte) : BitVec 64 :=
  l.getD 7 0 ++ l.getD 6 0 ++ l.getD 5 0 ++ l.getD 4 0 ++ l.getD 3 0 ++ l.getD 2 0 ++ l.getD 1 0 ++ l.getD 0 0

def templateGetClass (list : List Attribute) : BitVec 64 × BitVec 64 :=
  list.foldl (fun (objClass, subclass) a =>
    if a.type = ckaClass then (ulongOf a.value, subclass)
    else if a.type = ckaCertificateType ∨ a.type = ckaKeyType then (objClass, ulongOf a.value)
    else (objClass, subclass)) (0, 0)

def checkRsaPrivkExportability (type : BitVec 64) : Bool :=
  decide (type ∉ [0x123, 0x124, 0x125, 0x126, 0x127, 0x128])

def checkAttrExportability (list : List Attribute) (type : BitVec 64) : Bool :=
  let (objClass, subclass) := templateGetClass list
  if objClass ≠ ckoPrivateKey ∧ objClass ≠ ckoSecretKey then true
  else
    match templateCheckAttr ckaSensitive list, templateCheckAttr ckaExtractable list with
    | some sensitive, some extractable =>
      if sensitive.value.head? = some 0 ∧ extractable.value.head? = some 1 then true
      else if objClass = ckoPrivateKey ∧ subclass = ckkRsa then checkRsaPrivkExportability type
      else true
    | _, _ => false

-- An entry of the template of `get_attr_value`: a buffer with room for so many bytes, or a null pointer.
structure Query where
  type : BitVec 64
  room : Option (BitVec 64)

structure Answer where
  ulValueLen : BitVec 64
  value : List Byte

def readAttr (list : List Attribute) (q : Query) : Option Rv × Answer :=
  if checkAttrExportability list q.type = false then (some .attributeSensitive, ⟨-1, []⟩)
  else
    match templateCheckAttr q.type list with
    | none => (some .attributeTypeInvalid, ⟨-1, []⟩)
    | some a =>
      match q.room with
      | none => (none, ⟨BitVec.ofNat 64 a.value.length, []⟩)
      | some room =>
        if BitVec.ofNat 64 a.value.length ≤ room then (none, ⟨BitVec.ofNat 64 a.value.length, a.value⟩)
        else (some .bufferTooSmall, ⟨-1, []⟩)

def getAttrValue (env : Env) (hObject : Nat) (template : List Query) : Rv × List Answer :=
  if template = [] then (.argumentsBad, [])
  else if env.sessionValid = false then (.sessionHandleInvalid, [])
  else
    match env.objects hObject with
    | none => (.objectHandleInvalid, [])
    | some o =>
      let results := template.map (readAttr o.templateList)
      (((results.filterMap Prod.fst).getLast?).getD .ok, results.map Prod.snd)

end Attributes

section SignInit

def mechanismsOf (value : List Byte) : List (BitVec 64) :=
  (List.range (value.length / 8)).map fun n => ulongOf (value.drop (8 * n))

def rsaMechanisms : List (BitVec 64) :=
  [ckmRsaPkcs, ckmMd5RsaPkcs, ckmSha1RsaPkcs, ckmSha256RsaPkcs, ckmSha384RsaPkcs, ckmSha512RsaPkcs]

def valueAt (answers : List Answer) (i : Nat) : List Byte := (answers[i]?.map Answer.value).getD []

def signChecks (env : Env) (mech : Mechanism) (key : Nat) : Rv :=
  let first := getAttrValue env key [⟨ckaSign, none⟩]
  if first.1 ≠ .ok then .keyFunctionNotPermitted
  else
    let lengths := getAttrValue env key [⟨ckaAllowedMechanisms, none⟩, ⟨ckaKeyType, none⟩, ⟨ckaClass, none⟩]
    if lengths.1 ≠ .ok then lengths.1
    else if env.mechanismsMemory = false then .hostMemory
    else
      let attrs := getAttrValue env key
        (([ckaSign, ckaAllowedMechanisms, ckaKeyType, ckaClass].zip (first.2 ++ lengths.2)).map
          fun (type, a) => ⟨type, some a.ulValueLen⟩)
      if attrs.1 ≠ .ok then attrs.1
      else if (valueAt attrs.2 0).head? ≠ some 1 then .keyFunctionNotPermitted
      else if mech.mechanism ∉ mechanismsOf (valueAt attrs.2 1) then .mechanismInvalid
      else if mech.mechanism ∉ rsaMechanisms then .mechanismInvalid
      else if mech.parameter.length ≠ 0 then .mechanismParamInvalid
      else if ulongOf (valueAt attrs.2 2) ≠ ckkRsa then .keyTypeInconsistent
      else if ulongOf (valueAt attrs.2 3) ≠ ckoPrivateKey then .keyFunctionNotPermitted
      else .ok

def signInit (env : Env) (ctx : Context) (mech : Mechanism) (recoverMode : Bool) (key : Nat) : Rv × Context :=
  if ctx.active then (.operationActive, ctx)
  else if signChecks env mech key ≠ .ok then (signChecks env mech key, ctx)
  else
    let ctx := { ctx with contextLen := 0, context := none }
    if 0 < mech.parameter.length ∧ env.parameterMemory = false then (.hostMemory, ctx)
    else (.ok, { ctx with key := key, mech := mech, multi := false, active := true, recover := recoverMode })

end SignInit

-- The local array `data`, and whether something was written behind its end.
structure Block where
  bytes : Nat → Byte
  outside : Bool

namespace Block

def write (b : Block) (i : Nat) (v : Byte) : Block :=
  ⟨Function.update b.bytes i v, b.outside || decide (maxRsaKeylen ≤ i)⟩

def copy : Nat → List Byte → Block → Block
  | _, [], b => b
  | i, v :: rest, b => copy (i + 1) rest (b.write i v)

def fill : Nat → Nat → Block → Block
  | _, 0, b => b
  | i, n + 1, b => fill (i + 1) n (b.write i 0xFF)

def read (b : Block) (n : Nat) : List Byte := (List.range n).map b.bytes

end Block

structure Handed where
  mechanism : BitVec 32
  key : Nat
  data : List Byte
  deriving DecidableEq

-- What a call leaves: its result, `*pulSignatureLen`, the input of the operation with the private key
-- if it was called, and whether the local block was overrun.
structure Outcome where
  rc : Rv
  signatureLen : BitVec 64
  handed : Option Handed
  outside : Bool

def storeLow (v : BitVec 64) (n : Nat) : BitVec 64 := v.extractLsb' 16 48 ++ BitVec.ofNat 16 n

-- `pSignature` is whether there is a buffer for the signature.
def rsaSignPkcs (env : Env) (ctx : Context) (data : Message) (pSignature : Bool) (signatureLen : BitVec 64) :
    Outcome :=
  let attr := getAttrValue env ctx.key [⟨ckaModulus, none⟩]
  if attr.1 ≠ .ok then ⟨attr.1, signatureLen, none, false⟩
  else
    let reqSigLen := (attr.2[0]?.map Answer.ulValueLen).getD 0
    let dataLen := BitVec.ofNat 64 data.bytes.length
    if pSignature = false then ⟨.ok, reqSigLen, none, false⟩
    else if signatureLen < reqSigLen then ⟨.bufferTooSmall, signatureLen, none, false⟩
    else if reqSigLen - 11 < dataLen then ⟨.dataLenRange, signatureLen, none, false⟩
    else
      let paddingLen := reqSigLen - 3 - dataLen
      let count := (paddingLen + 2).toNat - 2
      let block := (((Block.mk env.stack false).write 0 0).write 1 1).fill 2 count
      let block := (block.write (2 + count) 0).copy (2 + count + 1) data.bytes
      match env.functions, env.objects ctx.key with
      | some sk, some o =>
        let input := block.read (reqSigLen.setWidth 16).toNat
        let handed := some ⟨skmRsaPkcsNopad, o.skObjHandle, input⟩
        match sk.decrypt skmRsaPkcsNopad o.skObjHandle input (signatureLen.setWidth 16) with
        | none => ⟨.generalError, signatureLen, handed, block.outside⟩
        | some signature => ⟨.ok, storeLow signatureLen signature.length, handed, block.outside⟩
      | _, _ => ⟨.argumentsBad, signatureLen, none, block.outside⟩

def hashMechanisms (mechanism : BitVec 64) : Option (BitVec 32 × BitVec 32) :=
  if mechanism = ckmMd5RsaPkcs then some (111, 131)
  else if mechanism = ckmSha1RsaPkcs then some (112, 132)
  else if mechanism = ckmSha256RsaPkcs then some (114, 134)
  else if mechanism = ckmSha384RsaPkcs then some (115, 135)
  else if mechanism = ckmSha512RsaPkcs then some (116, 136)
  else none

def rsaHashSignPkcs (env : Env) (ctx : Context) (data : Message) (pSignature : Bool) (signatureLen : BitVec 64) :
    Outcome :=
  let attr := getAttrValue env ctx.key [⟨ckaModulus, none⟩]
  if attr.1 ≠ .ok then ⟨attr.1, signatureLen, none, false⟩
  else
    let reqSigLen := (attr.2[0]?.map Answer.ulValueLen).getD 0
    if pSignature = false then ⟨.ok, reqSigLen, none, false⟩
    else if signatureLen < reqSigLen then ⟨.bufferTooSmall, signatureLen, none, false⟩
    else
      match env.functions, env.objects ctx.key with
      | some sk, some o =>
        match hashMechanisms ctx.mech.mechanism with
        | none => ⟨.mechanismInvalid, signatureLen, none, false⟩
        | some (signType, digestType) =>
          match sk.digest digestType (data.bytes.take (data.bytes.length % 65536)) (BitVec.ofNat 16 maxHashLen) with
          | none => ⟨.generalError, signatureLen, none, false⟩
          | some hash =>
            let handed := some ⟨signType, o.skObjHandle, hash⟩
            match sk.sign signType o.skObjHandle hash (signatureLen.setWidth 16) with
            | none => ⟨.generalError, signatureLen, handed, false⟩
            | some signature => ⟨.ok, storeLow signatureLen signature.length, handed, false⟩
      | _, _ => ⟨.argumentsBad, signatureLen, none, false⟩

def Context.clear (ctx : Context) : Context :=
  { ctx with key := 0, mech := ⟨0, []⟩, multi := false, active := false, recover := false, contextLen := 0,
             context := none }

-- The second part of `sign`, behind the function for the mechanism.
def signed (ctx : Context) (pSignature : Bool) (o : Outcome) : Outcome × Context :=
  if (o.rc = .ok ∧ pSignature = false) ∨ o.rc = .bufferTooSmall then (o, ctx) else (o, ctx.clear)

def sign (env : Env) (ctx : Context) (data : Message) (pSignature : Bool) (signatureLen : BitVec 64) :
    Outcome × Context :=
  if ctx.active = false then (⟨.operationNotInitialized, signatureLen, none, false⟩, ctx)
  else if ctx.mech.mechanism = ckmRsaPkcs then
    signed ctx pSignature (rsaSignPkcs env ctx data pSignature signatureLen)
  else if ctx.mech.mechanism ∈ rsaMechanisms then
    signed ctx pSignature (rsaHashSignPkcs env ctx data pSignature signatureLen)
  else (⟨.mechanismInvalid, signatureLen, none, false⟩, ctx)

inductive Call where
  | signInit (env : Env) (mech : Mechanism) (recoverMode : Bool) (key : Nat)
  | sign (env : Env) (data : Message) (pSignature : Bool) (signatureLen : BitVec 64)

def Call.run (ctx : Context) : Call → Rv × Context
  | .signInit env mech recoverMode key => Signing.signInit env ctx mech recoverMode key
  | .sign env data pSignature signatureLen =>
    let (o, ctx) := Signing.sign env ctx data pSignature signatureLen
    (o.rc, ctx)

def history (calls : List Call) : List (Call × Rv) × Context :=
  calls.foldl (fun (past, ctx) c => (past ++ [(c, (c.run ctx).1)], (c.run ctx).2)) ([], .zero)

end Flexbuild.Signing
