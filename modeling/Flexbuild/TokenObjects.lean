import Flexbuild.ObjectSearch
import Flexbuild.SecureObjects

/-! The objects of a token as the first search reads them. The secure library enumerates its
objects; each RSA key becomes a PKCS#11 object, a key pair two, with a template put together from
attributes that are read one by one and from defaults. -/
namespace Flexbuild.TokenObjects
open ByteMemory (Byte)
open ObjectSearch (Rv Attribute maxFindListObjects)
open SecureObjects (skAttrObjectType skAttrObjectIndex skAttrObjectLabel skAttrKeyType skAttrModulusBits
  skAttrModulus skAttrPublicExponent skKeyPair skPublicKey skkRsa)

def ckaClass : BitVec 64 := 0x0
def ckaToken : BitVec 64 := 0x1
def ckaPrivate : BitVec 64 := 0x2
def ckaLabel : BitVec 64 := 0x3
def ckaTrusted : BitVec 64 := 0x86
def ckaKeyType : BitVec 64 := 0x100
def ckaSubject : BitVec 64 := 0x101
def ckaId : BitVec 64 := 0x102
def ckaSensitive : BitVec 64 := 0x103
def ckaEncrypt : BitVec 64 := 0x104
def ckaDecrypt : BitVec 64 := 0x105
def ckaWrap : BitVec 64 := 0x106
def ckaUnwrap : BitVec 64 := 0x107
def ckaSign : BitVec 64 := 0x108
def ckaSignRecover : BitVec 64 := 0x109
def ckaVerify : BitVec 64 := 0x10A
def ckaVerifyRecover : BitVec 64 := 0x10B
def ckaDerive : BitVec 64 := 0x10C
def ckaStartDate : BitVec 64 := 0x110
def ckaEndDate : BitVec 64 := 0x111
def ckaModulus : BitVec 64 := 0x120
def ckaModulusBits : BitVec 64 := 0x121
def ckaPublicExponent : BitVec 64 := 0x122
def ckaExtractable : BitVec 64 := 0x162
def ckaLocal : BitVec 64 := 0x163
def ckaNeverExtractable : BitVec 64 := 0x164
def ckaAlwaysSensitive : BitVec 64 := 0x165
def ckaKeyGenMechanism : BitVec 64 := 0x166
def ckaModifiable : BitVec 64 := 0x170
def ckaAlwaysAuthenticate : BitVec 64 := 0x202
def ckaWrapWithTrusted : BitVec 64 := 0x210
def ckaWrapTemplate : BitVec 64 := 0x40000211
def ckaUnwrapTemplate : BitVec 64 := 0x40000212
def ckaAllowedMechanisms : BitVec 64 := 0x40000600
def ckaVendorDefined : BitVec 64 := 0x80000000

def ckoPublicKey : BitVec 64 := 2
def ckoPrivateKey : BitVec 64 := 3
def ckkRsa : BitVec 64 := 0

def rsaPrivKeyMechs : List (BitVec 64) := [0x1, 0x5, 0x6, 0x46, 0x40, 0x41, 0x42]

def ulongBytes (v : BitVec 64) : List Byte := (List.range 8).map fun i => v.extractLsb' (8 * i) 8

def uint32Of (l : List Byte) : BitVec 32 := l.getD 3 0 ++ l.getD 2 0 ++ l.getD 1 0 ++ l.getD 0 0

def bbool (b : Bool) : List Byte := [if b then 1 else 0]

inductive ObjectClass where
  | publicKey | privateKey
  deriving DecidableEq, Repr

structure Object where
  skObjHandle : Nat
  objClass : ObjectClass
  templateList : List Attribute
  deriving DecidableEq

structure Token where
  enumerated : List Nat
  few : enumerated.length ≤ maxFindListObjects
  attrs : Nat → BitVec 32 → Option (List Byte)
  short : ∀ h type value, attrs h type = some value → value.length < 65536
  words : ∀ h type value, type ∈ [skAttrObjectType, skAttrKeyType, skAttrModulusBits] →
    attrs h type = some value → value.length = 4

inductive DefaultGroup where
  | common | key | keyClass | rsa
  deriving DecidableEq, Repr

inductive Site where
  | objectType
  | node (c : ObjectClass)
  | lengths (c : ObjectClass)
  | skAttr (c : ObjectClass) (type : BitVec 32)
  | value (c : ObjectClass) (type : BitVec 32)
  | mapped (c : ObjectClass) (type : BitVec 32)
  | attr (c : ObjectClass) (type : BitVec 32)
  | attrNode (c : ObjectClass) (type : BitVec 32)
  | defaultAttr (c : ObjectClass) (group : DefaultGroup) (i : Nat)
  deriving DecidableEq, Repr

abbrev Faults := Site → Bool

structure Pattern where
  enumerate : Bool
  object : Nat → Faults

section Reading

variable (token : Token) (fault : Faults)

def skGetObjectAttribute (fails : Bool) (h : Nat) (types : List (BitVec 32)) :
    Option (List (BitVec 32 × List Byte)) :=
  if fails then none else types.mapM fun type => (token.attrs h type).map fun value => (type, value)

def isAttributeDefined (type : BitVec 64) : Bool :=
  decide (ckaVendorDefined ≤ type) ||
  [0x0, 0x1, 0x2, 0x3, 0x10, 0x11, 0x80, 0x81, 0x82, 0x100, 0x102, 0x101, 0x103, 0x105, 0x104, 0x106, 0x108,
    0x107, 0x109, 0x10A, 0x10C, 0x10B, 0x110, 0x111, 0x130, 0x132, 0x131, 0x160, 0x162, 0x163, 0x161, 0x164,
    0x170, 0x180, 0x165, 0x181, 0x300, 0x301, 0x166, 0x302, 0x133, 0x12, 0x134, 0x83, 0x85, 0x84, 0x86, 0x121,
    0x120, 0x122, 0x123, 0x125, 0x126, 0x124, 0x128, 0x127].contains type

def templateUpdateAttr (list : List Attribute) (new : Attribute) : List Attribute :=
  new :: list.eraseP fun a => a.type == new.type

def templateAddAttr (noAttr noNode : Bool) (list : List Attribute) (a : Attribute) : Except Rv (List Attribute) :=
  if isAttributeDefined a.type = false then .ok list
  else if noAttr then .error .hostMemory
  else if noNode then .error .hostMemory
  else .ok (templateUpdateAttr list a)

def mapSkToPkcsAttr (noMemory : Bool) (type : BitVec 32) (value : List Byte) : Option Attribute :=
  if type = skAttrObjectType then
    if uint32Of value = skKeyPair then if noMemory then none else some ⟨ckaClass, ulongBytes ckoPrivateKey⟩
    else if uint32Of value = skPublicKey then if noMemory then none else some ⟨ckaClass, ulongBytes ckoPublicKey⟩
    else none
  else if type = skAttrKeyType then
    if uint32Of value = skkRsa then if noMemory then none else some ⟨ckaKeyType, ulongBytes ckkRsa⟩ else none
  else if type = skAttrObjectLabel then if noMemory then none else some ⟨ckaLabel, value⟩
  else if type = skAttrObjectIndex then if noMemory then none else some ⟨ckaId, value⟩
  else if type = skAttrModulusBits then
    if noMemory then none else some ⟨ckaModulusBits, ulongBytes ((uint32Of value).setWidth 64)⟩
  else if type = skAttrModulus then if noMemory then none else some ⟨ckaModulus, value⟩
  else if type = skAttrPublicExponent then if noMemory then none else some ⟨ckaPublicExponent, value⟩
  else none

def rsaPubAttrType : List (BitVec 32) :=
  [skAttrObjectLabel, skAttrObjectIndex, skAttrModulus, skAttrPublicExponent, skAttrModulusBits]

def rsaPrivAttrType : List (BitVec 32) :=
  [skAttrObjectLabel, skAttrObjectIndex, skAttrModulus, skAttrPublicExponent]

-- A length of `0xFFFF` is taken for the mark of a missing attribute.
def addAttributes (c : ObjectClass) (h : Nat) :
    List (BitVec 32 × List Byte) → List Attribute → Except Rv (List Attribute)
  | [], list => .ok list
  | (type, value) :: rest, list =>
    if (BitVec.ofNat 16 value.length).toInt = -1 then addAttributes c h rest list
    else if fault (.skAttr c type) then .error .hostMemory
    else
      match skGetObjectAttribute token (fault (.value c type)) h [type] with
      | some [(_, value)] =>
        match mapSkToPkcsAttr (fault (.mapped c type)) type value with
        | none => .error .generalError
        | some a => do
          let list ← templateAddAttr (fault (.attr c type)) (fault (.attrNode c type)) list a
          addAttributes c h rest list
      | _ => .error .generalError

def objectAddTemplate (c : ObjectClass) (h : Nat) (types : List (BitVec 32)) : Except Rv (List Attribute) :=
  match skGetObjectAttribute token (fault (.lengths c)) h types with
  | none => .error .generalError
  | some attrs => addAttributes token fault c h attrs []

def createRsaKeyObject (c : ObjectClass) (h : Nat) (types : List (BitVec 32)) : Except Rv (List Attribute) :=
  if fault (.node c) then .error .hostMemory else objectAddTemplate token fault c h types

def createRsaPubKeyObject (h : Nat) : Except Rv (List Attribute) :=
  createRsaKeyObject token fault .publicKey h rsaPubAttrType

def createRsaPrivKeyObject (h : Nat) : Except Rv (List Attribute) :=
  createRsaKeyObject token fault .privateKey h rsaPrivAttrType

def commonDefaults : List Attribute :=
  [⟨ckaToken, bbool true⟩, ⟨ckaModifiable, bbool false⟩, ⟨ckaPrivate, bbool false⟩]

def keyDefaults : List Attribute :=
  [⟨ckaStartDate, []⟩, ⟨ckaDerive, bbool false⟩, ⟨ckaEndDate, []⟩, ⟨ckaLocal, bbool false⟩]

def pubkDefaults : List Attribute :=
  [⟨ckaClass, ulongBytes ckoPublicKey⟩, ⟨ckaSubject, []⟩, ⟨ckaEncrypt, bbool true⟩, ⟨ckaVerify, bbool false⟩,
    ⟨ckaVerifyRecover, bbool false⟩, ⟨ckaWrap, bbool false⟩, ⟨ckaTrusted, bbool false⟩, ⟨ckaWrapTemplate, []⟩]

def privkDefaults : List Attribute :=
  [⟨ckaClass, ulongBytes ckoPrivateKey⟩, ⟨ckaSubject, []⟩, ⟨ckaSensitive, bbool true⟩, ⟨ckaDecrypt, bbool false⟩,
    ⟨ckaSign, bbool true⟩, ⟨ckaSignRecover, bbool false⟩, ⟨ckaUnwrap, bbool false⟩,
    ⟨ckaExtractable, bbool false⟩, ⟨ckaNeverExtractable, bbool true⟩, ⟨ckaAlwaysSensitive, bbool true⟩,
    ⟨ckaWrapWithTrusted, bbool false⟩, ⟨ckaUnwrapTemplate, []⟩, ⟨ckaAlwaysAuthenticate, bbool false⟩]

def rsaDefaults (mechs : List (BitVec 64)) : List Attribute :=
  [⟨ckaKeyType, ulongBytes ckkRsa⟩, ⟨ckaKeyGenMechanism, []⟩,
    ⟨ckaAllowedMechanisms, mechs.flatMap ulongBytes⟩]

-- The attributes and their nodes are allocated first; none is set when one allocation fails.
def setDefaultAttrs (noMemory : Nat → Bool) (defaults list : List Attribute) : Except Rv (List Attribute) :=
  if (List.range (2 * defaults.length)).any noMemory then .error .hostMemory
  else .ok (defaults.foldl templateUpdateAttr list)

def templateAddDefaultCommonAttr (c : ObjectClass) (list : List Attribute) : Except Rv (List Attribute) :=
  setDefaultAttrs (fun i => fault (.defaultAttr c .common i)) commonDefaults list

def keyObjectSetDefaultAttr (c : ObjectClass) (list : List Attribute) : Except Rv (List Attribute) :=
  setDefaultAttrs (fun i => fault (.defaultAttr c .key i)) keyDefaults list

def pubkAddDefaultAttr (list : List Attribute) : Except Rv (List Attribute) := do
  let list ← keyObjectSetDefaultAttr fault .publicKey list
  setDefaultAttrs (fun i => fault (.defaultAttr .publicKey .keyClass i)) pubkDefaults list

def rsaPubkAddDefaultAttr (list : List Attribute) : Except Rv (List Attribute) := do
  let list ← pubkAddDefaultAttr fault list
  setDefaultAttrs (fun i => fault (.defaultAttr .publicKey .rsa i)) (rsaDefaults []) list

def privkAddDefaultAttr (list : List Attribute) : Except Rv (List Attribute) := do
  let list ← keyObjectSetDefaultAttr fault .privateKey list
  setDefaultAttrs (fun i => fault (.defaultAttr .privateKey .keyClass i)) privkDefaults list

def rsaPrivkAddDefaultAttr (list : List Attribute) : Except Rv (List Attribute) := do
  let list ← privkAddDefaultAttr fault list
  setDefaultAttrs (fun i => fault (.defaultAttr .privateKey .rsa i)) (rsaDefaults rsaPrivKeyMechs) list

def templateAddDefaultAttr (c : ObjectClass) (list : List Attribute) : Except Rv (List Attribute) := do
  let list ← templateAddDefaultCommonAttr fault c list
  match c with
  | .publicKey => rsaPubkAddDefaultAttr fault list
  | .privateKey => rsaPrivkAddDefaultAttr fault list

def rsaPubKey (h : Nat) : Except Rv Object := do
  let list ← createRsaPubKeyObject token fault h
  let list ← templateAddDefaultAttr fault .publicKey list
  .ok ⟨h, .publicKey, list⟩

def rsaPrivKey (h : Nat) : Except Rv Object := do
  let list ← createRsaPrivKeyObject token fault h
  let list ← templateAddDefaultAttr fault .privateKey list
  .ok ⟨h, .privateKey, list⟩

def readObject (h : Nat) (list : List Object) : Rv × List Object :=
  match skGetObjectAttribute token (fault .objectType) h [skAttrObjectType, skAttrKeyType] with
  | some [(_, objType), (_, keyType)] =>
    if uint32Of objType = skKeyPair then
      if uint32Of keyType = skkRsa then
        match rsaPubKey token fault h with
        | .error rc => (rc, list)
        | .ok pub =>
          match rsaPrivKey token fault h with
          | .error rc => (rc, pub :: list)
          | .ok priv => (.ok, priv :: pub :: list)
      else (.ok, list)
    else if uint32Of objType = skPublicKey then
      if uint32Of keyType = skkRsa then
        match rsaPubKey token fault h with
        | .error rc => (rc, list)
        | .ok pub => (.ok, pub :: list)
      else (.ok, list)
    else (.ok, list)
  | _ => (.generalError, list)

end Reading

def readObjects (token : Token) (object : Nat → Faults) : Nat → List Nat → List Object → Rv × List Object
  | _, [], list => (.ok, list)
  | j, h :: rest, list =>
    match readObject token (object j) h list with
    | (.ok, list) => readObjects token object (j + 1) rest list
    | failed => failed

def teeSlotId : Nat := 0

def getAllTokenObjects (token : Token) (p : Pattern) (slotId : Nat) (list : List Object) : Rv × List Object :=
  if slotId ≠ teeSlotId then (.argumentsBad, list)
  else if p.enumerate then (.generalError, list)
  else readObjects token p.object 0 token.enumerated list

-- The part of `C_FindObjectsInit` that takes a list with objects in it for a loaded one.
def loadWhenEmpty (token : Token) (p : Pattern) (list : List Object) : Rv × List Object :=
  if list = [] then getAllTokenObjects token p teeSlotId list else (.ok, list)

end Flexbuild.TokenObjects
