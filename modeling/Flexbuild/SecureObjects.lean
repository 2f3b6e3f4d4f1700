import Flexbuild.ByteMemory
import Flexbuild.Words

/-! The attributes of secure objects on their way between a client and the trusted
application that keeps them. A packed buffer is the number of attributes, a header of
three words for each (type, offset of the value, length) and the values behind the
headers. Only what holds pointers has addresses; the address zero is the null pointer. -/
namespace Flexbuild.SecureObjects
open ByteMemory Words

inductive Status where
  | badParameters | shortBuffer | notSupported | itemNotFound | generic
  deriving DecidableEq, Repr

inductive Failure where
  | fault
  | status (code : Status)
  deriving DecidableEq, Repr

abbrev Result := Except Failure

structure Attribute where
  type : BitVec 32
  value : Nat
  valueLen : BitVec 16
  deriving DecidableEq, Repr

def skAttrObjectType : BitVec 32 := 0#32
def skAttrObjectIndex : BitVec 32 := 1#32
def skAttrObjectLabel : BitVec 32 := 2#32
def skAttrKeyType : BitVec 32 := 5#32
def skAttrModulusBits : BitVec 32 := 30#32
def skAttrModulus : BitVec 32 := 31#32
def skAttrPublicExponent : BitVec 32 := 32#32
def skAttrPrivateExponent : BitVec 32 := 33#32
def skAttrPrime1 : BitVec 32 := 34#32
def skAttrPrime2 : BitVec 32 := 35#32
def skAttrExponent1 : BitVec 32 := 36#32
def skAttrExponent2 : BitVec 32 := 37#32
def skAttrCoefficient : BitVec 32 := 38#32

def skKeyPair : BitVec 32 := 0x00010000#32
def skPublicKey : BitVec 32 := 0x00020000#32
def skkRsa : BitVec 32 := 0#32
def skkEc : BitVec 32 := 1#32

inductive Machine where
  | narrow | wide
  deriving DecidableEq, Repr

def Machine.bits : Machine → Nat
  | .narrow => 32
  | .wide => 64

def Machine.attributeSize : Machine → Nat
  | .narrow => 12
  | .wide => 24

def roundup (valueLen : BitVec 16) : Nat := alignUp 32 valueLen.toNat 4

def put (size : Nat) (m : Memory) (a : Nat) (bytes : List Byte) : Result Memory :=
  if a + bytes.length ≤ size then .ok (store m a bytes) else .error .fault

def fetch (m : Memory) (value n : Nat) : Result (List Byte) :=
  if value = 0 then .error .fault else .ok (load m value n)

-- One header, in the slot it is given, and the value at `b`, which moves behind it.
def packAttr (mem : Memory) (size slot : Nat) (empty : Bool) (x : Attribute) (out : Memory) (b : Nat) :
    Result (Memory × Nat) := do
  let a := 4 + 12 * slot
  let out ← put size out a (wordBytes x.type)
  let out ← put size out (a + 8) (wordBytes (x.valueLen.setWidth 32))
  if empty then
    let out ← put size out (a + 4) (wordBytes 0)
    return (out, b)
  else
    let bytes ← fetch mem x.value x.valueLen.toNat
    let out ← put size out b bytes
    let out ← put size out (a + 4) (wordBytes (BitVec.ofNat 32 b))
    return (out, b + roundup x.valueLen)

def packLoop (mem : Memory) (size : Nat) (keep empty : Attribute → Bool) :
    List Attribute → Nat → Memory → Nat → Result (Memory × Nat)
  | [], _, out, b => .ok (out, b)
  | x :: rest, n, out, b =>
    if keep x then do
      let (out, b) ← packAttr mem size n (empty x) x out b
      packLoop mem size keep empty rest (n + 1) out b
    else packLoop mem size keep empty rest (n + 1) out b

def getAttrSize (attrs : List Attribute) : Nat :=
  4 + 12 * attrs.length +
    (attrs.map fun x => if x.valueLen = 0 then 0 else roundup x.valueLen).sum

-- The client packs into `size` bytes; the second component is where the last value ends.
def packAttrs (mem buffer : Memory) (size : Nat) (attrs : List Attribute) : Result (Memory × Nat) :=
  if size = 0 then .error (.status .badParameters)
  else do
    let out ← put size buffer 0 (wordBytes (BitVec.ofNat 32 attrs.length))
    packLoop mem size (fun _ => true) (fun x => x.valueLen = 0) attrs 0 out (4 + 12 * attrs.length)

local instance typesLawful : LawfulBEq (BitVec 32) := inferInstance

def storedType (type : BitVec 32) : Bool :=
  type ∈ [skAttrObjectType, skAttrObjectIndex, skAttrKeyType, skAttrObjectLabel, skAttrModulusBits,
    skAttrModulus, skAttrPublicExponent]

def keeps (x : Attribute) : Bool := storedType x.type

def unvalued (x : Attribute) : Bool := x.valueLen.toInt ≤ 0 ∨ x.value = 0

def packedSize (attrs : List Attribute) : Nat :=
  4 + (attrs.map fun x =>
    if keeps x then 12 + (if unvalued x then 0 else roundup x.valueLen) else 0).sum

def packSkAttrs (mem : Memory) (attrs : List Attribute) : Result (Memory × Nat) :=
  if attrs = [] then .ok (fun _ => 0, 0)
  else do
    let bl := packedSize attrs
    let attrPack := (attrs.filter keeps).length
    let out ← put bl (fun _ => 0) 0 (wordBytes (BitVec.ofNat 32 attrPack))
    let (out, _) ← packLoop mem bl keeps unvalued attrs 0 out (4 + 12 * attrPack)
    return (out, bl)

def unpackLoop (m : Machine) (mem : Memory) (buf blen alloc : Nat) :
    Nat → Nat → Result (List Attribute)
  | 0, _ => .ok []
  | left + 1, n =>
    if blen < 4 + 12 * (n + 1) ∨ alloc < m.attributeSize * (n + 1) then .error .fault
    else
      let ap := buf + 4 + 12 * n
      let valueLen : BitVec 16 := (loadWord mem (ap + 8)).setWidth 16
      let p := (loadWord mem (ap + 4)).toNat
      if p ≠ 0 ∧ blen < wrap m.bits (p + valueLen.toNat) then .error (.status .badParameters)
      else do
        let rest ← unpackLoop m mem buf blen alloc left (n + 1)
        return ⟨loadWord mem ap, if p = 0 then 0 else wrap m.bits (p + buf), valueLen⟩ :: rest

def unpackSkAttrs (m : Machine) (mem : Memory) (buf blen : Nat) : Result (List Attribute) :=
  if blen = 0 then .ok []
  else if buf % 4 ≠ 0 ∨ blen < 4 then .error (.status .badParameters)
  else
    let numAttrs := (loadWord mem buf).toNat
    if blen - 4 < wrap m.bits (numAttrs * 12) then .error (.status .badParameters)
    else unpackLoop m mem buf blen (wrap m.bits (numAttrs * m.attributeSize)) numAttrs 0

def unpackClientLoop (m : Machine) (buf : Memory) (blen : Nat) :
    Nat → Nat → List Attribute → Memory → Result (Option Status × List Attribute × Memory)
  | 0, _, attrs, mem => .ok (none, attrs, mem)
  | _ + 1, _, [], _ => .error .fault
  | left + 1, n, x :: rest, mem =>
    if blen < 4 + 12 * (n + 1) then .error .fault
    else
      let ap := 4 + 12 * n
      let valueLen : BitVec 16 := (loadWord buf (ap + 8)).setWidth 16
      let x : Attribute := { x with type := loadWord buf ap, valueLen := valueLen }
      let p := (loadWord buf (ap + 4)).toNat
      if p = 0 then do
        let (status, rest, mem) ← unpackClientLoop m buf blen left (n + 1) rest mem
        return (status, x :: rest, mem)
      else if blen < wrap m.bits (p + valueLen.toNat) then .ok (some .generic, x :: rest, mem)
      else if blen < p + valueLen.toNat ∨ x.value = 0 ∧ valueLen ≠ 0 then .error .fault
      else do
        let mem := store mem x.value (load buf p valueLen.toNat)
        let (status, rest, mem) ← unpackClientLoop m buf blen left (n + 1) rest mem
        return (status, x :: rest, mem)

def unpackAttrs (m : Machine) (buf : Memory) (address blen : Nat) (attrs : List Attribute) (mem : Memory) :
    Result (Option Status × List Attribute × Memory) :=
  if blen = 0 then .ok (none, attrs, mem)
  else if address % 4 ≠ 0 ∨ blen < 4 then .ok (some .generic, attrs, mem)
  else
    let numAttrs := (loadWord buf 0).toNat
    if blen - 4 < wrap m.bits (numAttrs * 12) then .ok (some .generic, attrs, mem)
    else unpackClientLoop m buf blen numAttrs 0 attrs mem

def taGetSkAttr (type : BitVec 32) (attrs : List Attribute) : Option Attribute :=
  attrs.find? fun x => x.type = type

inductive TeeObjectType where
  | rsaKeypair | rsaPublicKey
  deriving DecidableEq, Repr

inductive TeeAttributeId where
  | rsaModulus | rsaPublicExponent | rsaPrivateExponent | rsaPrime1 | rsaPrime2
  | rsaExponent1 | rsaExponent2 | rsaCoefficient
  deriving DecidableEq, Repr

structure TeeAttribute where
  id : TeeAttributeId
  buffer : Nat
  length : Nat
  deriving DecidableEq, Repr

structure TeeObject where
  attrs : List (Option TeeAttribute)
  attrCount : Nat
  type : TeeObjectType
  size : BitVec 32
  deriving DecidableEq, Repr

structure Read where
  through : Attribute
  bytes : Nat
  deriving DecidableEq, Repr

def rsaPubkeyAttrs : List (BitVec 32 × TeeAttributeId) :=
  [(skAttrModulus, .rsaModulus), (skAttrPublicExponent, .rsaPublicExponent)]

def rsaKeypairAttrs : List (BitVec 32 × TeeAttributeId) :=
  rsaPubkeyAttrs ++ [(skAttrPrivateExponent, .rsaPrivateExponent), (skAttrPrime1, .rsaPrime1),
    (skAttrPrime2, .rsaPrime2), (skAttrExponent1, .rsaExponent1), (skAttrExponent2, .rsaExponent2),
    (skAttrCoefficient, .rsaCoefficient)]

def fillRsaTeeAttr (places : List (BitVec 32 × TeeAttributeId)) (attrs : List Attribute) :
    List (Option TeeAttribute) :=
  places.map fun (type, id) => (taGetSkAttr type attrs).map fun x => ⟨id, x.value, x.valueLen.toNat⟩

def getRsaObject (mem : Memory) (attrs : List Attribute) (type : TeeObjectType)
    (places : List (BitVec 32 × TeeAttributeId)) : List Read × Except Status TeeObject :=
  match taGetSkAttr skAttrModulusBits attrs with
  | none => ([], .error .badParameters)
  | some size =>
    let filled := fillRsaTeeAttr places attrs
    ([⟨size, 4⟩], .ok ⟨filled, (filled.filter Option.isSome).length, type, loadWord mem size.value⟩)

def getKeyObject (mem : Memory) (attrs : List Attribute) (type : TeeObjectType)
    (places : List (BitVec 32 × TeeAttributeId)) : List Read × Except Status TeeObject :=
  match taGetSkAttr skAttrKeyType attrs with
  | none => ([], .error .badParameters)
  | some key =>
    let keyType := loadWord mem key.value
    if keyType = skkRsa then
      let (reads, object) := getRsaObject mem attrs type places
      (⟨key, 4⟩ :: reads, object)
    else ([⟨key, 4⟩], .error (if keyType = skkEc then .notSupported else .badParameters))

def taGetTeeObjectTypeAndAttr (mem : Memory) (attrs : List Attribute) : List Read × Except Status TeeObject :=
  match taGetSkAttr skAttrObjectType attrs with
  | none => ([], .error .badParameters)
  | some object =>
    let objectType := loadWord mem object.value
    let (reads, result) :=
      if objectType = skKeyPair then getKeyObject mem attrs .rsaKeypair rsaKeypairAttrs
      else if objectType = skPublicKey then getKeyObject mem attrs .rsaPublicKey rsaPubkeyAttrs
      else ([], .error .badParameters)
    (⟨object, 4⟩ :: reads, result)

def placed (address : Nat) (m : Memory) : Memory := fun i => m (i - address)

def matchAttrs (data : Memory) (objAttrs : List Attribute) :
    List Attribute → Memory → Option Status → Result (List Attribute × Memory × Option Status)
  | [], mem, resAttr => .ok ([], mem, resAttr)
  | x :: rest, mem, resAttr =>
    match taGetSkAttr x.type objAttrs with
    | none => do
      let (rest, mem, resAttr) ← matchAttrs data objAttrs rest mem (some .badParameters)
      return (x :: rest, mem, resAttr)
    | some y =>
      if x.value = 0 then do
        let (rest, mem, resAttr) ← matchAttrs data objAttrs rest mem resAttr
        return ({ x with valueLen := y.valueLen } :: rest, mem, resAttr)
      else if x.valueLen.toNat < y.valueLen.toNat then do
        let (rest, mem, resAttr) ← matchAttrs data objAttrs rest mem (some .shortBuffer)
        return ({ x with valueLen := -1 } :: rest, mem, resAttr)
      else if y.value = 0 ∧ y.valueLen ≠ 0 then .error .fault
      else do
        let mem := store mem x.value (load data y.value y.valueLen.toNat)
        let (rest, mem, resAttr) ← matchAttrs data objAttrs rest mem resAttr
        return ({ x with valueLen := y.valueLen } :: rest, mem, resAttr)

-- The command of the trusted application on the shared memory at `buf`; the stored bytes
-- of the object are read to `heap`.
def taGetObjectAttributes (m : Machine) (object : Option (Memory × Nat)) (heap : Nat) (mem : Memory)
    (buf size : Nat) : Result Memory := do
  let attrs ← unpackSkAttrs m mem buf size
  match object with
  | none => .error (.status .itemNotFound)
  | some (data, dataLen) =>
    if dataLen < 4 then .error .fault
    else
      let objAttrs ← unpackSkAttrs m (placed heap data) heap dataLen
      let (attrs, mem, resAttr) ← matchAttrs (placed heap data) objAttrs attrs mem none
      let (out, outLen) ← packSkAttrs mem attrs
      if size < outLen then .error (.status .shortBuffer)
      else
        match resAttr with
        | some code => .error (.status code)
        | none => .ok (store mem buf (load out 0 outLen))

def skGetObjectAttribute (m : Machine) (object : Option (Memory × Nat)) (heap buf address : Nat)
    (buffer client : Memory) (attrs : List Attribute) : Result (Option Status × List Attribute × Memory) :=
  let ret : Option Status := if attrs = [] then some .badParameters else none
  let size := getAttrSize attrs
  match packAttrs client buffer size attrs with
  | .error .fault => .error .fault
  | .error (.status code) => .ok (some code, attrs, client)
  | .ok (out, _) =>
    match taGetObjectAttributes m object heap (placed buf out) buf size with
    | .error .fault => .error .fault
    | .error (.status code) => .ok (some code, attrs, client)
    | .ok mem => do
      let (_, attrs, client) ← unpackAttrs m (fun i => mem (buf + i)) address size attrs client
      return (ret, attrs, client)

end Flexbuild.SecureObjects
