import Flexbuild.SecureSearch
import Mathlib.Data.List.Range

/-! The storage of the trusted application over its life. Each new object is named by the next number of a database,
which is itself an object of the storage. A number that was drawn is spent, also when no object comes of it. -/
namespace Flexbuild.SecureStore
open ByteMemory SecureObjects
open SecureObjects (Attribute)

-- An object with this name is there already, or the platform reports something else.
inductive Code where
  | failed (failure : Failure)
  | accessConflict
  | other

-- Which calls of the platform work, but for the name that is looked for. A read, a write or a creation that fails
-- changes nothing.
structure Replies where
  opens : Bool
  allocates : Bool
  populates : Bool
  generates : Bool
  reads : Bool
  seeks : Bool
  writes : Bool
  creates : Bool

section storage
variable (st : Storage)

def openObject (opens : Bool) (id : List Byte) : Except Code Persistent :=
  if opens then (openPersistentObject st.objects id).mapError .failed else .error .other

def createObject (creates : Bool) (o : Persistent) (named : o.id.length = 4 ∨ o.id = dbObjId) : Except Code Storage :=
  if fresh : o.id ∈ st.objects.map Persistent.id then .error .accessConflict
  else if creates then
    .ok ⟨st.objects ++ [o], by simpa [or_imp, forall_and] using ⟨st.ids, named⟩, by
      rw [List.map_append, List.map_singleton]
      exact List.nodup_append.mpr ⟨st.distinct, by simp, fun _ member _ last same =>
        fresh (List.mem_singleton.mp last ▸ same ▸ member)⟩⟩
  else .error .other

def closeAndDelete (id : List Byte) : Storage where
  objects := st.objects.filter fun o => o.id ≠ id
  ids o member := st.ids o (List.mem_of_mem_filter member)
  distinct := st.distinct.sublist (List.filter_sublist.map _)

def writeWord (id : List Byte) (v : BitVec 32) : Storage where
  objects := st.objects.map fun o => if o.id = id then { o with data := storeWord o.data 0 v, dataSize := max 4 o.dataSize } else o
  ids := by
    intro o member
    obtain ⟨old, before, rfl⟩ := List.mem_map.mp member
    have := st.ids old before
    split <;> exact this
  distinct := by
    rw [List.map_map]
    refine (List.map_congr_left fun o _ => ?_) ▸ st.distinct
    dsimp only [Function.comp]
    split <;> rfl

def taOpenDatabase (r : Replies) : Except Code Unit × Storage :=
  match openObject st r.opens dbObjId with
  | .ok _ => (.ok (), st)
  | .error (.failed (.status .itemNotFound)) =>
    match createObject st r.creates ⟨dbObjId, fun _ => 0, 4⟩ (.inr rfl) with
    | .ok st => (.ok (), st)
    | .error code => (.error code, st)
  | .error code => (.error code, st)

-- The bytes behind the end of the object keep the zeros they are read over.
def objIdOf (db : Persistent) : BitVec 32 := loadWord (fun i => if i < db.dataSize then db.data i else 0) 0

def taGetNextObjectId (r : Replies) : Except Code (BitVec 32) × Storage :=
  match openObject st r.opens dbObjId with
  | .error code => (.error code, st)
  | .ok db =>
    if r.reads && r.seeks && r.writes then (.ok (objIdOf db), writeWord st dbObjId (objIdOf db + 1)) else (.error .other, st)

def keepObject (r : Replies) (packed : Memory × Nat) : Except Code (BitVec 32) × Storage :=
  match taGetNextObjectId st r with
  | (.error code, st) => (.error code, st)
  | (.ok nextObjId, st) =>
    match createObject st r.creates ⟨wordBytes nextObjId, packed.1, packed.2⟩ (.inl rfl) with
    | .ok st => (.ok nextObjId, st)
    | .error code => (.error code, st)

end storage

structure Buffer where
  machine : Machine
  mem : Memory
  buf : Nat
  size : Nat

def createPacking (b : Buffer) (r : Replies) : Except Code (Memory × Nat) := do
  let attrs ← (unpackSkAttrs b.machine b.mem b.buf b.size).mapError .failed
  let _ ← (taGetTeeObjectTypeAndAttr b.mem attrs).2.mapError fun status => .failed (.status status)
  if r.allocates && r.populates then (packSkAttrs b.mem attrs).mapError .failed else .error .other

structure Generation where
  objType : Nat
  keyType : Nat
  modulusAt : Nat
  pubExpAt : Nat
  modulus : List Byte
  pubExp : List Byte

def skmRsaPkcsKeyPairGen : BitVec 32 := 141

def taGenerateRsaKeyPair (b : Buffer) (g : Generation) (r : Replies) : Except Code (List Attribute × Memory) := do
  let inAttrs ← (unpackSkAttrs b.machine b.mem b.buf b.size).mapError .failed
  match taGetSkAttr skAttrModulusBits inAttrs with
  | none => .error (.failed (.status .badParameters))
  | some bits =>
    if r.allocates && r.generates then
      let passed := (taGetSkAttr skAttrObjectIndex inAttrs).toList ++ (taGetSkAttr skAttrObjectLabel inAttrs).toList
      return ([bits, ⟨skAttrModulus, g.modulusAt, BitVec.ofNat 16 g.modulus.length⟩,
        ⟨skAttrPublicExponent, g.pubExpAt, BitVec.ofNat 16 g.pubExp.length⟩] ++ passed,
        store (store b.mem g.modulusAt g.modulus) g.pubExpAt g.pubExp)
    else .error .other

def generatePacking (mechanism : BitVec 32) (b : Buffer) (g : Generation) (r : Replies) : Except Code (Memory × Nat) :=
  if mechanism = skmRsaPkcsKeyPairGen then do
    let mem := storeWord (storeWord b.mem g.objType skKeyPair) g.keyType skkRsa
    let (attrs, mem) ← taGenerateRsaKeyPair { b with mem := mem } g r
    (packSkAttrs mem (⟨skAttrObjectType, g.objType, 4⟩ :: ⟨skAttrKeyType, g.keyType, 4⟩ :: attrs)).mapError .failed
  else .error (.failed (.status .badParameters))

-- The calls that may change the storage. The types of the parameters are what they should be, or not.
inductive Call where
  | createEntryPoint (r : Replies)
  | createObject (typed : Bool) (b : Buffer) (r : Replies)
  | generateKeyPair (typed : Bool) (mechanism : BitVec 32) (b : Buffer) (g : Generation) (r : Replies)
  | eraseObject (typed : Bool) (objId : BitVec 32) (r : Replies)

def badParameters : Code := .failed (.status .badParameters)

section calls
variable (st : Storage)

def taKeep (typed : Bool) (packing : Except Code (Memory × Nat)) (r : Replies) : Except Code (BitVec 32) × Storage :=
  if typed = false then (.error badParameters, st)
  else
    match packing with
    | .error code => (.error code, st)
    | .ok packed => keepObject st r packed

def taCreateObject (typed : Bool) (b : Buffer) (r : Replies) : Except Code (BitVec 32) × Storage :=
  taKeep st typed (createPacking b r) r

def taGenerateKeyPair (typed : Bool) (mechanism : BitVec 32) (b : Buffer) (g : Generation) (r : Replies) :
    Except Code (BitVec 32) × Storage :=
  taKeep st typed (generatePacking mechanism b g r) r

def taEraseObject (typed : Bool) (objId : BitVec 32) (r : Replies) : Except Code Unit × Storage :=
  if typed = false then (.error badParameters, st)
  else
    match openObject st r.opens (wordBytes objId) with
    | .error code => (.error code, st)
    | .ok _ => (.ok (), closeAndDelete st (wordBytes objId))

end calls

inductive Event where
  | created (objId : BitVec 32) (packed : Memory × Nat)
  | erased (objId : BitVec 32)

def Event.creates : Event → Option (BitVec 32)
  | .created objId _ => some objId
  | .erased _ => none

def told (answer : Except Code (BitVec 32)) (packing : Except Code (Memory × Nat)) : Option Event :=
  match answer, packing with
  | .ok objId, .ok packed => some (.created objId packed)
  | _, _ => none

def step (st : Storage) : Call → Option Event × Storage
  | .createEntryPoint r => (none, (taOpenDatabase st r).2)
  | .createObject typed b r =>
    let (answer, st) := taCreateObject st typed b r
    (told answer (createPacking b r), st)
  | .generateKeyPair typed mechanism b g r =>
    let (answer, st) := taGenerateKeyPair st typed mechanism b g r
    (told answer (generatePacking mechanism b g r), st)
  | .eraseObject typed objId r =>
    match taEraseObject st typed objId r with
    | (.ok (), st) => (some (.erased objId), st)
    | (.error _, st) => (none, st)

def run : List Call → Storage → List Event × Storage
  | [], st => ([], st)
  | c :: rest, st =>
    let (event, st) := step st c
    let (events, st) := run rest st
    (event.toList ++ events, st)

-- The objects as clients know them: each is what was created last under its name, until it is erased.
abbrev Objects := BitVec 32 → Option (Memory × Nat)

def record (objects : Objects) : Event → Objects
  | .created objId packed => Function.update objects objId (some packed)
  | .erased objId => Function.update objects objId none

def kept (st : Storage) (id : List Byte) : Option (Memory × Nat) :=
  (st.objects.find? fun o => o.id = id).map fun o => (o.data, o.dataSize)

def live (st : Storage) : Objects := fun objId => kept st (wordBytes objId)

def nextOf (st : Storage) : BitVec 32 :=
  (kept st dbObjId).elim 0 fun db => objIdOf ⟨dbObjId, db.1, db.2⟩

variable {st st' : Storage} {o : Persistent} {id id' : List Byte} {v objId objId' : BitVec 32} {r : Replies} {c : Call}
  {packed : Memory × Nat}

def unused : Storage := ⟨[], by simp, by simp⟩

end Flexbuild.SecureStore
