import Mathlib.Logic.Function.Basic
import Mathlib.Data.Int.Basic
import Flexbuild.Words

/-! Slab boot: the table of buffer requests that applications register before
initialisation, and its distribution over the buffer pool ids found in the
container. Partition numbers index the table as `enum memory_partition_id` does.
Products of `int` wrap at 32 bits; buffer counts are `uint32_t` and wrap too. -/
namespace Flexbuild.SlabBoot
open Words (wrap int32)

inductive Errno where
  | einval | enomem | enodev
  deriving DecidableEq, Repr

def memPartDpDdr : Nat := 1
def memPartSystemDdr : Nat := 2
def memPartPeb : Nat := 4
def slabNumMemPartitions : Nat := 7

def slabDdrManagementFlag : Nat := 1
def slabHwMetaOffset : Nat := 8

def slabBuffSizesArr : List Nat :=
  [24, 56, 120, 248, 504, 1016, 2040, 4088, 8184, 16376, 32760]

structure RequestTableInfo where
  buffSize : Nat
  extra : Nat
  max : Nat
  committedBufs : Nat
  alignment : Nat
  flags : Nat
  deriving DecidableEq, Repr

structure MemoryTypesTable where
  memPidBufferRequest : Nat → Option (List RequestTableInfo)
  numDdrPools : Nat

def MemoryTypesTable.empty : MemoryTypesTable := ⟨fun _ => none, 0⟩

structure Registration where
  committedBuffs : Nat
  maxBuffs : Nat
  buffSize : Nat
  alignment : Nat
  memPid : Nat
  flags : Nat
  numDdrPools : Nat
  deriving DecidableEq, Repr

def Registration.sizeClass (r : Registration) : Option Nat :=
  slabBuffSizesArr.findIdx? (fun size => decide (r.buffSize ≤ size))

structure Registration.Typed (r : Registration) : Prop where
  max : r.maxBuffs < 2 ^ 32
  alignment : r.alignment < 2 ^ 16

def isPowerOf2 (n : Nat) : Bool := n &&& (n - 1) == 0

def isPowerValidAlign (value maxSize : Nat) : Bool :=
  decide (value ≤ maxSize) && (value &&& wrap 32 (2 ^ 32 - value)) == value

-- `strict` is a build with CHECK_ALIGNMENT, `size` the class the request falls in.
def alignmentValid (strict : Bool) (alignment size : Nat) : Bool :=
  if strict then isPowerValidAlign alignment (size + slabHwMetaOffset)
  else decide (0 < alignment) && isPowerOf2 alignment

def slabCheckRegistrationParameters (memExists : Nat → Bool) (strict : Bool)
    (r : Registration) : Except Errno Nat :=
  if memExists r.memPid = false then .error .einval
  else if r.memPid ≠ memPartDpDdr ∧ r.memPid ≠ memPartSystemDdr ∧ r.memPid ≠ memPartPeb then
    .error .einval
  else if r.flags ≠ 0 ∧ r.flags ≠ slabDdrManagementFlag then .error .einval
  else if r.buffSize = 0 then .error .einval
  else
    match r.sizeClass with
    | none => .error .einval
    | some index =>
        if r.maxBuffs < r.committedBuffs then .error .einval
        else if r.maxBuffs = 0 then .error .einval
        else if alignmentValid strict r.alignment (slabBuffSizesArr.getD index 0) then .ok index
        else .error .einval

def freshTable (heap : Nat → Nat) : List RequestTableInfo :=
  slabBuffSizesArr.mapIdx (fun i size => ⟨size, 0, 0, 0, 0, heap i⟩)

-- The committed count is overridden by the maximum, so `extra` never grows.
def RequestTableInfo.add (info : RequestTableInfo) (r : Registration) : RequestTableInfo :=
  let committedBuffs := r.maxBuffs
  let committedBufs := wrap 32 (info.committedBufs + committedBuffs)
  let extra := if info.extra < r.maxBuffs - committedBuffs then r.maxBuffs - committedBuffs
    else info.extra
  { info with
    committedBufs := committedBufs
    extra := extra
    max := wrap 32 (committedBufs + extra)
    flags := info.flags ||| r.flags
    alignment := if info.alignment < r.alignment then r.alignment else info.alignment }

def slabRegisterContextBufferRequirements (memExists : Nat → Bool) (strict : Bool)
    (heap : Nat → Nat) (data : MemoryTypesTable) (r : Registration) :
    Except Errno MemoryTypesTable :=
  match slabCheckRegistrationParameters memExists strict r with
  | .error e => .error e
  | .ok index =>
      let table := (data.memPidBufferRequest r.memPid).getD (freshTable heap)
      .ok
        { memPidBufferRequest := Function.update data.memPidBufferRequest r.memPid
            (some (table.modify index (fun info => info.add r)))
          numDdrPools := wrap 32 (data.numDdrPools + r.numDdrPools) }

-- The requests registered so far, the last one first, and the table they have left.
inductive Registered (memExists : Nat → Bool) (strict : Bool) :
    List Registration → MemoryTypesTable → Prop where
  | start : Registered memExists strict [] .empty
  | register {rs : List Registration} {data next : MemoryTypesTable} (heap : Nat → Nat)
      (r : Registration) : Registered memExists strict rs data → r.Typed →
      slabRegisterContextBufferRequirements memExists strict heap data r = .ok next →
      Registered memExists strict (r :: rs) next

def requestedBpids (data : MemoryTypesTable) (i : Nat) : Nat :=
  match data.memPidBufferRequest i with
  | none => 0
  | some table => table.countP (fun info => decide (0 < info.max))

def partitions : List Nat := List.range slabNumMemPartitions

def totalRequestedBpids (requested : Nat → Nat) : Nat := (partitions.map requested).sum

-- Subtraction in place of a division: at most `need` ids are given.
def giveShares (total : Int) : Nat → Int → Nat × Int
  | 0, temp => (0, temp)
  | need + 1, temp =>
      if total ≤ temp then
        let rest := giveShares total need (temp - total)
        (rest.1 + 1, rest.2)
      else (0, temp)

structure Shares where
  availablePerPartition : Nat → Nat
  remainder : Nat → Int
  minimumNeeded : Nat
  available : Int

-- One partition of `slab_calc_amount_of_bpids_for_mempid`; one id is forced on it if
-- its proportion came out as zero.
def Shares.calc (requested : Nat → Nat) (total numBpids : Nat) (s : Shares) (i : Nat) : Shares :=
  if 0 < requested i then
    let share := giveShares total (requested i) (int32 (requested i * numBpids))
    let got := if share.1 = 0 then 1 else share.1
    { availablePerPartition := Function.update s.availablePerPartition i got
      remainder := Function.update s.remainder i share.2
      minimumNeeded := s.minimumNeeded + 1
      available := s.available - got }
  else s

def slabCalcAmountOfBpidsForMempid (requested : Nat → Nat) (total numBpids : Nat) :
    Except Errno Shares :=
  let s := partitions.foldl (Shares.calc requested total numBpids)
    ⟨fun _ => 0, fun _ => 0, 0, numBpids⟩
  if numBpids < s.minimumNeeded then .error .einval else .ok s

def Shares.maximumRemainder (requested : Nat → Nat) (s : Shares) : Nat × Int :=
  partitions.foldl (fun best i =>
    if best.2 < s.remainder i ∧ s.availablePerPartition i < requested i then
      (i, s.remainder i)
    else best) (0, 0)

def Shares.minimumRemainder (total : Nat) (s : Shares) : Nat × Int :=
  partitions.foldl (fun best i =>
    if 1 < s.availablePerPartition i ∧ s.remainder i < best.2 then
      (i, s.remainder i)
    else best) (0, total + 1)

def Shares.give (s : Shares) (i : Nat) : Shares :=
  { s with
    remainder := Function.update s.remainder i 0
    availablePerPartition :=
      Function.update s.availablePerPartition i (s.availablePerPartition i + 1)
    available := s.available - 1 }

def Shares.takeBack (total : Nat) (s : Shares) (i : Nat) : Shares :=
  { s with
    remainder := Function.update s.remainder i total
    availablePerPartition :=
      Function.update s.availablePerPartition i (s.availablePerPartition i - 1)
    available := s.available + 1 }

-- The spare ids, one to the largest remainder each time; the last component is `*num_bpids`.
def giveSpare (requested : Nat → Nat) (numBpids : Nat) : Nat → Shares → Shares × Nat
  | 0, s => (s, numBpids)
  | spare + 1, s =>
      let best := s.maximumRemainder requested
      if 0 < best.2 then giveSpare requested numBpids spare (s.give best.1)
      else (s, numBpids - (spare + 1))

def returnExcess (total : Nat) : Nat → Shares → Except Errno Shares
  | 0, s => .ok s
  | excess + 1, s =>
      let best := s.minimumRemainder total
      if best.2 < total then returnExcess total excess (s.takeBack total best.1)
      else .error .enodev

def slabFindProportionForRequests (data : MemoryTypesTable) (numBpids : Nat) :
    Except Errno (Shares × Nat) :=
  let requested := requestedBpids data
  let total := totalRequestedBpids requested
  match slabCalcAmountOfBpidsForMempid requested total numBpids with
  | .error e => .error e
  | .ok s =>
      if 0 < s.available then .ok (giveSpare requested numBpids s.available.toNat s)
      else (returnExcess total (-s.available).toNat s).map (fun s => (s, numBpids))

structure SlabBpidInfo where
  size : Nat
  memPid : Nat
  alignment : Nat
  numBuffers : Nat
  flags : Nat
  deriving DecidableEq, Repr

structure BpidsArr where
  cells : Nat → Option SlabBpidInfo
  position : Nat

def BpidsArr.write (arr : BpidsArr) (e : SlabBpidInfo) : BpidsArr :=
  { arr with cells := Function.update arr.cells arr.position (some e) }

def BpidsArr.advance (arr : BpidsArr) : BpidsArr := { arr with position := arr.position + 1 }

def SlabBpidInfo.of (memPid : Nat) (info : RequestTableInfo) : SlabBpidInfo :=
  ⟨info.buffSize, memPid, info.alignment, info.max, info.flags⟩

def SlabBpidInfo.merge (e : SlabBpidInfo) (info : RequestTableInfo) : SlabBpidInfo :=
  { e with
    numBuffers := wrap 32 (e.numBuffers + info.max)
    alignment := if e.alignment < info.alignment then info.alignment else e.alignment
    flags := e.flags ||| info.flags }

-- First loop of `slab_divide_memory_for_bpids`, from the largest size down: own entries until one
-- id is left. Returns what the loop has not looked at.
def ownEntries (memPid : Nat) :
    Nat → List RequestTableInfo → BpidsArr → List RequestTableInfo × BpidsArr
  | _, [], arr => ([], arr)
  | available, info :: rest, arr =>
      if 0 < info.max then
        let next := (arr.write (.of memPid info)).advance
        if available - 1 = 1 then (rest, next) else ownEntries memPid (available - 1) rest next
      else ownEntries memPid available rest arr

def mergedEntry (memPid : Nat) : Bool → List RequestTableInfo → BpidsArr → BpidsArr
  | _, [], arr => arr
  | found, info :: rest, arr =>
      if 0 < info.max then
        match found, arr.cells arr.position with
        | true, some e => mergedEntry memPid true rest (arr.write (e.merge info))
        | true, none => mergedEntry memPid true rest arr
        | false, _ => mergedEntry memPid true rest (arr.write (.of memPid info))
      else mergedEntry memPid found rest arr

def slabDivideMemoryForBpids (available memPid : Nat) (table : List RequestTableInfo)
    (arr : BpidsArr) : BpidsArr :=
  let first := if 1 < available then ownEntries memPid available table.reverse arr
    else (table.reverse, arr)
  (mergedEntry memPid false first.1 first.2).advance

structure Distribution where
  numBpids : Nat
  cells : Nat → Option SlabBpidInfo
  position : Int
  availablePerPartition : Nat → Nat

def sizeofSlabBpidInfo : Nat := 24

def fillPartition (data : MemoryTypesTable) (available : Nat → Nat) (arr : BpidsArr) (i : Nat) :
    BpidsArr :=
  if 0 < available i then
    slabDivideMemoryForBpids (available i) i ((data.memPidBufferRequest i).getD []) arr
  else arr

-- `malloc` says whether the heap grants that many bytes.
def slabProccessRegisteredRequests (malloc : Nat → Bool) (data : MemoryTypesTable)
    (numBpids : Nat) : Except Errno Distribution :=
  match slabFindProportionForRequests data numBpids with
  | .error e => .error e
  | .ok (s, used) =>
      if malloc (sizeofSlabBpidInfo * used) then
        let arr := partitions.foldl (fillPartition data s.availablePerPartition) ⟨fun _ => none, 0⟩
        .ok ⟨used, arr.cells, arr.position - used, s.availablePerPartition⟩
      else .error .enomem

end Flexbuild.SlabBoot
