import Flexbuild.Words
import Flexbuild.Ledgers

/-! The slab module after `slab_module_init`: the counters of the hardware pools, the
virtual pools in shared RAM and in DDR clusters, and the stack of free DDR ids. Each
locked section of the source is one function here; the calls and the interleavings of
several cores are put together from these. -/
namespace Flexbuild.Slab
open Words Ledgers

inductive Errno where
  | enavail | einval | enomem | eacces
  deriving DecidableEq, Repr

structure HwPool where
  buffSize : Nat
  poolId : Nat
  alignment : Nat
  memPid : Nat
  deriving DecidableEq, Repr

-- What does not change after initialisation; `debug` is a build with DEBUG.
structure Config where
  debug : Bool
  hwPools : List HwPool
  ddrMemory : Nat
  numClusters : Nat
  -- Each entry comes from a DPBP object of its own, with its own BMan id.
  distinct : (hwPools.map HwPool.poolId).Nodup
  deriving DecidableEq, Repr

def slabMaxNumVpShram : Nat := 1000
def slabMaxNumVpDdr : Nat := 64
def slabDefaultAlign : Nat := 8
def sizeofSlabVPool : Nat := 40
def slabDdrManagementFlag : Nat := 1

-- `g_slab_last_pool_pointer_ddr`, in words above the start of the stack.
def Config.last (c : Config) : Nat := slabMaxNumVpDdr * c.numClusters

structure Request where
  committedBuffs : Nat
  maxBuffs : Nat
  buffSize : Nat
  alignment : Nat
  memPid : Nat
  flags : Nat
  deriving DecidableEq, Repr

def Request.inDdr (q : Request) : Bool := decide (q.flags &&& slabDdrManagementFlag ≠ 0)

inductive Place where
  | shram (poolId : Nat)
  | ddr (cluster poolId : Nat)
  deriving DecidableEq, Repr

structure VPool where
  maxBufs : Int
  committedBufs : Int
  allocatedBufs : Int
  bmanArrayIndex : Nat
  -- Not in the source: whether a handle to this pool is out, and how many of its
  -- buffers are.
  live : Bool
  held : Nat
  deriving DecidableEq, Repr

structure Globals where
  remaining : Nat → Int
  vpool : Place → VPool
  shramCount : Nat
  -- NULL, or an address; of the address only the hardware pool it came from is kept.
  contextAddress : Nat → Option Nat
  stack : Nat → Nat
  pointer : Nat
  -- The mutex at `g_slab_last_pool_pointer_ddr` is held with nobody left to release it.
  locked : Bool

def slabVpPoolMask : Nat := 0x01FFFFFE

def slabVpPoolGet (slab : Nat) : Nat := (slab &&& slabVpPoolMask) >>> 1

def slabPoolIdGet (poolId : Nat) : Nat := poolId &&& 0x00007FFF

def slabClusterIdGet (cluster : Nat) : Nat := (cluster >>> 15) &&& 0x000000FF

def slabClusterIdSet (cluster : Nat) : Nat := wrap 32 (cluster <<< 15)

def slabHwPoolCreate (vp : Nat) : Nat := wrap 32 ((vp &&& (slabVpPoolMask >>> 1)) <<< 1) ||| 1

def slabIsHwPool (slab : Nat) : Bool := decide (slab &&& 1 ≠ 0)

def slabSizeGet (size : Nat) : Nat := minus 16 size 8

def placeOf (slab : Nat) : Place :=
  let cluster := slabClusterIdGet (slabVpPoolGet slab)
  let poolId := slabPoolIdGet (slabVpPoolGet slab)
  if cluster = 0 then .shram poolId else .ddr cluster poolId

def Globals.add (s : Globals) (i : Nat) (n : Int) : Globals :=
  { s with remaining := Function.update s.remaining i (s.remaining i + n) }

def Globals.set (s : Globals) (p : Place) (v : VPool) : Globals :=
  { s with vpool := Function.update s.vpool p v }

def Globals.count (s : Globals) (n : Nat) : Globals := { s with shramCount := n }

def Globals.seek (s : Globals) (n : Nat) : Globals := { s with pointer := n }

def Globals.push (s : Globals) (word : Nat) : Globals :=
  { s with
    pointer := s.pointer - 1
    stack := Function.update s.stack (s.pointer - 1) word }

def Globals.provide (s : Globals) (cluster : Nat) (i : Nat) : Globals :=
  { s with contextAddress := Function.update s.contextAddress cluster (some i) }

def Globals.jam (s : Globals) : Globals := { s with locked := true }

-- The stack as `slab_module_init` fills it, 64 ids for each cluster from 1 on.
def Globals.start (total : Nat → Int) : Globals where
  remaining := total
  vpool := fun _ => ⟨0, 0, 0, 0, false, 0⟩
  shramCount := 0
  contextAddress := fun _ => none
  stack := fun n => wrap 32 ((n / slabMaxNumVpDdr + 1) <<< 16 + 2 * (n % slabMaxNumVpDdr))
  pointer := 0
  locked := false

structure Need where
  numBuffs : Nat
  buffSize : Nat
  alignment : Nat
  memPid : Nat
  deriving DecidableEq, Repr

def Request.need (q : Request) : Need := ⟨q.committedBuffs, q.buffSize, q.alignment, q.memPid⟩

def Config.managementNeed (c : Config) : Need :=
  ⟨1, wrap 16 (sizeofSlabVPool * slabMaxNumVpDdr), slabDefaultAlign, c.ddrMemory⟩

def Config.fits (c : Config) (need : Need) (i : Nat) : Bool :=
  match c.hwPools[i]? with
  | none => false
  | some p => decide (p.memPid = need.memPid ∧ need.alignment ≤ p.alignment ∧
      need.buffSize ≤ slabSizeGet p.buffSize)

def Config.buffSize (c : Config) (i : Nat) : Nat := (c.hwPools[i]?.map HwPool.buffSize).getD 0

-- One turn of the loop in `slab_find_and_reserve_bpid`: the first pool that fits and has
-- enough is taken, later ones replace it when their buffers are smaller.
def reserveAt (c : Config) (need : Need) (at_ : Option Nat × Globals) (i : Nat) :
    Option Nat × Globals :=
  let s := at_.2
  if c.fits need i = true ∧ (need.numBuffs : Int) ≤ s.remaining i then
    match at_.1 with
    | none => (some i, s.add i (-need.numBuffs))
    | some j =>
        if c.buffSize i < c.buffSize j then
          (some i, (s.add i (-need.numBuffs)).add j (int32 need.numBuffs))
        else at_
  else at_

def slabFindAndReserveBpid (c : Config) (need : Need) (s : Globals) : Option Nat × Globals :=
  (List.range c.hwPools.length).foldl (reserveAt c need) (none, s)

def slabFindAndUnreserveBpid (c : Config) (numBuffs : Nat) (bpid : Nat) (s : Globals) : Globals :=
  match c.hwPools.findIdx? (fun p => decide (p.poolId = bpid)) with
  | none => s
  | some i => s.add i (int32 numBuffs)

def Config.poolId (c : Config) (i : Nat) : Nat := (c.hwPools[i]?.map HwPool.poolId).getD 0

def takeShram (q : Request) (s : Globals) : Option Nat × Globals :=
  if q.inDdr = false ∧ s.shramCount < slabMaxNumVpShram then
    match (List.range slabMaxNumVpShram).find?
        (fun id => decide ((s.vpool (.shram id)).maxBufs = 0)) with
    | none => (none, s)
    | some id =>
        (some id, (s.set (.shram id)
          { s.vpool (.shram id) with maxBufs := int32 q.maxBuffs }).count (wrap 16 (s.shramCount + 1)))
  else (none, s)

def Request.fresh (q : Request) (maxBufs : Int) (index : Nat) : VPool :=
  ⟨maxBufs, int32 q.committedBuffs, 0, index, true, 0⟩

def fillShram (q : Request) (index id : Nat) (s : Globals) : Globals :=
  s.set (.shram id) (q.fresh (s.vpool (.shram id)).maxBufs index)

def giveBack (q : Request) (index : Nat) (s : Globals) : Globals :=
  s.add index (int32 q.committedBuffs)

inductive DdrOutcome where
  | full
  | refused
  | made (cluster poolId : Nat)
  deriving DecidableEq, Repr

-- The release goes to the address of the pointer, not to the one the mutex was taken at.
def errorRecovery (q : Request) (index : Nat) (s : Globals) : Globals :=
  ((giveBack q index s).seek (s.pointer - 1)).jam

def makeDdr (q : Request) (index cluster poolId : Nat) (s : Globals) : Globals :=
  s.set (.ddr cluster poolId) (q.fresh (int32 q.maxBuffs) index)

-- The section under the mutex of the id stack; `cdma` says whether the accelerator hands
-- out a management buffer.
def ddrSection (c : Config) (q : Request) (index : Nat) (cdma : Bool) (s : Globals) :
    DdrOutcome × Globals :=
  if s.pointer = c.last then (.full, giveBack q index s)
  else
    let vp := slabVpPoolGet (s.stack s.pointer)
    let cluster := slabClusterIdGet vp
    let poolId := slabPoolIdGet vp
    let s := s.seek (s.pointer + 1)
    match s.contextAddress cluster with
    | some _ => (.made cluster poolId, makeDdr q index cluster poolId s)
    | none =>
        match slabFindAndReserveBpid c c.managementNeed s with
        | (none, s) => (.refused, errorRecovery q index s)
        | (some j, s) =>
            if cdma then
              (.made cluster poolId, makeDdr q index cluster poolId (s.provide cluster j))
            else
              (.refused, errorRecovery q index
                (slabFindAndUnreserveBpid c 1 (c.poolId j) s))

-- The section of `slab_free` for a pool in shared RAM.
def freeShram (id : Nat) (s : Globals) : Option Errno × Globals :=
  let v := s.vpool (.shram id)
  if v.allocatedBufs ≠ 0 then (some .eacces, s)
  else
    (none, ((s.add v.bmanArrayIndex v.committedBufs).set (.shram id)
        { v with maxBufs := 0, live := false }).count (minus 16 s.shramCount 1))

def freeDdrMark (cluster poolId : Nat) (s : Globals) : Option Errno × Globals :=
  let v := s.vpool (.ddr cluster poolId)
  if v.allocatedBufs ≠ 0 then (some .eacces, s)
  else (none, s.set (.ddr cluster poolId) { v with maxBufs := 0, live := false })

def freeDdrPush (cluster poolId : Nat) (v : VPool) (s : Globals) : Globals :=
  (s.push (wrap 32 ((slabClusterIdSet cluster ||| poolId) <<< 1))).add v.bmanArrayIndex
    v.committedBufs

inductive Area where
  | committed | remaining
  deriving DecidableEq, Repr

def VPool.allocate (v : VPool) (remaining : Int) : Option Area :=
  if v.allocatedBufs < v.committedBufs then some .committed
  else if v.allocatedBufs < v.maxBufs ∧ 0 < remaining then some .remaining
  else none

-- The reservation of `slab_acquire`.
def acquireReserve (p : Place) (s : Globals) : Option Area × Globals :=
  let v := s.vpool p
  match v.allocate (s.remaining v.bmanArrayIndex) with
  | none => (none, s)
  | some .committed => (some .committed, s.set p { v with allocatedBufs := v.allocatedBufs + 1 })
  | some .remaining =>
      (some .remaining,
        (s.add v.bmanArrayIndex (-1)).set p { v with allocatedBufs := v.allocatedBufs + 1 })

def acquireDone (p : Place) (s : Globals) : Globals :=
  s.set p { s.vpool p with held := (s.vpool p).held + 1 }

def acquireUndo (p : Place) (area : Area) (s : Globals) : Globals :=
  let v := s.vpool p
  let s := s.set p { v with allocatedBufs := v.allocatedBufs - 1 }
  match area with
  | .committed => s
  | .remaining => s.add v.bmanArrayIndex 1

def slabRelease (p : Place) (s : Globals) : Globals :=
  let v := s.vpool p
  let s := if v.committedBufs < v.allocatedBufs then s.add v.bmanArrayIndex 1 else s
  s.set p { v with allocatedBufs := v.allocatedBufs - 1, held := v.held - 1 }

def Config.rejects (c : Config) (q : Request) : Option Errno :=
  if c.debug = false then none
  else if q.buffSize = 0 ∨ q.alignment = 0 ∨ (q.flags ≠ 0 ∧ q.flags ≠ slabDdrManagementFlag) ∨
      q.alignment &&& (q.alignment - 1) ≠ 0 ∨
      (q.memPid ≠ 1 ∧ q.memPid ≠ 2 ∧ q.memPid ≠ 4) then some .enavail
  else if q.maxBuffs < q.committedBuffs then some .einval
  else if q.maxBuffs = 0 then some .einval
  else none

end Flexbuild.Slab
