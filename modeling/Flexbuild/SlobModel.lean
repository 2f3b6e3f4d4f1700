import Flexbuild.BootMemory
import Flexbuild.Chains
import Flexbuild.Intervals
import Mathlib.Data.Fintype.Sum
import Mathlib.Data.Fintype.Sigma
import Mathlib.Tactic.DeriveFintype

/-! The SLOB allocator (slob.c) on its descriptors in memory: one busy list and one
free list for every alignment up to `2 ^ 20`, all linked through `next_addr`, with
the descriptors taken from a buffer pool. Loops over a list carry fuel. -/
namespace Flexbuild.Slob
open Words BootMemory

abbrev Span := Intervals.Extent

structure SlobBlock where
  base : Nat
  endAddr : Nat
  nextAddr : Nat
  deriving DecidableEq, Repr

def layout : Chains.Layout SlobBlock Span where
  payload b := ⟨b.base, b.endAddr⟩
  next b := b.nextAddr
  setNext b x := {b with nextAddr := x}
  payloadSetNext _ _ := rfl
  nextSetNext _ _ := rfl

abbrev Node := Chains.Node Span

def mmMaxAlignment : Nat := 20

abbrev Index := Fin (mmMaxAlignment + 1)

scoped instance (priority := 2000) someAlignment : NeZero (mmMaxAlignment + 1) := ⟨Nat.succ_ne_zero _⟩

inductive Which where
  | busy
  | free (i : Index)
  deriving DecidableEq, Repr, Fintype

structure Mm where
  memory : Nat → SlobBlock
  head : Which → Nat
  freeMemSize : Nat
  pool : BufferPool

namespace Mm

def fuel (s : Mm) : Nat := s.pool.numBuffs + 1

def blocks (s : Mm) (w : Which) : List Node := Chains.walk layout s.memory s.fuel (s.head w)

def writeBlock (s : Mm) (addr : Nat) (b : SlobBlock) : Mm :=
  {s with memory := Function.update s.memory addr b}

def writeNext (s : Mm) (addr x : Nat) : Mm :=
  s.writeBlock addr {s.memory addr with nextAddr := x}

-- `prev_b_addr` names the cell whose link is written, zero stands for the list head.
def link (s : Mm) (w : Which) (prev x : Nat) : Mm :=
  let r := Chains.relink layout s.memory (s.head w) prev x
  {s with memory := r.1, head := Function.update s.head w r.2}

def putBlock (s : Mm) (addr : Nat) : Mm :=
  {s with pool := (buffPoolPut s.pool addr).toOption.getD s.pool}

def createNewBlock (s : Mm) (base size : Nat) : Option (Nat × Mm) := do
  let (addr, pool) ← buffPoolGet s.pool
  some (addr, {s with pool := pool}.writeBlock addr ⟨base, wrap 64 (base + size), 0⟩)

end Mm

def alignment (i : Index) : Nat := 2 ^ i.val

def cutFreeList (holdBase holdEnd : Nat) (i : Index) : Nat → Nat → Nat → Mm → Except Errno Unit × Mm
  | 0, _, _, s => (.ok (), s)
  | fuel + 1, prev, curr, s =>
    if curr = 0 then (.ok (), s) else
    let b := s.memory curr
    let alignBase := alignUp 64 holdEnd (alignment i)
    let size := minus 64 b.endAddr alignBase
    if holdBase ≤ b.base ∧ holdEnd ≤ b.endAddr ∧ b.base < holdEnd then
      if b.endAddr ≤ alignBase ∨ alignBase < b.endAddr ∧ size < alignment i then
        -- the descriptor is written back after it went to the pool
        (.ok (), ((s.link (.free i) prev b.nextAddr).putBlock curr).writeBlock curr b)
      else (.ok (), s.writeBlock curr {b with base := alignBase})
    else if b.base < holdBase ∧ holdEnd ≤ b.endAddr then
      if alignment i ≤ minus 64 holdBase b.base then
        if alignBase < b.endAddr ∧ alignment i ≤ size then
          match s.createNewBlock alignBase size with
          | none => (.error .enomem, s)
          | some (new, s) =>
            (.ok (), (s.writeNext new b.nextAddr).writeBlock curr
              {b with endAddr := holdBase, nextAddr := new})
        else (.ok (), s.writeBlock curr {b with endAddr := holdBase})
      else if alignBase < b.endAddr ∧ alignment i ≤ size then
        (.ok (), s.writeBlock curr {b with base := alignBase})
      else (.ok (), ((s.link (.free i) prev b.nextAddr).putBlock curr).writeBlock curr b)
    else cutFreeList holdBase holdEnd i fuel curr b.nextAddr (s.writeBlock curr b)

def cutFreeFrom (holdBase holdEnd : Nat) : List Index → Mm → Except Errno Unit × Mm
  | [], s => (.ok (), s)
  | i :: rest, s =>
    match cutFreeList holdBase holdEnd i s.fuel 0 (s.head (.free i)) s with
    | (.ok (), s) => cutFreeFrom holdBase holdEnd rest s
    | (.error e, s) => (.error e, s)

def cutFree (holdBase holdEnd : Nat) (s : Mm) : Except Errno Unit × Mm :=
  cutFreeFrom holdBase holdEnd (List.finRange (mmMaxAlignment + 1)) s

def eliminateLoop (currAddr endAddr : Nat) : Nat → SlobBlock → Mm → SlobBlock × Mm
  | 0, b, s => (b, s)
  | fuel + 1, b, s =>
    if b.nextAddr ≠ 0 ∧ (s.memory b.nextAddr).endAddr < endAddr then
      let b' := {b with nextAddr := (s.memory b.nextAddr).nextAddr}
      eliminateLoop currAddr endAddr fuel b' ((s.writeBlock currAddr b').putBlock b.nextAddr)
    else (b, s)

def eliminateLast (currAddr endAddr : Nat) (b : SlobBlock) (s : Mm) : SlobBlock × Mm :=
  if b.nextAddr = 0 ∨ endAddr < (s.memory b.nextAddr).base then
    let b' := {b with endAddr := endAddr}
    (b', s.writeBlock currAddr b')
  else
    let next := s.memory b.nextAddr
    let b' := {b with endAddr := next.endAddr, nextAddr := next.nextAddr}
    (b', (s.putBlock b.nextAddr).writeBlock currAddr b')

def eliminateRedundantFreeBlocks (currAddr endAddr : Nat) (b : SlobBlock) (s : Mm) : SlobBlock × Mm :=
  let (b, s) := eliminateLoop currAddr endAddr s.fuel b s
  eliminateLast currAddr endAddr b s

structure Stop where
  newAddr : Nat
  currAddr : Nat
  prevAddr : Nat
  deriving DecidableEq, Repr

def absorb (i : Index) (alignBase endAddr prev curr : Nat) (b : SlobBlock) (s : Mm) : Stop × Mm :=
  let grow := alignBase < b.base ∧ b.base ≤ endAddr
  let b' := if grow then {b with base := alignBase} else b
  let s := if grow then s.writeBlock curr b' else s
  if minus 64 b'.endAddr b'.base < alignment i then
    (⟨0, 0, prev⟩, (s.link (.free i) prev b'.nextAddr).putBlock curr)
  else (⟨0, curr, prev⟩, s)

def addFreeLoop (i : Index) (alignBase endAddr size : Nat) :
    Nat → Nat → Nat → Mm → Except Errno Stop × Mm
  | 0, prev, curr, s => (.ok ⟨0, curr, prev⟩, s)
  | fuel + 1, prev, curr, s =>
    if curr = 0 then (.ok ⟨0, 0, prev⟩, s) else
    let b := s.memory curr
    if alignBase ≤ b.endAddr then
      if b.endAddr < endAddr then
        let (b, s) := eliminateRedundantFreeBlocks curr endAddr b s
        let (stop, s) := absorb i alignBase endAddr prev curr b s
        (.ok stop, s)
      else if endAddr < b.base then
        match s.createNewBlock alignBase size with
        | none => (.error .enomem, s)
        | some (new, s) => (.ok ⟨new, curr, prev⟩, (s.writeNext new curr).link (.free i) prev new)
      else
        let (stop, s) := absorb i alignBase endAddr prev curr b s
        (.ok stop, s)
    else addFreeLoop i alignBase endAddr size fuel curr b.nextAddr s

def insertFreeBlock (i : Index) (alignBase size prev : Nat) (s : Mm) : Option (Nat × Mm) := do
  let (new, s) ← s.createNewBlock alignBase size
  some (new, s.link (.free i) prev new)

def updateBoundaries (i : Index) (newAddr currAddr : Nat) (s : Mm) (bounds : Span) : Span :=
  if alignment i = 1 ∧ newAddr = 0 ∧ currAddr ≠ 0 then
    let b := s.memory currAddr
    ⟨if b.base < bounds.base then b.base else bounds.base,
      if bounds.endAddr < b.endAddr then b.endAddr else bounds.endAddr⟩
  else bounds

def addFreeEnd (i : Index) (alignBase size : Nat) (bounds : Span) : Except Errno Stop × Mm → Except Errno Span × Mm
  | (.error e, s) => (.error e, s)
  | (.ok stop, s) =>
    if stop.currAddr = 0 ∧ alignment i ≤ size then
      match insertFreeBlock i alignBase size stop.prevAddr s with
      | none => (.error .enomem, s)
      | some (new, s) => (.ok (updateBoundaries i new stop.currAddr s bounds), s)
    else (.ok (updateBoundaries i stop.newAddr stop.currAddr s bounds), s)

def addFreeList (i : Index) (bounds : Span) (s : Mm) : Except Errno Span × Mm :=
  let alignBase := alignUp 64 bounds.base (alignment i)
  if bounds.endAddr ≤ alignBase then (.ok bounds, s) else
  let size := minus 64 bounds.endAddr alignBase
  addFreeEnd i alignBase size bounds
    (addFreeLoop i alignBase bounds.endAddr size s.fuel 0 (s.head (.free i)) s)

def addFreeFrom : List Index → Span → Mm → Except Errno Unit × Mm
  | [], _, s => (.ok (), s)
  | i :: rest, bounds, s =>
    match addFreeList i bounds s with
    | (.ok bounds, s) => addFreeFrom rest bounds s
    | (.error e, s) => (.error e, s)

def addFree (bounds : Span) (s : Mm) : Except Errno Unit × Mm :=
  addFreeFrom (List.finRange (mmMaxAlignment + 1)) bounds s

def addBusyLoop (newBase : Nat) (s : Mm) : Nat → Nat → Nat → Nat × Nat
  | 0, prev, curr => (prev, curr)
  | fuel + 1, prev, curr =>
    if curr ≠ 0 ∧ (s.memory curr).base < newBase then
      addBusyLoop newBase s fuel curr (s.memory curr).nextAddr
    else (prev, curr)

def addBusy (newBusyAddr : Nat) (s : Mm) : Mm :=
  let (prev, curr) := addBusyLoop (s.memory newBusyAddr).base s s.fuel 0 (s.head .busy)
  let s := if curr ≠ 0 then s.writeNext newBusyAddr curr else s
  s.link .busy prev newBusyAddr

inductive Refusal where
  | badAlignment | noBlock | notBusy | noDescriptor
  deriving DecidableEq, Repr

def returned : Except Refusal Nat → Nat
  | .ok n => n
  | .error _ => 0

def findBlock (memory : Nat → SlobBlock) (size : Nat) : Nat → Nat → Nat
  | 0, addr => addr
  | fuel + 1, addr =>
    if addr ≠ 0 ∧ minus 64 (memory addr).endAddr (memory addr).base < size then
      findBlock memory size fuel (memory addr).nextAddr
    else addr

def slobGetAlignment (s : Mm) (size : Nat) (i : Index) : Except Refusal Nat × Mm :=
  let first := s.head (.free i)
  if first = 0 ∨ (s.memory first).endAddr = 0 then (.error .noBlock, s) else
  let found := findBlock s.memory size s.fuel first
  if found = 0 then (.error .noBlock, s) else
  let holdBase := (s.memory found).base
  let holdEnd := wrap 64 (holdBase + size)
  match s.createNewBlock holdBase size with
  | none => (.error .noDescriptor, s)
  | some (addr, s) =>
    match cutFree holdBase holdEnd s with
    | (.error _, s) => (.error .noDescriptor, s.putBlock addr)
    | (.ok (), s) =>
      (.ok holdBase, addBusy addr {s with freeMemSize := minus 64 s.freeMemSize size})

def slobGet (s : Mm) (size align : Nat) : Except Refusal Nat × Mm :=
  if align &&& (align - 1) ≠ 0 then (.error .badAlignment, s) else
  let align := if align = 0 then 1 else align
  if mmMaxAlignment < Nat.log2 align then slobGetAlignment s size (Fin.last mmMaxAlignment)
  else slobGetAlignment s size (Fin.ofNat (mmMaxAlignment + 1) (Nat.log2 align))

def findBusy (memory : Nat → SlobBlock) (base : Nat) : Nat → Nat → Nat → Nat × Nat
  | 0, prev, curr => (prev, curr)
  | fuel + 1, prev, curr =>
    if curr ≠ 0 ∧ base ≠ (memory curr).base then findBusy memory base fuel curr (memory curr).nextAddr
    else (prev, curr)

def slobPut (s : Mm) (base : Nat) : Except Refusal Nat × Mm :=
  let (prev, curr) := findBusy s.memory base s.fuel 0 (s.head .busy)
  if curr = 0 then (.error .notBusy, s) else
  let busy := s.memory curr
  match addFree ⟨busy.base, busy.endAddr⟩ s with
  | (.error _, s) => (.error .noDescriptor, s)
  | (.ok (), s) =>
    let s := s.link .busy prev busy.nextAddr
    let size := minus 64 busy.endAddr busy.base
    (.ok size, {s with freeMemSize := wrap 64 (s.freeMemSize + size)}.putBlock curr)

-- One head for every alignment list; a list whose first aligned address lies
-- beyond the region gets the block `[0, 0)`.
def initLists (base size : Nat) : List Index → Mm → Except Errno Mm
  | [], s => .ok s
  | i :: rest, s =>
    let newBase := alignUp 64 base (alignment i)
    let offset := minus 64 newBase base
    let first := if size < offset then (⟨0, 0⟩ : Span) else ⟨newBase, minus 64 size offset⟩
    match s.createNewBlock first.base first.endAddr with
    | none => .error .enomem
    | some (addr, s) => initLists base size rest {s with head := Function.update s.head (.free i) addr}

def sizeofMm : Nat := 40
def sizeofMemBlock : Nat := 24

def bootRequests : List Nat → InitialMemMng → Option (Except Errno Unit × InitialMemMng)
  | [], boot => some (.ok (), boot)
  | size :: rest, boot => do
    let (paddr, boot) ← bootGetMem boot size
    match paddr with
    | .error _ => some (.error .enomem, boot)
    | .ok _ => bootRequests rest boot

def slobInit (memory : Nat → SlobBlock) (base size : Nat) (boot : InitialMemMng) (pool : BufferPool) :
    Option (Except Errno Mm × InitialMemMng) := do
  let (reserved, boot) ← bootRequests [sizeofMm, sizeofMemBlock, 8 * (mmMaxAlignment + 1)] boot
  match reserved with
  | .error e => some (.error e, boot)
  | .ok () =>
    let s : Mm := ⟨memory, fun _ => 0, size, pool⟩
    if size = 0 then some (.ok s, boot)
    else some (initLists base size (List.finRange (mmMaxAlignment + 1)) s, boot)

end Flexbuild.Slob
