import Mathlib.Logic.Function.Basic
import Flexbuild.Marks
import Flexbuild.Words

/-! The software hash table of IP reassembly. A table has a line for each hash value; a line is a
context buffer with places for eight entries, made with its first entry and released with its
last. An entry holds a fragment key and the virtual address of the key's RFDC, zero when the
place is free. -/
namespace Flexbuild.Ipr
open Words Marks

def enospc : Int := -28
def eio : Int := -5

def fragBins : Nat := 2048
def fragsPerBin : Nat := 8

inductive FragmentKey where
  | ipv4 (dst src id protocol : Nat)
  | ipv6 (dst0 dst2 src0 src2 id : Nat)
  deriving DecidableEq, Repr

def FragmentKey.isIpv4 : FragmentKey → Bool
  | .ipv4 .. => true
  | .ipv6 .. => false

def swTableKeyEqual : FragmentKey → FragmentKey → Bool
  | .ipv4 dst src id protocol, .ipv4 dst' src' id' protocol' =>
      decide (dst = dst' ∧ src = src' ∧ id = id' ∧ protocol = protocol')
  | .ipv6 dst0 dst2 src0 src2 id, .ipv6 dst0' dst2' src0' src2' id' =>
      decide (dst0 = dst0' ∧ dst2 = dst2' ∧ src0 = src0' ∧ src2 = src2' ∧ id = id')
  | _, _ => false

structure SwTableEntry where
  virtAddr : Nat
  fk : FragmentKey
  deriving DecidableEq, Repr

def SwTableEntry.zero : SwTableEntry := ⟨0, .ipv4 0 0 0 0⟩

structure Partition where
  paddr : Nat
  vaddr : Nat
  size : Nat
  physical : 0 < paddr
  virtual_ : 0 < vaddr
  below : paddr + size ≤ 2 ^ 64
  narrow : vaddr + size ≤ 2 ^ 32

def Partition.Holds (p : Partition) (a : Nat) : Prop := p.paddr ≤ a ∧ a < p.paddr + p.size

instance (p : Partition) (a : Nat) : Decidable (p.Holds a) :=
  inferInstanceAs (Decidable (p.paddr ≤ a ∧ a < p.paddr + p.size))

def Partition.physToVirt (p : Partition) (a : Nat) : Nat := wrap 32 (minus 64 a p.paddr + p.vaddr)

def Partition.virtToPhys (p : Partition) (t : Nat) : Nat := wrap 64 (minus 64 t p.vaddr + p.paddr)

structure Config where
  memory : Partition
  hash : FragmentKey → Nat

def Config.line (c : Config) (k : FragmentKey) : Nat := c.hash k &&& (fragBins - 1)

inductive Purpose where
  | line (isIpv4 : Bool) (h : Nat)
  | rfdc (fk : FragmentKey)
  deriving DecidableEq, Repr

-- The two tables, with the reference counts and the contents of the context buffers. A buffer
-- with no reference is in its pool; `present` is the RFDC of each key inserted and not deleted.
structure Tables where
  table : Bool → Nat → Nat
  refCount : Nat → Nat
  keys : Nat → Nat → SwTableEntry
  purpose : Nat → Option Purpose
  present : FragmentKey → Option Nat

-- `cdma_acquire_context_memory`: a free buffer, with one reference, or none. No result stands
-- for a buffer that the pools cannot hand out.
def Tables.acquire (c : Config) (s : Tables) (given : Option Nat) (purpose : Purpose) :
    Option (Option Nat × Tables) :=
  match given with
  | none => some (none, s)
  | some a =>
      if c.memory.Holds a ∧ s.refCount a = 0 then
        some (some a, { s with refCount := Function.update s.refCount a 1
                               purpose := Function.update s.purpose a (some purpose) })
      else none

def Tables.setLine (s : Tables) (isIpv4 : Bool) (h l : Nat) : Tables :=
  { s with table := fun i g => if i = isIpv4 ∧ g = h then l else s.table i g }

def Tables.setCount (s : Tables) (l n : Nat) : Tables :=
  { s with refCount := Function.update s.refCount l n }

inductive Search where
  | hit (virtAddr : Nat)
  | miss (firstFree : Option Nat)
  deriving DecidableEq, Repr

def searchKey (keys : Nat → SwTableEntry) (fk : FragmentKey) : List Nat → Option Nat → Search
  | [], firstFree => .miss firstFree
  | cnt :: rest, firstFree =>
      if (keys cnt).virtAddr = 0 then
        searchKey keys fk rest (if firstFree = none then some cnt else firstFree)
      else if swTableKeyEqual (keys cnt).fk fk then .hit (keys cnt).virtAddr
      else searchKey keys fk rest firstFree

inductive Status where
  | success
  | miss
  | error (e : Int)
  deriving DecidableEq, Repr

-- The status, the address left in `rfdc_ext_addr`, and the line and column written to the RFDC.
structure Answer where
  status : Status
  rfdcExtAddr : Nat
  key : Option (Nat × Nat)
  deriving DecidableEq, Repr

-- The part of `ipr_miss_handling` that the table rests on. When no buffer is acquired, the address
-- stays what it was.
def iprMissHandling (c : Config) (s : Tables) (fk : FragmentKey) (rfdc : Option Nat)
    (rfdcExtAddr : Nat) : Option (Nat × Tables) :=
  match s.acquire c rfdc (.rfdc fk) with
  | none => none
  | some (none, s) => some (rfdcExtAddr, s)
  | some (some a, s) => some (a, s)

def Tables.insert (s : Tables) (l : Nat) (keys : Nat → SwTableEntry) (fk : FragmentKey) (rfdc : Nat) :
    Tables :=
  { s with keys := Function.update s.keys l keys
           present := Function.update s.present fk (some rfdc) }

-- `line` and `rfdc` are what the two acquisitions give, `rfdcExtAddr` what the address was.
def swIprLookupOrInsert (c : Config) (s : Tables) (fk : FragmentKey) (line rfdc : Option Nat)
    (rfdcExtAddr : Nat) : Option (Answer × Tables) :=
  let h := c.line fk
  let l := s.table fk.isIpv4 h
  if l = 0 then
    match s.acquire c line (.line fk.isIpv4 h) with
    | none => none
    | some (none, s) => some (⟨.error enospc, rfdcExtAddr, none⟩, s)
    | some (some l, s) =>
        match iprMissHandling c (s.setLine fk.isIpv4 h l) fk rfdc l with
        | none => none
        | some (a, s) =>
            let keys := Function.update (fun _ => SwTableEntry.zero) 0
              ⟨c.memory.physToVirt a, fk⟩
            some (⟨.miss, a, some (h, 0)⟩, s.insert l keys fk a)
  else
    match searchKey (s.keys l) fk (List.range fragsPerBin) none with
    | .hit t => some (⟨.success, c.memory.virtToPhys t, none⟩, s)
    | .miss none => some (⟨.error enospc, rfdcExtAddr, none⟩, s)
    | .miss (some firstFree) =>
        match iprMissHandling c s fk rfdc rfdcExtAddr with
        | none => none
        | some (a, s) =>
            let keys := Function.update (s.keys l) firstFree ⟨c.memory.physToVirt a, fk⟩
            some (⟨.miss, a, some (h, firstFree)⟩,
              (s.setCount l (s.refCount l + 1)).insert l keys fk a)

def Tables.delete (s : Tables) (isIpv4 : Bool) (line pos l : Nat) : Tables :=
  let e := s.keys l pos
  let s := { s with
    keys := Function.update s.keys l (Function.update (s.keys l) pos { e with virtAddr := 0 })
    present := Function.update s.present e.fk none }
  let s := s.setCount l (s.refCount l - 1)
  if s.refCount l = 0 then
    { s.setLine isIpv4 line 0 with purpose := Function.update s.purpose l none }
  else s

def swTableKeyDelete (s : Tables) (isIpv4 : Bool) (line pos : Nat) : Option (Int × Tables) :=
  if line < fragBins ∧ pos < fragsPerBin then
    let l := s.table isIpv4 line
    if l = 0 then some (eio, s)
    else if (s.keys l pos).virtAddr = 0 then some (eio, s)
    else some (0, s.delete isIpv4 line pos l)
  else none

def Tables.release (s : Tables) (a : Nat) : Option Tables :=
  match s.purpose a with
  | some (.rfdc fk) =>
      if s.present fk = some a then none
      else
        some { s with refCount := Function.update s.refCount a 0
                      purpose := Function.update s.purpose a none }
  | _ => none

inductive Call where
  | lookupOrInsert (fk : FragmentKey) (line rfdc : Option Nat) (rfdcExtAddr : Nat)
  | keyDelete (isIpv4 : Bool) (line pos : Nat)
  | release (a : Nat)
  deriving DecidableEq, Repr

def Tables.call (c : Config) (s : Tables) : Call → Option Tables
  | .lookupOrInsert fk line rfdc rfdcExtAddr =>
      (swIprLookupOrInsert c s fk line rfdc rfdcExtAddr).map Prod.snd
  | .keyDelete isIpv4 line pos => (swTableKeyDelete s isIpv4 line pos).map Prod.snd
  | .release a => s.release a

def Tables.run (c : Config) (s : Tables) : List Call → Option Tables
  | [] => some s
  | a :: rest => (s.call c a).bind (fun s => s.run c rest)

def Tables.start : Tables where
  table := fun _ _ => 0
  refCount := fun _ => 0
  keys := fun _ _ => .zero
  purpose := fun _ => none
  present := fun _ => none

section Addresses

variable {p : Partition} {a : Nat}

theorem physToVirtExact (holds : p.Holds a) : p.physToVirt a = a - p.paddr + p.vaddr := by
  obtain ⟨low, high⟩ := holds
  have below := p.below
  have narrow := p.narrow
  unfold Partition.physToVirt
  rw [minusExact low (by omega), wrapSmall (by omega)]

theorem virtNonzero (holds : p.Holds a) : p.physToVirt a ≠ 0 := by
  have some_ := p.virtual_
  rw [physToVirtExact holds]
  omega

theorem virtToPhysBack (holds : p.Holds a) : p.virtToPhys (p.physToVirt a) = a := by
  obtain ⟨low, high⟩ := id holds
  have below := p.below
  have narrow := p.narrow
  rw [physToVirtExact holds]
  unfold Partition.virtToPhys
  rw [minusExact (by omega) (by omega), Nat.add_sub_cancel, Nat.sub_add_cancel low,
    wrapSmall (by omega)]

theorem holdsNonzero (holds : p.Holds a) : a ≠ 0 := by
  have some_ := p.physical
  have low := holds.1
  omega

end Addresses

theorem keyEqual {fk fk' : FragmentKey} : swTableKeyEqual fk fk' = true ↔ fk = fk' := by
  cases fk with
  | ipv4 dst src id protocol =>
    cases fk' with
    | ipv4 dst' src' id' protocol' => simp [swTableKeyEqual]
    | ipv6 dst0 dst2 src0 src2 id' => simp [swTableKeyEqual]
  | ipv6 dst0 dst2 src0 src2 id =>
    cases fk' with
    | ipv4 dst src id' protocol => simp [swTableKeyEqual]
    | ipv6 dst0' dst2' src0' src2' id' => simp [swTableKeyEqual]

end Flexbuild.Ipr
