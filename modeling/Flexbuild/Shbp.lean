import Mathlib.Algebra.Order.Group.Multiset
import Mathlib.Tactic.Abel
import Flexbuild.Rings

/-! The buffer pool shared by the AIOP and a host. Buffers wait in two rings, `alloc`
and `free`; the host fills `alloc`, refills it from `free`, and takes from it when it is
the master, the AIOP takes from `alloc` otherwise and gives back through `free`. An
operation copies the header, reads or writes one descriptor, and writes one index; the
two sides interleave between these. Endianness and pointer conversions are the identity
on buffers, and a buffer is a non-null address. -/
namespace Flexbuild.Shbp
open Words Rings

-- The part of `struct shbp` an operation works on after it has copied the header.
structure Header where
  allocEnq : Nat
  allocDeq : Nat
  freeEnq : Nat
  freeDeq : Nat
  deriving DecidableEq, Repr

-- `max_num` and `alloc_master`, which nobody writes after `shbp_flib_create`.
structure Config where
  maxNum : Nat
  hostIsMaster : Bool
  deriving DecidableEq, Repr

def getNumOfFirstBit (num : Nat) : Nat :=
  match (List.range 32).find? (fun i => decide (num &&& (0x80000000 >>> i) ≠ 0)) with
  | some i => 31 - i
  | none => 0xff

def shbpTotalBytes : Nat := 64

-- `aligned` says that the memory starts on a cache line.
def shbpFlibCreate (aligned : Bool) (size flags : Nat) : Option Config :=
  if aligned = false then none
  else
    let ringSize := minus 32 size shbpTotalBytes >>> 4
    if ringSize < 8 then none
    else some ⟨getNumOfFirstBit ringSize, decide (flags &&& 1 ≠ 0)⟩

theorem getNumOfFirstBitLog {num : Nat} (pos : num ≠ 0) (small : num < 2 ^ 32) :
    getNumOfFirstBit num = num.log2 := by
  have log : num.log2 < 32 := (Nat.log2_lt pos).mpr small
  have mask : ∀ i, i < 32 → (num &&& (0x80000000 >>> i) ≠ 0 ↔ num.testBit (31 - i) = true) := by
    intro i lt
    have shifted : 0x80000000 >>> i = 2 ^ (31 - i) := by
      rw [Nat.shiftRight_eq_div_pow, ← Nat.pow_div (by omega) (by omega)]
    rw [shifted, Nat.and_two_pow]
    cases num.testBit (31 - i) <;> simp
  have found : (List.range 32).find? (fun i => decide (num &&& (0x80000000 >>> i) ≠ 0)) =
      some (31 - num.log2) := by
    rw [List.find?_range_eq_some]
    refine ⟨decide_eq_true ((mask _ (by omega)).mpr ?_), List.mem_range.mpr (by omega), ?_⟩
    · have back : 31 - (31 - num.log2) = num.log2 := by omega
      rw [back]
      exact Nat.testBit_log2 pos
    · intro j before
      have clear : num.testBit (31 - j) = false :=
        Nat.testBit_lt_two_pow ((Nat.log2_lt pos).mp (by omega))
      have no := mt (mask j (by omega)).mp (by rw [clear]; exact Bool.false_ne_true)
      rw [Bool.not_eq_true', decide_eq_false_iff_not]
      exact no
  simp only [getNumOfFirstBit, found]
  omega

theorem shbpFlibCreateSized {aligned : Bool} {size flags : Nat} {c : Config}
    (created : shbpFlibCreate aligned size flags = some c) :
    3 ≤ c.maxNum ∧ c.maxNum ≤ 27 ∧ 2 * (8 * 2 ^ c.maxNum) ≤ minus 32 size shbpTotalBytes := by
  unfold shbpFlibCreate at created
  split at created
  · cases created
  · dsimp only at created
    split at created
    · cases created
    · rename_i enough
      cases created
      have wide := minusLt 32 size shbpTotalBytes
      generalize minus 32 size shbpTotalBytes = bytes at enough wide
      rw [Nat.shiftRight_eq_div_pow] at enough ⊢
      have pos : bytes / 2 ^ 4 ≠ 0 := by omega
      rw [getNumOfFirstBitLog pos (by omega)]
      have low : 3 ≤ (bytes / 2 ^ 4).log2 := (Nat.le_log2 pos).mpr (by omega)
      have high : (bytes / 2 ^ 4).log2 < 28 := (Nat.log2_lt pos).mpr (by omega)
      have fits : 2 ^ (bytes / 2 ^ 4).log2 ≤ bytes / 2 ^ 4 := Nat.log2_self_le pos
      exact ⟨low, Nat.le_of_lt_succ high, by dsimp only; omega⟩

variable {β : Type}

def Config.size (c : Config) : Nat := 2 ^ c.maxNum

def Config.allocIsFull (c : Config) (h : Header) : Bool :=
  decide (minus 32 h.allocEnq h.allocDeq = c.size)

def Config.freeIsFull (c : Config) (h : Header) : Bool :=
  decide (minus 32 h.freeEnq h.freeDeq = c.size)

def allocIsEmpty (h : Header) : Bool := decide (minus 32 h.allocEnq h.allocDeq = 0)

def freeIsEmpty (h : Header) : Bool := decide (minus 32 h.freeEnq h.freeDeq = 0)

inductive HostPc (β : Type) where
  | idle
  | acquireRead (lbp : Header)
  | acquireDeq (lbp : Header) (buf : β)
  | releaseWrite (lbp : Header) (buf : β)
  | releaseEnq (lbp : Header) (buf : β)
  | refillRead (lbp : Header)
  | refillDeq (lbp : Header) (buf : β)
  | refillWrite (lbp : Header) (buf : β)
  | refillEnq (lbp : Header) (buf : β)
  deriving DecidableEq, Repr

inductive AiopPc (β : Type) where
  | idle
  | acquireRead (shbp : Header)
  | acquireDeq (shbp : Header) (buf : β)
  | releaseWrite (shbp : Header) (buf : β)
  | releaseEnq (shbp : Header) (buf : β)
  deriving DecidableEq, Repr

def HostPc.carried : HostPc β → Multiset β
  | .releaseWrite _ buf | .releaseEnq _ buf | .refillWrite _ buf | .refillEnq _ buf => {buf}
  | _ => 0

def AiopPc.carried : AiopPc β → Multiset β
  | .releaseWrite _ buf | .releaseEnq _ buf => {buf}
  | _ => 0

structure Log (β : Type) where
  entered : List β
  left : List β

structure Pool (β : Type) where
  alloc : Queue β
  free : Queue β
  host : HostPc β
  aiop : AiopPc β
  -- Bookkeeping that the code does not have: who holds which buffer, and the history.
  hostHeld : Multiset β
  aiopHeld : Multiset β
  population : Multiset β
  allocLog : Log β
  freeLog : Log β

def Pool.header (s : Pool β) : Header := ⟨s.alloc.enq, s.alloc.deq, s.free.enq, s.free.deq⟩

inductive Action (β : Type) where
  | bring (buf : β)
  | handToAiop (buf : β)
  | handToHost (buf : β)
  | shbpFlibAcquire
  | shbpFlibRelease (buf : β)
  | shbpFlibRefill
  | hostStep
  | shbpAcquire
  | shbpRelease (buf : β)
  | aiopStep
  | aiopError
  deriving DecidableEq, Repr

def Config.refillLoop (c : Config) (lbp : Header) : HostPc β :=
  if freeIsEmpty lbp = false ∧ c.allocIsFull lbp = false then .refillRead lbp else .idle

def Log.enter (log : Log β) (buf : β) : Log β := { log with entered := log.entered ++ [buf] }

def Log.leave (log : Log β) (buf : β) : Log β := { log with left := log.left ++ [buf] }

def hostStep (c : Config) (s : Pool β) : Option (Pool β) :=
  match s.host with
  | .idle => none
  | .acquireRead lbp =>
      some { s with host := .acquireDeq lbp (s.alloc.slots (index c.maxNum lbp.allocDeq)) }
  | .acquireDeq lbp buf =>
      some { s with
        alloc := { s.alloc with deq := wrap 32 (lbp.allocDeq + 1) }
        allocLog := s.allocLog.leave buf
        host := .idle
        hostHeld := buf ::ₘ s.hostHeld }
  | .releaseWrite lbp buf =>
      some { s with
        alloc := s.alloc.write c.maxNum lbp.allocEnq buf
        host := .releaseEnq lbp buf }
  | .releaseEnq lbp buf =>
      some { s with
        alloc := { s.alloc with enq := wrap 32 (lbp.allocEnq + 1) }
        allocLog := s.allocLog.enter buf
        host := .idle }
  | .refillRead lbp =>
      some { s with host := .refillDeq lbp (s.free.slots (index c.maxNum lbp.freeDeq)) }
  | .refillDeq lbp buf =>
      some { s with
        free := { s.free with deq := wrap 32 (lbp.freeDeq + 1) }
        freeLog := s.freeLog.leave buf
        host := .refillWrite { lbp with freeDeq := wrap 32 (lbp.freeDeq + 1) } buf }
  | .refillWrite lbp buf =>
      some { s with
        alloc := s.alloc.write c.maxNum lbp.allocEnq buf
        host := .refillEnq lbp buf }
  | .refillEnq lbp buf =>
      some { s with
        alloc := { s.alloc with enq := wrap 32 (lbp.allocEnq + 1) }
        allocLog := s.allocLog.enter buf
        host := c.refillLoop { lbp with allocEnq := wrap 32 (lbp.allocEnq + 1) } }

def aiopStep (c : Config) (s : Pool β) : Option (Pool β) :=
  match s.aiop with
  | .idle => none
  | .acquireRead shbp =>
      some { s with aiop := .acquireDeq shbp (s.alloc.slots (index c.maxNum shbp.allocDeq)) }
  | .acquireDeq shbp buf =>
      some { s with
        alloc := { s.alloc with deq := wrap 32 (shbp.allocDeq + 1) }
        allocLog := s.allocLog.leave buf
        aiop := .idle
        aiopHeld := buf ::ₘ s.aiopHeld }
  | .releaseWrite shbp buf =>
      some { s with
        free := s.free.write c.maxNum shbp.freeEnq buf
        aiop := .releaseEnq shbp buf }
  | .releaseEnq shbp buf =>
      some { s with
        free := { s.free with enq := wrap 32 (shbp.freeEnq + 1) }
        freeLog := s.freeLog.enter buf
        aiop := .idle }

def aiopError (s : Pool β) : Pool β :=
  { s with aiop := .idle, aiopHeld := s.aiop.carried + s.aiopHeld }

def shbpFlibAcquire (c : Config) (s : Pool β) : Pool β :=
  if c.hostIsMaster = false then s
  else if allocIsEmpty s.header then s
  else { s with host := .acquireRead s.header }

variable [DecidableEq β]

def shbpFlibRelease (c : Config) (s : Pool β) (buf : β) : Pool β :=
  if c.allocIsFull s.header then s
  else { s with host := .releaseWrite s.header buf, hostHeld := s.hostHeld.erase buf }

def shbpFlibRefill (c : Config) (s : Pool β) : Pool β :=
  { s with host := c.refillLoop s.header }

def shbpAcquire (c : Config) (s : Pool β) : Pool β :=
  if c.hostIsMaster then s
  else if allocIsEmpty s.header then s
  else { s with aiop := .acquireRead s.header }

def shbpRelease (c : Config) (s : Pool β) (buf : β) : Pool β :=
  if c.freeIsFull s.header then s
  else { s with aiop := .releaseWrite s.header buf, aiopHeld := s.aiopHeld.erase buf }

-- `none` where the action is not possible: another operation of the same side is
-- running, or the buffer is not the caller's to give.
def step (c : Config) (s : Pool β) : Action β → Option (Pool β)
  | .bring buf =>
      if buf ∈ s.population then none
      else some { s with hostHeld := buf ::ₘ s.hostHeld, population := buf ::ₘ s.population }
  | .handToAiop buf =>
      if buf ∈ s.hostHeld then
        some { s with hostHeld := s.hostHeld.erase buf, aiopHeld := buf ::ₘ s.aiopHeld }
      else none
  | .handToHost buf =>
      if buf ∈ s.aiopHeld then
        some { s with aiopHeld := s.aiopHeld.erase buf, hostHeld := buf ::ₘ s.hostHeld }
      else none
  | .shbpFlibAcquire => if s.host = .idle then some (shbpFlibAcquire c s) else none
  | .shbpFlibRelease buf =>
      if s.host = .idle ∧ buf ∈ s.hostHeld then some (shbpFlibRelease c s buf) else none
  | .shbpFlibRefill => if s.host = .idle then some (shbpFlibRefill c s) else none
  | .hostStep => hostStep c s
  | .shbpAcquire => if s.aiop = .idle then some (shbpAcquire c s) else none
  | .shbpRelease buf =>
      if s.aiop = .idle ∧ buf ∈ s.aiopHeld then some (shbpRelease c s buf) else none
  | .aiopStep => aiopStep c s
  | .aiopError => some (aiopError s)

def run (c : Config) (s : Pool β) : List (Action β) → Option (Pool β)
  | [] => some s
  | a :: rest => (step c s a).bind (fun next => run c next rest)

end Flexbuild.Shbp
