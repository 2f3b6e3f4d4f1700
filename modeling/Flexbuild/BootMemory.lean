import Flexbuild.Words
import Mathlib.Data.List.Nodup
import Mathlib.Logic.Function.Basic

/-! Boot memory manager (mem_mng.c) and descriptor pools (buffer_pool.c). A call
that finds the spinlock taken never returns; this is the `none` of the model.
The error exits of the boot manager are kept as the code has them. -/
namespace Flexbuild.BootMemory
open Words

inductive Errno where
  | enomem | einval | enavail | enospc | eacces | enodev
  deriving DecidableEq, Repr

structure InitialMemMng where
  lock : Bool
  basePaddress : Nat
  baseVaddress : Nat
  size : Nat
  currPtr : Nat
  deriving DecidableEq, Repr

def bootMemMngInit (basePaddress baseVaddress size : Nat) : InitialMemMng :=
  ⟨false, basePaddress, baseVaddress, size, basePaddress⟩

def lockSpinlock (m : InitialMemMng) : Option InitialMemMng :=
  if m.lock then none else some {m with lock := true}

def unlockSpinlock (m : InitialMemMng) : InitialMemMng := {m with lock := false}

def reserve (m : InitialMemMng) (size : Nat) : Option (Except Errno Nat × InitialMemMng) := do
  let m ← lockSpinlock m
  if wrap 64 (m.basePaddress + m.size) ≤ wrap 64 (m.currPtr + size) then
    some (.error .enomem, m)
  else
    some (.ok m.currPtr, unlockSpinlock {m with currPtr := wrap 64 (m.currPtr + size)})

def bootGetMem (m : InitialMemMng) (size : Nat) : Option (Except Errno Nat × InitialMemMng) :=
  reserve m size

def bootGetMemVirt (m : InitialMemMng) (size : Nat) : Option (Except Errno Nat × InitialMemMng) := do
  let (result, m') ← reserve m size
  some (result.map (fun paddr =>
    wrap 32 (wrap 32 (minus 64 paddr m.basePaddress) + m.baseVaddress)), m')

structure BufferPool where
  pBuffersAddr : Nat
  buffersStackAddr : Nat
  stack : Nat → Nat
  buffSize : Nat
  numBuffs : Nat
  current : Nat
  bfPoolId : Nat

def stackEntryByteSize : Nat := 8

def computeBlockSize (buffSize buffAlignment : Nat) : Nat :=
  if buffSize < buffAlignment then buffAlignment
  else if buffSize % buffAlignment ≠ 0 then buffSize + (buffAlignment - buffSize % buffAlignment)
  else buffSize

def buffPoolComputeNumBuffers (totalMemSize buffSize buffAlignment : Nat) : Nat :=
  let blockSize := computeBlockSize buffSize buffAlignment
  if totalMemSize < blockSize ∨ totalMemSize < buffAlignment then 0
  else (totalMemSize - buffAlignment) / blockSize

def fillStack (blockSize : Nat) : Nat → Nat → Nat → (Nat → Nat) → (Nat → Nat)
  | 0, _, _, stack => stack
  | left + 1, index, address, stack =>
      fillStack blockSize left (index + 1) (wrap 64 (address + blockSize))
        (Function.update stack index address)

def buffPoolCreate (bfPoolId numBuffs buffSize buffAlignment : Nat) (m : InitialMemMng) :
    Option (Except Errno BufferPool × InitialMemMng) := do
  let (stackAddr, m) ← bootGetMem m (wrap 32 (numBuffs * stackEntryByteSize))
  match stackAddr with
  | .error _ => some (.error .enomem, m)
  | .ok stackAddr =>
    let blockSize := computeBlockSize buffSize buffAlignment
    let (physAddr, m) ← bootGetMem m (wrap 32 (numBuffs * blockSize))
    match physAddr with
    | .error _ => some (.error .enomem, m)
    | .ok physAddr =>
      let first := alignUp 64 physAddr buffAlignment
      some (.ok ⟨first, stackAddr, fillStack blockSize numBuffs 0 first (fun _ => 0),
        buffSize, numBuffs, 0, bfPoolId⟩, m)

def buffPoolGet (p : BufferPool) : Option (Nat × BufferPool) :=
  if p.current = p.numBuffs then none
  else some (p.stack p.current, {p with current := p.current + 1})

def buffPoolPut (p : BufferPool) (bufferAddr : Nat) : Except Errno BufferPool :=
  if 0 < p.current then
    .ok {p with current := p.current - 1, stack := Function.update p.stack (p.current - 1) bufferAddr}
  else .error .enospc

def BufferPool.remaining (p : BufferPool) : List Nat :=
  (List.range' p.current (p.numBuffs - p.current)).map p.stack

structure Fresh (pool : BufferPool) : Prop where
  current : pool.current = 0
  nodup : pool.remaining.Nodup
  nonzero : 0 ∉ pool.remaining

instance (pool : BufferPool) : Decidable (Fresh pool) :=
  decidable_of_iff (pool.current = 0 ∧ pool.remaining.Nodup ∧ 0 ∉ pool.remaining)
    ⟨fun ⟨current, nodup, nonzero⟩ => ⟨current, nodup, nonzero⟩,
      fun fresh => ⟨fresh.current, fresh.nodup, fresh.nonzero⟩⟩

theorem buffPoolGetNone {p : BufferPool} (inside : p.current ≤ p.numBuffs) (empty : p.remaining = []) :
    buffPoolGet p = none := by
  have none : p.numBuffs - p.current = 0 := by simpa [BufferPool.remaining] using empty
  exact if_pos (by omega)

theorem buffPoolGetSome {p : BufferPool} {a : Nat} {rest : List Nat} (some : p.remaining = a :: rest) :
    ∃ p', buffPoolGet p = .some (a, p') ∧ p'.remaining = rest ∧ p'.numBuffs = p.numBuffs ∧
      p'.current = p.current + 1 ∧ p'.current ≤ p'.numBuffs := by
  have positive : p.numBuffs - p.current ≠ 0 := by
    intro zero
    simp [BufferPool.remaining, zero] at some
  have count : p.numBuffs - p.current = (p.numBuffs - (p.current + 1)) + 1 := by omega
  rw [BufferPool.remaining, count, List.range'_succ, List.map_cons] at some
  obtain ⟨rfl, rfl⟩ := List.cons.inj some
  exact ⟨_, if_neg (by omega), rfl, rfl, rfl, by simp only; omega⟩

theorem buffPoolPutOk {p : BufferPool} (a : Nat) (taken : 0 < p.current) (inside : p.current ≤ p.numBuffs) :
    ∃ p', buffPoolPut p a = .ok p' ∧ p'.remaining = a :: p.remaining ∧ p'.numBuffs = p.numBuffs ∧
      p'.current = p.current - 1 ∧ p'.current ≤ p'.numBuffs := by
  refine ⟨_, if_pos taken, ?_, rfl, rfl, by simp only; omega⟩
  have count : p.numBuffs - (p.current - 1) = (p.numBuffs - p.current) + 1 := by omega
  have next : p.current - 1 + 1 = p.current := by omega
  simp only [BufferPool.remaining, count, List.range'_succ, List.map_cons, Function.update_self, next]
  congr 1
  apply List.map_congr_left
  intro k mem
  have above := (List.mem_range'_1.mp mem).1
  exact Function.update_of_ne (by omega) _ _

theorem fillStackAt (blockSize left index address : Nat) (stack : Nat → Nat) (small : address < 2 ^ 64)
    (k : Nat) :
    fillStack blockSize left index address stack k =
      if index ≤ k ∧ k < index + left then wrap 64 (address + (k - index) * blockSize) else stack k := by
  induction left generalizing index address stack with
  | zero => simp only [fillStack]; rw [if_neg (by omega)]
  | succ left ih =>
    rw [fillStack, ih _ _ _ (wrapLt _ _)]
    rcases Nat.lt_trichotomy k index with below | rfl | above
    · rw [if_neg (by omega), if_neg (by omega), Function.update_of_ne (by omega)]
    · rw [if_neg (by omega), if_pos (by omega), Function.update_self]
      simp [wrapSmall small]
    · by_cases inside : k < index + (left + 1)
      · rw [if_pos (by omega), if_pos (by omega)]
        have step : k - index = (k - (index + 1)) + 1 := by omega
        rw [step, wrap, wrap, Nat.mod_add_mod, Nat.succ_mul, wrap]
        congr 1
        ring
      · rw [if_neg (by omega), if_neg (by omega), Function.update_of_ne (by omega)]

theorem blockSizeGeSize (buffSize buffAlignment : Nat) :
    buffSize ≤ computeBlockSize buffSize buffAlignment := by
  unfold computeBlockSize
  split <;> [omega; split <;> omega]

theorem blockSizeMultiple (buffSize : Nat) {buffAlignment : Nat} (pos : 0 < buffAlignment) :
    buffAlignment ∣ computeBlockSize buffSize buffAlignment := by
  unfold computeBlockSize
  split
  · exact dvd_rfl
  · split
    · have part := Nat.mod_lt buffSize pos
      have whole := Nat.div_add_mod buffSize buffAlignment
      refine ⟨buffSize / buffAlignment + 1, ?_⟩
      rw [Nat.mul_add, Nat.mul_one]
      omega
    · exact Nat.dvd_of_mod_eq_zero (by omega)

theorem blockSizePos (buffSize : Nat) {buffAlignment : Nat} (pos : 0 < buffAlignment) :
    0 < computeBlockSize buffSize buffAlignment := by
  unfold computeBlockSize
  split <;> [omega; split <;> omega]

end Flexbuild.BootMemory
