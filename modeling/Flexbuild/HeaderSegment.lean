import Flexbuild.Checksums
import Flexbuild.Fields

/-! A frame under header modification: the presented segment in the workspace, where the headers
are edited, and the frame that the FDMA holds. `fdma_modify_default_segment_data` copies a range
of the segment into the frame. -/
namespace Flexbuild.HeaderModification
open ByteMemory (Memory store storeOutside)
open Fields (halfBytes fullBytes)
open Checksums (cksumUpdateUint32)

def half (m : Memory) (a : Nat) : BitVec 16 := m a ++ m (a + 1)

def full (m : Memory) (a : Nat) : BitVec 32 := half m a ++ half m (a + 2)

def putByte (m : Memory) (a : Nat) (v : BitVec 8) : Memory := store m a [v]

def putHalf (m : Memory) (a : Nat) (v : BitVec 16) : Memory := store m a (halfBytes v)

def putFull (m : Memory) (a : Nat) (v : BitVec 32) : Memory := store m a (fullBytes v)

def updateCksum (m : Memory) (cs : Nat) (oldVal newVal : BitVec 32) : Memory :=
  putHalf m cs (cksumUpdateUint32 (half m cs) oldVal newVal)

structure Workspace where
  seg : Memory
  frame : Memory

def Workspace.fdmaModify (w : Workspace) (offset size : Nat) : Workspace :=
  { w with frame := fun i => if offset ≤ i ∧ i < offset + size then w.seg i else w.frame i }

structure ParseResult where
  isTcp : Bool
  isUdp : Bool
  isTcpOptions : Bool
  isOuterIpv4 : Bool
  isOuterIpv6 : Bool
  isTunneledIp : Bool
  l3Offset : BitVec 8
  l4Offset : BitVec 8
  deriving DecidableEq, Repr

inductive Status where
  | success
  | noUdpFound
  | noIpHdr
  | noTcpFound
  | noTcpMssFound
  | noL4IpFound
  deriving DecidableEq, Repr

def flag (flags mode : BitVec 8) : Bool := decide (flags &&& mode ≠ 0)

variable {m m' : Memory} {a b i : Nat}

theorem putByteElsewhere {v : BitVec 8} (apart : i ≠ a) : putByte m a v i = m i :=
  storeOutside (by simp only [List.length_singleton]; omega)

theorem putHalfElsewhere {v : BitVec 16} (apart : i < a ∨ a + 2 ≤ i) : putHalf m a v i = m i :=
  storeOutside apart

theorem putFullElsewhere {v : BitVec 32} (apart : i < a ∨ a + 4 ≤ i) : putFull m a v i = m i :=
  storeOutside apart

theorem updateCksumElsewhere {v v' : BitVec 32} (apart : i < a ∨ a + 2 ≤ i) :
    updateCksum m a v v' i = m i :=
  putHalfElsewhere apart

theorem halfCongr (same : ∀ i, a ≤ i → i < a + 2 → m i = m' i) : half m a = half m' a := by
  unfold half
  rw [same a (by omega) (by omega), same (a + 1) (by omega) (by omega)]

theorem fullCongr (same : ∀ i, a ≤ i → i < a + 4 → m i = m' i) : full m a = full m' a := by
  unfold full
  rw [halfCongr fun i low high => same i low (by omega),
    halfCongr fun i low high => same i (by omega) (by omega)]

theorem halfPut (m : Memory) (a : Nat) (v : BitVec 16) : half (putHalf m a v) a = v := by
  have high : putHalf m a v (a + 0) = v.extractLsb' 8 8 := ByteMemory.storeInside (Nat.succ_pos 1)
  have low : putHalf m a v (a + 1) = v.extractLsb' 0 8 :=
    ByteMemory.storeInside (Nat.lt_succ_self 1)
  rw [half, show putHalf m a v a = _ from high, low]
  exact BitVec.extractLsb'_append_extractLsb'

theorem halfSame : half m a = half m' a ↔ ∀ i, a ≤ i → i < a + 2 → m i = m' i := by
  refine ⟨fun same i low high => ?_, halfCongr⟩
  unfold half at same
  have first : m a = m' a := by
    have cut := congrArg (fun v => v.extractLsb' 8 8) same
    simpa only [BitVec.extractLsb'_append_eq_left] using cut
  have second : m (a + 1) = m' (a + 1) := by
    have cut := congrArg (fun v => v.extractLsb' 0 8) same
    simpa only [BitVec.extractLsb'_append_eq_right] using cut
  obtain rfl | rfl : i = a ∨ i = a + 1 := by omega
  · exact first
  · exact second

theorem fullSame : full m a = full m' a ↔ ∀ i, a ≤ i → i < a + 4 → m i = m' i := by
  refine ⟨fun same i low high => ?_, fullCongr⟩
  unfold full at same
  have first : half m a = half m' a := by
    have cut := congrArg (fun v => v.extractLsb' 16 16) same
    simpa only [BitVec.extractLsb'_append_eq_left] using cut
  have second : half m (a + 2) = half m' (a + 2) := by
    have cut := congrArg (fun v => v.extractLsb' 0 16) same
    simpa only [BitVec.extractLsb'_append_eq_right] using cut
  by_cases below : i < a + 2
  · exact halfSame.mp first i low below
  · exact halfSame.mp second i (by omega) (by omega)

theorem fullPut (m : Memory) (a : Nat) (v : BitVec 32) : full (putFull m a v) a = v := by
  have byte (i : Nat) (inside : i < 4) : putFull m a v (a + i) = (fullBytes v)[i] :=
    ByteMemory.storeInside inside
  have high : half (putFull m a v) a = v.extractLsb' 16 16 := by
    rw [half, show putFull m a v a = _ from byte 0 (by omega), byte 1 (by omega)]
    exact BitVec.extractLsb'_append_extractLsb'
  have low : half (putFull m a v) (a + 2) = v.extractLsb' 0 16 := by
    rw [half, byte 2 (by omega), byte 3 (by omega)]
    exact BitVec.extractLsb'_append_extractLsb'
  rw [full, high, low]
  exact BitVec.extractLsb'_append_extractLsb'

theorem updateCksumHalf (m : Memory) (a : Nat) (oldVal newVal : BitVec 32) :
    half (updateCksum m a oldVal newVal) a = cksumUpdateUint32 (half m a) oldVal newVal :=
  halfPut m a _

section Choices

variable {c : Prop} [Decidable c] {v : BitVec 8} {h : BitVec 16} {f : BitVec 32}

theorem byteIfElsewhere (apart : i ≠ a) : (if c then putByte m a v else m) i = m i := by
  split
  · exact putByteElsewhere apart
  · rfl

theorem halfIfElsewhere (apart : i < a ∨ a + 2 ≤ i) : (if c then putHalf m a h else m) i = m i := by
  split
  · exact putHalfElsewhere apart
  · rfl

theorem fullIfElsewhere (apart : i < a ∨ a + 4 ≤ i) : (if c then putFull m a f else m) i = m i := by
  split
  · exact putFullElsewhere apart
  · rfl

theorem byteIf : (if c then putByte m a v else m) a = if c then v else m a := by
  split
  · have stored : putByte m a v (a + 0) = v := @ByteMemory.storeInside m a 0 [v] (Nat.succ_pos 0)
    exact stored
  · rfl

theorem halfIf : half (if c then putHalf m a h else m) a = if c then h else half m a := by
  split
  · exact halfPut m a h
  · rfl

theorem fullIf : full (if c then putFull m a f else m) a = if c then f else full m a := by
  split
  · exact fullPut m a f
  · rfl

end Choices

def Presented (len : Nat) (w : Workspace) : Prop := ∀ i < len, w.seg i = w.frame i

theorem presentedModified {w : Workspace} {len offset size : Nat} {edited : Memory}
    (presented : Presented len w) :
    Presented len ({ w with seg := edited }.fdmaModify offset size) ↔
      ∀ i < len, i < offset ∨ offset + size ≤ i → edited i = w.seg i := by
  constructor
  · intro again i inside outside
    have here := again i inside
    simp only [Workspace.fdmaModify] at here
    rw [if_neg (by omega)] at here
    rw [here, presented i inside]
  · intro kept i inside
    simp only [Workspace.fdmaModify]
    split
    · rfl
    · next outside => rw [kept i inside (by omega), presented i inside]

end Flexbuild.HeaderModification
