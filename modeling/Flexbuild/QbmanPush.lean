import Mathlib.Data.BitVec
import Mathlib.Data.List.Induction
import Mathlib.Tactic.Common

/-! Push-mode dequeueing. One word holds the sources a portal dequeues from beside how it does so, and
goes to the register of the hardware as long as there is a source. The getter puts the bit of the
channel to the sources instead of looking at it. -/
namespace Flexbuild.QbmanPush

def fcShift : Nat := 29
def dctShift : Nat := 24
def tokShift : Nat := 16
def srcShift : Nat := 0
def srcMask : BitVec 32 := 0xffff

def dctPrioIcs : BitVec 32 := 1
def fcUpTo3 : BitVec 32 := 1
def sdqcrToken : BitVec 32 := 0xbb

structure Push where
  sdq : BitVec 32
  sdqcr : BitVec 32
  deriving DecidableEq, Repr

def swpInit : Push :=
  { sdq := 0 ||| dctPrioIcs <<< dctShift ||| fcUpTo3 <<< fcShift ||| sdqcrToken <<< tokShift
    sdqcr := 0 }

def sources (sdq : BitVec 32) : BitVec 16 := ((sdq >>> srcShift) &&& srcMask).setWidth 16

-- A channel above 15 is caught by `QBMAN_BUG_ON`.
def pushGet (s : Push) (channelIdx : Fin 16) : BitVec 32 := (sources s.sdq).setWidth 32 ||| (1 : BitVec 32) <<< channelIdx.val

def pushSet (s : Push) (channelIdx : Fin 16) (enable : Int) : Push :=
  let channel := (1 : BitVec 32) <<< channelIdx.val
  let sdq := if enable ≠ 0 then s.sdq ||| channel else s.sdq &&& ~~~channel
  { sdq, sdqcr := if sources sdq ≠ 0 then sdq else 0 }

structure Call where
  channelIdx : Fin 16
  enable : Int
  deriving DecidableEq, Repr

def run (calls : List Call) : Push := calls.foldl (fun s call => pushSet s call.channelIdx call.enable) swpInit

def enabledBy (calls : List Call) (channel : Fin 16) : Bool :=
  calls.foldl (fun enabled call => if call.channelIdx = channel then decide (call.enable ≠ 0) else enabled) false

theorem runSnoc (calls : List Call) (call : Call) : run (calls ++ [call]) = pushSet (run calls) call.channelIdx call.enable := by
  rw [run, List.foldl_append]
  rfl

theorem enabledSnoc (calls : List Call) (call : Call) (channel : Fin 16) : enabledBy (calls ++ [call]) channel =
    if call.channelIdx = channel then decide (call.enable ≠ 0) else enabledBy calls channel := by
  rw [enabledBy, List.foldl_append]
  rfl

theorem zeroBit {w : Nat} (i : Nat) : (0 : BitVec w).getLsbD i = false := BitVec.getLsbD_zero

theorem oneBit (c i : Nat) (inside : c < 32) : ((1 : BitVec 32) <<< c).getLsbD i = decide (i = c) := by
  rw [BitVec.getLsbD_shiftLeft]
  by_cases same : i = c
  · subst same
    simp [inside]
  · by_cases below : i < c
    · simp [below, same]
    · have apart : i - c ≠ 0 := by omega
      simp [same, below, apart]

theorem pushSetBit (s : Push) (call : Call) (i : Nat) : (pushSet s call.channelIdx call.enable).sdq.getLsbD i =
    if call.channelIdx.val = i then decide (call.enable ≠ 0) else s.sdq.getLsbD i := by
  have inside : call.channelIdx.val < 32 := call.channelIdx.isLt.trans (by decide)
  unfold pushSet
  dsimp only
  by_cases enable : call.enable = 0
  · rw [if_neg (not_not_intro enable), BitVec.getLsbD_and, BitVec.getLsbD_not, oneBit _ _ inside]
    by_cases same : call.channelIdx.val = i
    · simp [same, enable]
    · simp only [if_neg same, Ne.symm same, decide_false, Bool.not_false, Bool.and_true]
      by_cases wide : i < 32
      · rw [decide_eq_true wide, Bool.and_true]
      · rw [BitVec.getLsbD_of_ge _ _ (by omega), Bool.false_and]
  · rw [if_pos enable, BitVec.getLsbD_or, oneBit _ _ inside]
    by_cases same : call.channelIdx.val = i
    · simp [same, enable]
    · simp [same, Ne.symm same]

theorem sourceBit (calls : List Call) (channel : Fin 16) : (run calls).sdq.getLsbD channel = enabledBy calls channel := by
  induction calls using List.reverseRecOn with
  | nil =>
    change swpInit.sdq.getLsbD channel = false
    revert channel
    decide
  | append_singleton calls call ih =>
    rw [runSnoc, enabledSnoc, pushSetBit, ih]
    exact if_congr Fin.val_inj rfl rfl

theorem fieldsKept (calls : List Call) : (run calls).sdq >>> 16 = swpInit.sdq >>> 16 := by
  induction calls using List.reverseRecOn with
  | nil => rfl
  | append_singleton calls call ih =>
    rw [← ih, runSnoc]
    refine BitVec.eq_of_getLsbD_eq fun i _ => ?_
    rw [BitVec.getLsbD_ushiftRight, BitVec.getLsbD_ushiftRight, pushSetBit, if_neg]
    have low := call.channelIdx.isLt
    omega

theorem sourcesBit (sdq : BitVec 32) (channel : Fin 16) : (sources sdq).getLsbD channel = sdq.getLsbD channel := by
  have inside := channel.isLt
  have mask : srcMask.getLsbD channel = true := by
    revert channel
    decide
  rw [sources, BitVec.getLsbD_setWidth, decide_eq_true inside, Bool.true_and, BitVec.getLsbD_and, mask, Bool.and_true]
  rfl

theorem sourcesNone (calls : List Call) : sources (run calls).sdq = 0 ↔ ∀ channel, enabledBy calls channel = false := by
  constructor
  · intro none channel
    rw [← sourceBit, ← sourcesBit, none, zeroBit]
  · intro none
    refine BitVec.eq_of_getLsbD_eq fun i inside => ?_
    have bit := (sourcesBit (run calls).sdq ⟨i, inside⟩).trans (sourceBit calls ⟨i, inside⟩)
    rw [zeroBit]
    exact bit.trans (none _)

theorem writtenLast (calls : List Call) : (run calls).sdqcr = if sources (run calls).sdq ≠ 0 then (run calls).sdq else 0 := by
  induction calls using List.reverseRecOn with
  | nil => rfl
  | append_singleton calls call _ =>
    rw [runSnoc]
    rfl

def GetterRight (calls : List Call) (channel : Fin 16) : Prop := pushGet (run calls) channel ≠ 0 ↔ enabledBy calls channel = true

structure RegisterRight (calls : List Call) : Prop where
  none : (run calls).sdqcr = 0 ↔ ∀ channel, enabledBy calls channel = false
  sources : (∃ channel, enabledBy calls channel = true) →
    ∀ channel : Fin 16, (run calls).sdqcr.getLsbD channel = enabledBy calls channel
  fields : (∃ channel, enabledBy calls channel = true) → (run calls).sdqcr >>> 16 = swpInit.sdq >>> 16

theorem registerRight (calls : List Call) : RegisterRight calls := by
  by_cases some : sources (run calls).sdq = 0
  · have none := (sourcesNone calls).mp some
    have written : (run calls).sdqcr = 0 := (writtenLast calls).trans (if_neg (not_not_intro some))
    refine ⟨iff_of_true written none, ?_, ?_⟩
    · rintro ⟨channel, enabled⟩
      exact absurd enabled (by rw [none]; decide)
    · rintro ⟨channel, enabled⟩
      exact absurd enabled (by rw [none]; decide)
  · have written : (run calls).sdqcr = (run calls).sdq := (writtenLast calls).trans (if_pos some)
    have left : ¬∀ channel, enabledBy calls channel = false := mt (sourcesNone calls).mpr some
    have fields : swpInit.sdq >>> 16 ≠ 0 := by decide
    refine ⟨iff_of_false (fun zero => ?_) left, fun _ channel => ?_, fun _ => ?_⟩
    · rw [← fieldsKept calls, ← written, zero] at fields
      exact fields rfl
    · rw [written]
      exact sourceBit calls channel
    · rw [written]
      exact fieldsKept calls

theorem pushGetSet (s : Push) (channel : Fin 16) : pushGet s channel ≠ 0 := by
  intro zero
  have bit := congrArg (BitVec.getLsbD · channel.val) zero
  rw [pushGet] at bit
  simp only [BitVec.getLsbD_or, oneBit _ _ (channel.isLt.trans (by decide)), zeroBit, decide_true, Bool.or_true] at bit
  cases bit

theorem channelsMapped (calls : List Call) :
    (∀ channel, GetterRight calls channel ↔ enabledBy calls channel = true) ∧
    ((∀ channel, GetterRight calls channel) ∧ RegisterRight calls ↔ ∀ channel, enabledBy calls channel = true) := by
  have single (channel : Fin 16) : GetterRight calls channel ↔ enabledBy calls channel = true :=
    iff_true_left (pushGetSet (run calls) channel)
  refine ⟨single, ?_⟩
  rw [and_iff_left (registerRight calls)]
  exact forall_congr' single

theorem neverEnabled : ¬GetterRight [] 0 := by
  unfold GetterRight
  decide

end Flexbuild.QbmanPush
