import Flexbuild.SoftReading

/-! Exactly when the code of a checksum with a constant offset and size leaves the ones' complement sum of its
initial value and its section of the frame. -/
namespace Flexbuild.SoftCode
open ByteMemory (Byte)
open SoftIr (Word CObject CENode)
open OnesComplement (add plain)

variable {c c' : CCode} {e initial : CENode} {o m : Word} {code : List CInstruction} {reg : Option CReg} {concat : Bool}
  {r : CReg} {env : Env} {s t : State} {l : List CObject} {bound : Nat}

section Alike

structure Alike (env : Env) (bound : Nat) (s t : State) : Prop where
  wr0 : s.wr0 = t.wr0
  wr1 : s.wr1 = t.wr1
  ra : s.ra = t.ra
  looks : ∀ k, k < bound → env.frame (s.wo + BitVec.ofNat 64 k) = env.frame (t.wo + BitVec.ofNat 64 k)

theorem Alike.get (alike : Alike env bound s t) (reg : CReg) : s.get reg = t.get reg := by
  cases reg
  · exact alike.wr0
  · exact alike.wr1

theorem Alike.moved (alike : Alike env bound s t) : ∃ wo, t = { s with wo := wo } := by
  obtain ⟨wr0, wr1, wo, ra⟩ := s
  obtain ⟨wr0', wr1', wo', ra'⟩ := t
  obtain ⟨rfl, rfl, rfl, _⟩ := alike
  exact ⟨wo', rfl⟩

theorem setAlike (reg : CReg) (v : Word) {wo : Word} (alike : Alike env bound s { s with wo := wo }) :
    Alike env bound (s.set reg v) (State.set { s with wo := wo } reg v) := by
  cases reg <;> exact ⟨rfl, rfl, rfl, alike.looks⟩

theorem neutralAlike {stores : Bool} {i : CInstruction} (plain : i.neutral stores = true) (alike : Alike env bound s t) :
    Alike env bound (exec env s i) (exec env t i) := by
  obtain ⟨wo, rfl⟩ := alike.moved
  have base (reg : CReg) (shift : Bool) : State.base { s with wo := wo } reg shift = s.base reg shift := by
    cases reg <;> rfl
  have get (reg : CReg) : State.get { s with wo := wo } reg = s.get reg := by
    cases reg <;> rfl
  cases i with
  | label _ | jmp _ | compareWr0ToIv _ _ _ => cases plain
  | loadBitsFwToWr _ _ _ _ _ | loadSvToWo _ | addSvToWo _ | setWoByWr _ | addWoByWr _ => cases plain
  | storeIvToRa _ _ _ | onesCompWr1ToWr0 => exact ⟨rfl, rfl, rfl, alike.looks⟩
  | nop => exact alike
  | storeWrToRa _ _ reg =>
    simp only [exec, get]
    exact ⟨rfl, rfl, rfl, alike.looks⟩
  | loadBytesRaToWr _ _ _ _ | loadBytesPaToWr _ _ _ _ | loadBitsIvToWr _ _ _ _ | zeroWr _ | shiftLeftWrBySv _ _
  | shiftRightWrBySv _ _ | addWrWrToWr _ _ _ | subWrWrToWr _ _ _ | addWrIvToWr _ _ _ | subWrIvToWr _ _ _
  | bitwiseWrWrToWr _ _ | bitwiseWrIvToWr _ _ _ _ =>
    simp only [exec, base, get]
    exact setAlike _ _ alike

theorem bitsAlike {wo wo' : Word} {start stop : Nat} (inside : stop / 8 < bound)
    (looks : ∀ k, k < bound → env.frame (wo + BitVec.ofNat 64 k) = env.frame (wo' + BitVec.ofNat 64 k)) :
    (places start stop).map (env.bit wo) = (places start stop).map (env.bit wo') := by
  refine List.map_congr_left fun i member => ?_
  obtain ⟨low, high⟩ := List.mem_range'_1.mp member
  have small : i / 8 < bound := Nat.lt_of_le_of_lt (Nat.div_le_div_right (by omega)) inside
  rw [Env.bit, Env.bit, looks _ small]

theorem loadAlike {start stop : Nat} {field : Option CObject} {shift : Bool} (reg : CReg) (inside : stop / 8 < bound)
    (alike : Alike env bound s t) :
    Alike env bound (exec env s (.loadBitsFwToWr reg shift start stop field))
      (exec env t (.loadBitsFwToWr reg shift start stop field)) := by
  have same := @bitsAlike _ _ _ _ start _ inside alike.looks
  obtain ⟨wo, rfl⟩ := alike.moved
  have base : State.base { s with wo := wo } reg shift = s.base reg shift := by
    cases reg <;> rfl
  simp only [exec, base, same]
  exact setAlike _ _ alike

theorem farAlike {o : CObject} (reg : CReg) (shift : Bool) (sized : Sized o) (beyond : 128 ≤ o.stop)
    (alike : Alike env (2 ^ 32) s t) :
    Alike env (2 ^ 32) (execAll env s [.addSvToWo (addWo o), .nop, loadBits reg shift o, .loadSvToWo 0])
      (execAll env t [.addSvToWo (addWo o), .nop, loadBits reg shift o, .loadSvToWo 0]) := by
  obtain ⟨_, _, short⟩ := sized
  have count : addWo o = (o.stop - 128) / 8 + 1 := if_pos beyond
  have advanced : Alike env (2 ^ 32 - addWo o) { s with wo := s.wo + BitVec.ofNat 64 (addWo o) }
      { t with wo := t.wo + BitVec.ofNat 64 (addWo o) } := by
    refine ⟨alike.wr0, alike.wr1, alike.ra, fun k inside => ?_⟩
    have place := alike.looks (addWo o + k) (by omega)
    rwa [BitVec.ofNat_add, ← BitVec.add_assoc, ← BitVec.add_assoc] at place
  have loaded := @loadAlike _ _ _ _ (o.start - addWo o * 8) (o.stop - addWo o * 8) (some o) shift
    reg (by omega) advanced
  exact ⟨loaded.wr0, loaded.wr1, loaded.ra, fun _ _ => rfl⟩

theorem Handles.alike {stores : Bool} (handles : Handles stores code l) : (∀ o ∈ l, Sized o) → ∀ s t,
    Alike env (2 ^ 32) s t → Alike env (2 ^ 32) (execAll env s code) (execAll env t code) := by
  induction handles with
  | nil => exact fun _ _ _ alike => alike
  | other plain _ later => exact fun sized s t alike => later sized _ _ (neutralAlike plain alike)
  | @near o reg shift code l inside _ later =>
    intro sized s t alike
    refine later (fun o member => sized o (List.mem_cons_of_mem _ member)) _ _ (loadAlike reg ?_ alike)
    omega
  | @far o reg shift code l beyond _ later =>
    intro sized s t alike
    exact later (fun o member => sized o (List.mem_cons_of_mem _ member)) _ _
      (farAlike reg shift (sized o List.mem_cons_self) beyond alike)

end Alike

section Run

variable {stores : Bool}

def sectionSum (initial : CENode) (o m : Word) : CENode :=
  .dyadic .checksum initial (.dyadic .checksumLoc (.intConst o) (.intConst m))

def State.entered (s : State) (o m : Word) : State := { s with wo := s.wo + o, wr1 := m, ra := (s.store 13 13 m).ra }

def startValue (env : Env) (initial : CENode) (c : CCode) (s : State) : BitVec 16 :=
  (value env (processExpression initial none false c.busy) s).setWidth 16

theorem setArray (reg : CReg) (v : Word) : (s.set reg v).ra = s.ra := by
  cases reg <;> rfl

theorem neutralArray {i : CInstruction} (plain : i.neutral false = true) (s : State) : (exec env s i).ra = s.ra := by
  cases i with
  | label _ | jmp _ | compareWr0ToIv _ _ _ => cases plain
  | loadBitsFwToWr _ _ _ _ _ | loadSvToWo _ | addSvToWo _ | setWoByWr _ | addWoByWr _ => cases plain
  | storeIvToRa _ _ _ | storeWrToRa _ _ _ => cases plain
  | onesCompWr1ToWr0 | nop => rfl
  | loadBytesRaToWr _ _ _ _ | loadBytesPaToWr _ _ _ _ | loadBitsIvToWr _ _ _ _ | zeroWr _ | shiftLeftWrBySv _ _
  | shiftRightWrBySv _ _ | addWrWrToWr _ _ _ | subWrWrToWr _ _ _ | addWrIvToWr _ _ _ | subWrIvToWr _ _ _
  | bitwiseWrWrToWr _ _ | bitwiseWrIvToWr _ _ _ _ => exact setArray _ _

theorem handlesArray (handles : Handles false code l) : ∀ s, (execAll env s code).ra = s.ra := by
  induction handles with
  | nil => exact fun _ => rfl
  | other plain _ later => exact fun s => (later _).trans (neutralArray plain s)
  | near _ _ later | far _ _ later => exact fun s => (later _).trans (setArray _ _)

theorem constantRun (v : Word) (s : State) : execAll env s [.loadBitsIvToWr .wr1 false v 0] = { s with wr1 := v } := by
  change { s with wr1 := (0 : Word) <<< _ ||| v } = _
  simp

theorem offsetRun {oc : List CInstruction} {p : CCode}
    (made : processOffset (.intConst o) (processExpression (.intConst o) none false) p = some (oc, p)) (s : State) :
    (execAll env s oc).wr0 = s.wr0 ∧ (execAll env s oc).wo = s.wo + o ∧ (execAll env s oc).ra = s.ra := by
  unfold processOffset at made
  split at made
  · next zero =>
    cases made
    cases zero
    exact ⟨rfl, (BitVec.add_zero _).symm, rfl⟩
  · cases made
    have both : execAll env s ([.loadBitsIvToWr .wr1 false o 0] ++ [.addWoByWr .wr1]) =
        { s with wo := s.wo + o, wr1 := o } := by
      rw [execAllAppend, constantRun]
      rfl
    have wr0 := congrArg State.wr0 both
    have wo := congrArg State.wo both
    have ra := congrArg State.ra both
    exact ⟨wr0, wo, ra⟩

theorem sumStored (s : State) (reg : CReg) :
    (execAll env s [storeWr (gpr2Object 6 7) reg]).sum = (s.get reg).setWidth 16 ∧
      (execAll env s [storeWr (gpr2Object 6 7) reg]).left = s.left ∧
      (execAll env s [storeWr (gpr2Object 6 7) reg]).wo = s.wo := by
  obtain ⟨sum, left⟩ := storedSum s (s.get reg)
  exact ⟨sum, left, rfl⟩

def loopWindow (initial : CENode) (wo : Word) : Word := if ∃ f ∈ fields initial, 128 ≤ f.stop then 0 else wo

theorem enteredRun {oc sc : List CInstruction} {sr : CReg} {p q : CCode}
    (ofOffset : processOffset (.intConst o) (processExpression (.intConst o) none false) p = some (oc, p))
    (ofSize : processExpression (.intConst m) none false p = some (sc, sr, q)) (s : State) :
    execAll env s (oc ++ sc ++ [storeWr (gpr2Object 5 5) sr]) = s.entered o m := by
  obtain ⟨wr0, wo, ra⟩ := @offsetRun _ env _ _ ofOffset s
  cases ofSize
  rw [execAllAppend, execAllAppend, show [CInstruction.loadBitsIvToWr (Option.getD none CReg.wr1) false m 0] =
    [.loadBitsIvToWr .wr1 false m 0] by rfl, constantRun]
  generalize execAll env s oc = a at wr0 wo ra
  change State.store { a with wr1 := m } 13 13 m = _
  simp only [State.entered, State.store, wr0, wo, ra]

theorem enteredLeft (s : State) (o m : Word) : (s.entered o m).left.toNat = m.toNat % 256 := by
  change (m.extractLsb' 0 8).toNat = _
  rw [BitVec.extractLsb'_toNat, Nat.shiftRight_zero]

theorem sectionRun (parsed : Parsed initial) (fresh : c.chksumStored = false)
    (first : ChecksumCode initial (.intConst o) (.intConst m) c code) (env : Env) (s : State) :
    ∃ es s', Ends env code s es s' ∧
      s'.wr0 = ((pairs (counted env (loopWindow initial (s.wo + o)) (m.toNat % 256))).foldl add
      (startValue env initial c (s.entered o m))).setWidth 64 := by
  cases first with
  | @made oc sc ic sr ir ofOffset ofSize ofInitial =>
    obtain ⟨_, sizeLoads, _⟩ := operandMade (e := .intConst m) (c := c.busy) trivial fresh busyUsed ofSize
    obtain ⟨_, initialLoads, _⟩ := operandMade (c := c.busy) parsed fresh busyUsed ofInitial
    have plainOffset := (@offsetRead _ (.intConst o) _ trivial fresh ofOffset env s).straight
    have read := initialLoads.reading parsed env (s.entered o m)
    have starts : startValue env initial c (s.entered o m) = ((execAll env (s.entered o m) ic).get ir).setWidth 16 := by
      rw [startValue, ofInitial]
      rfl
    obtain ⟨_, sizeHandles, _⟩ := sizeLoads
    obtain ⟨_, initialHandles, _⟩ := initialLoads
    have plain : Straight (prologue oc sc ic sr ir) :=
      prologueStraight plainOffset sizeHandles.straight initialHandles.straight
    obtain ⟨es, s', ends, _, _, result⟩ := @checksumRun env _ [] plain (by simp [Straight]) c.uniqueName s
    have front : execAll env s (prologue oc sc ic sr ir) =
        execAll env (execAll env (s.entered o m) ic) [storeWr (gpr2Object 6 7) ir] := by
      rw [prologue, execAllAppend, execAllAppend _ ic, enteredRun ofOffset ofSize]
    obtain ⟨sum, left, window⟩ := @sumStored env (execAll env (s.entered o m) ic) ir
    have count : (execAll env (s.entered o m) ic).left = (s.entered o m).left :=
      congrFun (handlesArray initialHandles _) 13
    have moved : (execAll env (s.entered o m) ic).wo = loopWindow initial (s.wo + o) := by
      unfold loopWindow
      split
      · next far => exact read.offset.1 far
      · next near => exact read.offset.2 near
    rw [front, sum, left, window, count, enteredLeft, moved, ← starts] at result
    rw [List.append_nil] at ends
    exact ⟨_, _, ends, result⟩

end Run

section Sums

theorem frameConstant {wo : Word} {k : Nat} {b : Byte} (all : ∀ i, i < k → env.frame (wo + BitVec.ofNat 64 i) = b) :
    frameBytes env wo k = List.replicate k b := by
  rw [List.eq_replicate_iff]
  refine ⟨frameLength wo k, fun x member => ?_⟩
  obtain ⟨i, inside, rfl⟩ := List.mem_map.mp member
  exact all i (List.mem_range.mp inside)

theorem plainReplicate (b : Byte) : ∀ k,
    plain (pairs (List.replicate k b)) = (b ++ b).toNat * (k / 2) + (b ++ 0#8).toNat * (k % 2)
  | 0 => rfl
  | 1 => by simp [plain, pairs]
  | k + 2 => by
    have half : (k + 2) / 2 = k / 2 + 1 := by omega
    have parity : (k + 2) % 2 = k % 2 := by omega
    have head : plain (pairs (List.replicate (k + 2) b)) = (b ++ b).toNat + plain (pairs (List.replicate k b)) := rfl
    rw [head, plainReplicate b k, half, parity, Nat.mul_add, Nat.mul_one]
    omega

theorem plainOnes (k : Nat) : plain (pairs (List.replicate k 1)) = 257 * (k / 2) + 256 * (k % 2) := plainReplicate 1 k

theorem plainZeros (k : Nat) : plain (pairs (List.replicate k 0)) = 0 := by
  have all := plainReplicate 0 k
  have none : ((0 : Byte) ++ (0 : Byte)).toNat = 0 := rfl
  have none' : ((0 : Byte) ++ 0#8).toNat = 0 := rfl
  rw [all, none, none', Nat.zero_mul, Nat.zero_mul]

def LeavesSum (c : CCode) (initial : CENode) (o m : Word) (code : List CInstruction) : Prop :=
  ∀ env s, ∃ es s', Ends env code s es s' ∧
    s'.wr0 = ((pairs (frameBytes env (s.wo + o) m.toNat)).foldl add (startValue env initial c s)).setWidth 64

-- The initial value is the same behind the offset and with the size in `WR1` and in the result array. The two zeros
-- of ones' complement make no difference in front of a section that is not all zeros.
def Undisturbed (c : CCode) (initial : CENode) (o m : Word) : Prop :=
  ∀ env s, startValue env initial c (s.entered o m) = startValue env initial c s ∨
    ((startValue env initial c (s.entered o m)).toNat ≡ (startValue env initial c s).toNat [MOD 2 ^ 16 - 1] ∧
      ∃ x ∈ pairs (frameBytes env (s.wo + o) m.toNat), x ≠ 0)

theorem startAlike (parsed : Parsed initial) (fresh : c.chksumStored = false) {offset size : CENode}
    (first : ChecksumCode initial offset size c code) (alike : Alike env (2 ^ 32) s t) :
    startValue env initial c s = startValue env initial c t := by
  cases first with
  | @made oc sc ic sr ir ofOffset ofSize ofInitial =>
    obtain ⟨_, ⟨l, handles, are⟩, _⟩ := operandMade (c := c.busy) parsed fresh busyUsed ofInitial
    have after := handles.alike (fun o member => fieldsSized parsed o ((are o).mp member)) s t alike
    rw [startValue, startValue, ofInitial]
    exact congrArg _ (after.get ir)

def State.sized (wo m : Word) : State := State.store ⟨0, m, wo, fun _ => 0⟩ 13 13 m

theorem sizedEntered (wo o m : Word) : (State.sized wo m).entered o m = { State.sized wo m with wo := wo + o } := by
  unfold State.entered State.sized State.store
  congr 1
  funext i
  dsimp only
  split <;> rfl

theorem LeavesSum.residue (leaves : LeavesSum c initial o m code) (parsed : Parsed initial) (fresh : c.chksumStored = false)
    (first : ChecksumCode initial (.intConst o) (.intConst m) c code) (env : Env) (wo : Word)
    (looks : ∀ k, k < 2 ^ 32 → env.frame (wo + o + BitVec.ofNat 64 k) = env.frame (wo + BitVec.ofNat 64 k)) :
    plain (pairs (counted env (loopWindow initial (wo + o)) (m.toNat % 256))) ≡
      plain (pairs (frameBytes env (wo + o) m.toNat)) [MOD 2 ^ 16 - 1] := by
  have alike : Alike env (2 ^ 32) ((State.sized wo m).entered o m) (State.sized wo m) := by
    rw [sizedEntered]
    exact ⟨rfl, rfl, rfl, looks⟩
  have same := startAlike parsed fresh first alike
  obtain ⟨_, _, ends, result⟩ := sectionRun parsed fresh first env (State.sized wo m)
  obtain ⟨_, _, again, asked⟩ := leaves env (State.sized wo m)
  obtain ⟨_, rfl⟩ := ends.once again
  have equal := congrArg (BitVec.setWidth 16) (result.symm.trans asked)
  rw [widened, widened, same] at equal
  have left := OnesComplement.foldResidue (pairs (counted env (loopWindow initial (wo + o)) (m.toNat % 256)))
    (startValue env initial c (State.sized wo m))
  have right := OnesComplement.foldResidue (pairs (frameBytes env (wo + o) m.toNat))
    (startValue env initial c (State.sized wo m))
  have window : (State.sized wo m).wo = wo := rfl
  rw [window] at equal
  rw [equal] at left
  exact Nat.ModEq.add_left_cancel' _ (left.symm.trans right)

theorem LeavesSum.size (leaves : LeavesSum c initial o m code) (parsed : Parsed initial) (fresh : c.chksumStored = false)
    (first : ChecksumCode initial (.intConst o) (.intConst m) c code) : m.toNat ≠ 0 ∧ m.toNat ≠ 256 := by
  have all := leaves.residue parsed fresh first ⟨fun _ => 1, fun _ => 0⟩ 0 fun _ _ => rfl
  have eight (wo : Word) : counted ⟨fun _ => 1, fun _ => 0⟩ wo 0 = List.replicate 8 1 := frameConstant fun _ _ => rfl
  have ones (wo : Word) (k : Nat) : frameBytes ⟨fun _ => 1, fun _ => 0⟩ wo k = List.replicate k 1 :=
    frameConstant fun _ _ => rfl
  constructor
  · intro zero
    rw [zero, Nat.zero_mod, eight, ones, plainOnes, plainOnes] at all
    exact absurd all (by decide)
  · intro whole
    rw [whole, Nat.mod_self, eight, ones, plainOnes, plainOnes] at all
    exact absurd all (by decide)

def halves : Env := ⟨fun x => if 2 ^ 63 ≤ x.toNat then 1 else 0, fun _ => 0⟩

theorem highOnes {k : Nat} (inside : k < 2 ^ 63) : halves.frame (BitVec.ofNat 64 (2 ^ 63) + BitVec.ofNat 64 k) = 1 := by
  refine if_pos ?_
  rw [BitVec.toNat_add, BitVec.toNat_ofNat, BitVec.toNat_ofNat, Nat.mod_eq_of_lt (a := k) (by omega)]
  omega

theorem lowZeros {k : Nat} (inside : k < 2 ^ 63) : halves.frame (0 + BitVec.ofNat 64 k) = 0 := by
  refine if_neg ?_
  have value : (0 + BitVec.ofNat 64 k).toNat = k := by
    rw [show (0 : Word) + BitVec.ofNat 64 k = BitVec.ofNat 64 k by exact BitVec.zero_add _, BitVec.toNat_ofNat,
      Nat.mod_eq_of_lt (by omega)]
  rw [value]
  omega

theorem LeavesSum.near (leaves : LeavesSum c initial o m code) (parsed : Parsed initial) (fresh : c.chksumStored = false)
    (first : ChecksumCode initial (.intConst o) (.intConst m) c code) (few : o.toNat ≤ 256) (some_ : 0 < m.toNat)
    (small : m.toNat < 256) : ∀ f ∈ fields initial, f.stop < 128 := by
  by_contra far
  have window : loopWindow initial (BitVec.ofNat 64 (2 ^ 63) + o) = 0 := if_pos (by simpa using far)
  have offset : BitVec.ofNat 64 o.toNat = o := by rw [BitVec.ofNat_toNat, BitVec.setWidth_eq]
  have high (k : Nat) (inside : k < 2 ^ 62) :
      halves.frame (BitVec.ofNat 64 (2 ^ 63) + o + BitVec.ofNat 64 k) = 1 := by
    rw [← offset, BitVec.add_assoc, ← BitVec.ofNat_add]
    exact highOnes (by omega)
  have all := leaves.residue parsed fresh first halves (BitVec.ofNat 64 (2 ^ 63)) fun k inside => by
    rw [high k (by omega), highOnes (by omega)]
  have zeros : counted halves 0 m.toNat = List.replicate m.toNat 0 := by
    rw [counted, if_neg (by omega)]
    exact frameConstant fun i inside => lowZeros (by omega)
  have ones : frameBytes halves (BitVec.ofNat 64 (2 ^ 63) + o) m.toNat = List.replicate m.toNat 1 :=
    frameConstant fun i inside => high i (by omega)
  rw [window, Nat.mod_eq_of_lt small, zeros, ones, plainZeros, plainOnes] at all
  have whole := (Nat.modEq_zero_iff_dvd).mp all.symm
  have least := Nat.le_of_dvd (by omega) whole
  omega

theorem sectionSumExactly (accepted : Accepted (sectionSum initial o m)) (fresh : c.chksumStored = false)
    (made : processExpression (sectionSum initial o m) reg concat c = some (code, r, c')) :
    LeavesSum c initial o m code ↔
      (0 < m.toNat ∧ m.toNat < 256) ∧ (∀ f ∈ fields initial, f.stop < 128) ∧ Undisturbed c initial o m := by
  obtain ⟨_, _, _, first⟩ := @checksumMade _ _ _ (.intConst o) (.intConst m) _ _ _ fresh accepted.sides.1.parsed trivial
    trivial made
  have parsed := accepted.sides.1.parsed
  have limits := accepted.sides.2.checked
  simp only [checkExprValue, nodeAllowed, Bool.and_eq_true, decide_eq_true_eq] at limits
  obtain ⟨⟨⟨⟨few, most⟩, _⟩, _⟩, _⟩ := limits
  constructor
  · intro leaves
    obtain ⟨some_, notAll⟩ := leaves.size parsed fresh first
    have near := leaves.near parsed fresh first few (by omega) (by omega)
    refine ⟨⟨by omega, by omega⟩, near, fun env s => ?_⟩
    obtain ⟨_, _, ends, result⟩ := sectionRun parsed fresh first env s
    obtain ⟨_, _, again, asked⟩ := leaves env s
    obtain ⟨_, rfl⟩ := ends.once again
    have window : loopWindow initial (s.wo + o) = s.wo + o := if_neg (by simpa using near)
    have equal := congrArg (BitVec.setWidth 16) (result.symm.trans asked)
    rw [widened, widened, window, Nat.mod_eq_of_lt (by omega), counted, if_neg (by omega)] at equal
    exact (OnesComplement.foldSame _ _ _).mp equal
  · rintro ⟨⟨some_, small⟩, near, undisturbed⟩ env s
    obtain ⟨es, s', ends, result⟩ := sectionRun parsed fresh first env s
    have window : loopWindow initial (s.wo + o) = s.wo + o := if_neg (by simpa using near)
    rw [window, Nat.mod_eq_of_lt small, counted, if_neg (by omega),
      (OnesComplement.foldSame _ _ _).mpr (undisturbed env s)] at result
    exact ⟨es, s', ends, result⟩

theorem constantUndisturbed (c : CCode) (v o m : Word) : Undisturbed c (.intConst v) o m := by
  intro env s
  have constant (s : State) : value env (processExpression (.intConst v) none false c.busy) s = v :=
    congrArg State.wr1 (@constantRun env v s)
  refine .inl ?_
  rw [startValue, startValue, constant, constant]

theorem sumAccepted (few : o.toNat ≤ 256) (most : m.toNat ≤ 256) : Accepted (sectionSum (.intConst 0) o m) := by
  refine ⟨⟨by decide, trivial, by decide, trivial, trivial⟩, ?_⟩
  simp [sectionSum, checkExprValue, nodeAllowed, nodeIsCond, isCond, isCondi, isCondNoti, few, most]

theorem sectionSumExactlyEight : ∃ code r c',
    processExpression (sectionSum (.intConst 0) 4 8) none false ⟨false, 0, 0⟩ = some (code, r, c') ∧
      LeavesSum ⟨false, 0, 0⟩ (.intConst 0) 4 8 code := by
  have made : processExpression (sectionSum (.intConst 0) 4 8) none false ⟨false, 0, 0⟩ = some (_, _, _) := rfl
  refine ⟨_, _, _, made, (sectionSumExactly (sumAccepted (by decide) (by decide)) rfl made).mpr ⟨by decide, ?_, ?_⟩⟩
  · rintro _ ⟨⟩
  · exact constantUndisturbed _ _ _ _

theorem sectionSumWhole : ¬ ∀ c initial o m reg concat code r c',
    Accepted (sectionSum initial o m) → c.chksumStored = false →
    processExpression (sectionSum initial o m) reg concat c = some (code, r, c') → LeavesSum c initial o m code := by
  intro all
  have accepted : Accepted (sectionSum (.intConst 0) 0 256) := sumAccepted (by decide) (by decide)
  have made : processExpression (sectionSum (.intConst 0) 0 256) none false ⟨false, 0, 0⟩ = some (_, _, _) := rfl
  have leaves := all ⟨false, 0, 0⟩ (.intConst 0) 0 256 none false _ _ _ accepted rfl made
  obtain ⟨_, _, _, first⟩ := @checksumMade _ _ (.intConst 0) (.intConst 0) (.intConst 256) _ _ _ rfl trivial
    trivial trivial made
  exact (leaves.size trivial rfl first).2 rfl

end Sums
end Flexbuild.SoftCode
