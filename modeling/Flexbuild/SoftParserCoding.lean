import Flexbuild.SoftParserModel
import Mathlib.Tactic.Common

/-! One coded instruction. What its action announces to the program counter is what it stores, and
once its labels are known each of its addresses is the counter of a label, cut to ten bits. -/
namespace Flexbuild.SoftParser

-- The place of an instruction is counted by `instructionSize`, its words by `numValidHwWords`.
structure Coding.Sound (c : Coding) : Prop where
  advance : instructionSize c = c.numValidHwWords
  filled : c.hwWords.length = c.numValidHwWords
  type : c.type ≠ .label

theorem immediateWordsLength (n v : Nat) : (immediateWords n v).length = n := by
  simp [immediateWords]

variable {type : InstructionType}

theorem oneWordSound (other : type ≠ .label) (word : Nat) : (oneWord type word).Sound :=
  ⟨rfl, rfl, other⟩

theorem jmpLabelCaseSound (other : type ≠ .label) (word : Nat)
    (branches : List (Branch String)) : (jmpLabelCase type word branches).Sound :=
  ⟨Nat.add_comm _ _, by simp [jmpLabelCase], other⟩

theorem compareSound (label : String) (operator : ImmediateComparison) (iv : Nat) :
    (jmpLabelIfWr0IvAction label operator iv).Sound := by
  refine ⟨?_, ?_, by simp [jmpLabelIfWr0IvAction]⟩
  · simp only [jmpLabelIfWr0IvAction, instructionSize]
    split_ifs <;> rfl
  · simp only [jmpLabelIfWr0IvAction, List.length_cons, immediateWordsLength]
    split_ifs <;> rfl

variable {c : Coding}

theorem storeIvSound {first last iv : Nat} (coded : storeIvToRaAction first last iv = some c) : c.Sound := by
  simp only [storeIvToRaAction, bind, Option.bind_eq_some_iff] at coded
  obtain ⟨range, _, words, count, last⟩ := coded
  cases Option.some.inj last
  have few : words = 1 ∨ words = 2 ∨ words = 3 ∨ words = 4 := by
    unfold ivWords at count
    split at count <;> cases count <;> simp
  rcases few with rfl | rfl | rfl | rfl
  all_goals exact ⟨rfl, by simp [immediateWordsLength], by simp⟩

theorem bitwiseIvSound {target source : Register} {operator : BitwiseOperator} {iv : Nat} (coded : bitwiseWrIvToWrAction target source operator iv = some c) : c.Sound := by
  unfold bitwiseWrIvToWrAction at coded
  split at coded
  · cases coded
  · cases Option.some.inj coded
    exact ⟨rfl, by simp [immediateWordsLength], by simp⟩

theorem addsubIvSound {target source : Register} {operator : AddsubOperator} {iv : Nat}
    (coded : addsubWrIvToWrAction target source operator iv = some c) : c.Sound := by
  unfold addsubWrIvToWrAction at coded
  split at coded
  · cases coded
  · simp only [bind, Option.bind_eq_some_iff] at coded
    obtain ⟨⟨count, size⟩, sized, last⟩ := coded
    cases Option.some.inj last
    have few : count = 1 ∨ count = 2 := by
      unfold addsubSize at sized
      split_ifs at sized <;> cases sized <;> simp
    rcases few with rfl | rfl
    all_goals exact ⟨rfl, by simp [immediateWordsLength], by simp⟩

variable {wr : Register}

theorem bitwiseShiftSound (other : type ≠ .label) {word : Nat} {sv : Nat} (coded : bitwiseShift type word wr sv = some c) :
    c.Sound := by
  simp only [bitwiseShift] at coded
  split_ifs at coded
  cases Option.some.inj coded
  exact oneWordSound other _

theorem loadBitsIvSound {iv bits : Nat} {assign : Bool}
    (coded : loadBitsIvToWrAction wr iv bits assign = some c) : c.Sound := by
  unfold loadBitsIvToWrAction at coded
  split at coded
  · cases coded
  · cases Option.some.inj coded
    generalize (if bits = 0 then _ else bits) = count
    refine ⟨?_, ?_, by simp⟩
    · simp only [instructionSize]
      split_ifs <;> omega
    · simp only [List.length_cons, immediateWordsLength]
      split_ifs <;> rfl

theorem loadBitsLabels {iv bits : Nat} {assign : Bool}
    (coded : loadBitsIvToWrAction wr iv bits assign = some c) : c.jumpLabels = [] := by
  unfold loadBitsIvToWrAction at coded
  split at coded
  · cases coded
  · cases Option.some.inj coded
    rfl

theorem loadRangeSound (other : type ≠ .label) {word maxIndex maxLength shiftBit endBit : Nat} {assign : Bool}
    {first last : Nat}
    (coded : loadRange type word maxIndex maxLength shiftBit endBit wr assign first last = some c) :
    c.Sound := by
  simp only [loadRange, bind, Option.bind_eq_some_iff] at coded
  obtain ⟨_, _, _, _, last⟩ := coded
  split_ifs at last
  all_goals
    cases Option.some.inj last
    exact oneWordSound other _

theorem rawSound (raw : RawWords) : (rawInstructionAction raw).Sound := by
  have some : raw.words.length ≠ 0 := fun none => raw.nonempty (List.length_eq_zero_iff.mp none)
  refine ⟨?_, ?_, by simp [rawInstructionAction]⟩
  · simp only [instructionSize, rawInstructionAction]
    omega
  · simp only [rawInstructionAction]
    omega

variable {op : Operation String}

theorem codeSound (coded : op.code = some c) : c.Sound := by
  cases op <;> simp only [Operation.code] at coded
  case loadBytesRaToWr | storeWrToRa =>
    simp only [loadBytesRaToWrAction, storeWrToRaAction, bind, Option.bind_eq_some_iff] at coded
    obtain ⟨_, _, last⟩ := coded
    cases Option.some.inj last
    exact oneWordSound (by simp) _
  case storeIvToRa => exact storeIvSound coded
  case bitwiseWrIvToWr => exact bitwiseIvSound coded
  case addsubWrIvToWr => exact addsubIvSound coded
  case shiftLeftWrBySv | shiftRightWrBySv => exact bitwiseShiftSound (by simp) coded
  case loadBytesPaToWr | loadBitsFwToWr => exact loadRangeSound (by simp) coded
  case loadBitsIvToWr bits =>
    cases bits with
    | none => exact loadBitsIvSound coded
    | some bits =>
      obtain ⟨_, _, last⟩ := Option.bind_eq_some_iff.mp coded
      exact loadBitsIvSound last
  case compareWr0ToIv => cases coded; exact compareSound _ _ _
  case compareWorkingRegs => cases coded; exact ⟨rfl, rfl, by simp [jmpLabelIfWr0Wr1Action]⟩
  case jump => cases coded; exact ⟨rfl, rfl, by simp [jmpLabelAction]⟩
  case orIvLcv => cases coded; exact ⟨rfl, rfl, by simp [setLcvBitsAction]⟩
  case case1Dj | case2Dc | case2Dj | case3Dc | case3Dj | case4Dc =>
    cases coded
    exact jmpLabelCaseSound (by simp) _ _
  all_goals
    cases coded
    exact oneWordSound (by simp) _

variable {table : List (String × Nat)} {name : String}

theorem emitLength (c : Coding) : (emit c).length = c.numValidHwWords := by simp [emit]

theorem processedSize {c d : Coding} (done : processInstruction table c = some d) :
    d.numValidHwWords = c.numValidHwWords := by
  obtain ⟨pcs, _, last⟩ := Option.bind_eq_some_iff.mp done
  split at last
  all_goals
    cases Option.some.inj last
    rfl

def Operation.targets {τ : Type} : Operation τ → List τ
  | .jump _ target => [target]
  | .compareWorkingRegs _ target => [target]
  | .compareWr0ToIv _ _ target => [target]
  | .case1Dj b1 b2 | .case2Dc b1 b2 => [b1.target, b2.target]
  | .case2Dj b1 b2 b3 | .case3Dc b1 b2 b3 => [b1.target, b2.target, b3.target]
  | .case3Dj b1 b2 b3 b4 | .case4Dc b1 b2 b3 b4 => [b1.target, b2.target, b3.target, b4.target]
  | _ => []

def Operation.addresses {τ : Type} (op : Operation τ) (words : List Nat) : List Nat :=
  match op with
  | .jump .. | .compareWr0ToIv .. => (words.take 1).map (· &&& 0x3ff)
  | _ => ((words.drop 1).take op.targets.length).map (· &&& 0x3ff)

theorem codeLabels (coded : op.code = some c) : c.jumpLabels = op.targets := by
  cases op <;> simp only [Operation.code] at coded
  case loadBytesRaToWr | storeWrToRa =>
    simp only [loadBytesRaToWrAction, storeWrToRaAction, bind, Option.bind_eq_some_iff] at coded
    obtain ⟨_, _, last⟩ := coded
    cases Option.some.inj last
    rfl
  case storeIvToRa =>
    simp only [storeIvToRaAction, bind, Option.bind_eq_some_iff] at coded
    obtain ⟨_, _, _, _, last⟩ := coded
    cases Option.some.inj last
    rfl
  case bitwiseWrIvToWr =>
    simp only [bitwiseWrIvToWrAction] at coded
    split_ifs at coded
    cases Option.some.inj coded
    rfl
  case addsubWrIvToWr =>
    simp only [addsubWrIvToWrAction] at coded
    split_ifs at coded
    obtain ⟨_, _, last⟩ := Option.bind_eq_some_iff.mp coded
    cases Option.some.inj last
    rfl
  case shiftLeftWrBySv | shiftRightWrBySv =>
    simp only [bitwiseShiftLeftWrBySvAction, bitwiseShiftRightWrBySvAction, bitwiseShift] at coded
    split_ifs at coded
    cases Option.some.inj coded
    rfl
  case loadBytesPaToWr | loadBitsFwToWr =>
    simp only [loadBytesPaToWrAction, loadBitsFwToWrAction, loadRange, bind,
      Option.bind_eq_some_iff] at coded
    obtain ⟨_, _, _, _, last⟩ := coded
    split_ifs at last
    all_goals
      cases Option.some.inj last
      rfl
  case loadBitsIvToWr bits =>
    cases bits with
    | none => exact loadBitsLabels coded
    | some bits =>
      obtain ⟨_, _, last⟩ := Option.bind_eq_some_iff.mp coded
      exact loadBitsLabels last
  all_goals
    cases coded
    rfl

def address (table : List (String × Nat)) (type : InstructionType) (name : String) : Nat :=
  (programCounterOf table type name).getD 0 &&& 0x3ff

theorem resolvedAll {α β : Type} {f : α → Option β} {xs : List α} {ys : List β} (other : β)
    (all : xs.mapM f = some ys) :
    ys = xs.map (fun x => (f x).getD other) ∧ ∀ x ∈ xs, ∃ y, f x = some y := by
  induction xs generalizing ys with
  | nil =>
    cases all
    simp
  | cons x xs ih =>
    simp only [List.mapM_cons, bind, Option.bind_eq_some_iff] at all
    obtain ⟨y, one, rest, later, last⟩ := all
    cases Option.some.inj last
    obtain ⟨rfl, found⟩ := ih later
    refine ⟨by simp [one], ?_⟩
    intro z member
    rcases List.mem_cons.mp member with rfl | inside
    · exact ⟨y, one⟩
    · exact found z inside

theorem setTargetsAll (front zs pcs : List Nat) (length : zs.length = pcs.length) :
    setTargets front.length (front ++ zs) pcs = front ++ pcs.map (· &&& 0x3ff) := by
  induction pcs generalizing front zs with
  | nil =>
    cases List.length_eq_zero_iff.mp length
    simp [setTargets]
  | cons pc pcs ih =>
    obtain ⟨z, zs, rfl⟩ := List.exists_cons_of_length_eq_add_one length
    have longer := ih (front ++ [pc &&& 0x3ff]) zs (by simpa using length)
    simpa [setTargets] using longer

theorem emitFilled (filled : c.hwWords.length = c.numValidHwWords) : emit c = c.hwWords := by
  rw [emit, ← filled]
  refine List.ext_getElem (by simp) fun k inside valid => ?_
  simp [valid]

section Processed
variable {c d : Coding} {w : Nat} {zs : List Nat}

theorem labelsFound (done : processInstruction table c = some d) :
    ∀ name ∈ c.jumpLabels, ∃ pc, programCounterOf table c.type name = some pc := by
  obtain ⟨pcs, all, _⟩ := Option.bind_eq_some_iff.mp done
  exact (resolvedAll 0 all).2

theorem targetsPlaced (done : processInstruction table c = some d) (jump : c.type ≠ .jump)
    (compare : c.type ≠ .compareWr0ToIv) (words : c.hwWords = w :: zs)
    (length : zs.length = c.jumpLabels.length) (filled : c.hwWords.length = c.numValidHwWords) :
    emit d = w :: c.jumpLabels.map (address table c.type) := by
  obtain ⟨pcs, all, last⟩ := Option.bind_eq_some_iff.mp done
  obtain ⟨rfl, _⟩ := resolvedAll 0 all
  split at last
  · exact absurd ‹_› jump
  · exact absurd ‹_› compare
  cases Option.some.inj last
  have placed := setTargetsAll [w] zs
    (c.jumpLabels.map fun x => (programCounterOf table c.type x).getD 0) (by simpa using length)
  rw [List.map_map] at placed
  rw [emitFilled]
  · simp only [words]
    exact placed
  · rw [← filled, words]
    exact (congrArg List.length placed).trans (by simp [length])

theorem targetJoined (done : processInstruction table c = some d)
    (kind : c.type = .jump ∨ c.type = .compareWr0ToIv) (words : c.hwWords = w :: zs)
    (labels : c.jumpLabels = [name]) (filled : c.hwWords.length = c.numValidHwWords) :
    emit d = (w ||| address table c.type name) :: zs := by
  obtain ⟨pcs, all, last⟩ := Option.bind_eq_some_iff.mp done
  obtain ⟨rfl, _⟩ := resolvedAll 0 all
  have result : d = { c with hwWords := (w ||| address table c.type name) :: zs } := by
    split at last
    · cases Option.some.inj last
      simp [words, labels, orTarget, address]
    · cases Option.some.inj last
      simp [words, labels, orTarget, address]
    · rename_i jump compare
      exact (kind.elim jump compare).elim
  rw [result, emitFilled]
  rw [← filled, words]
  rfl

end Processed

theorem addressMask (type : InstructionType) (name : String) :
    address table type name &&& 0x3ff = address table type name := by
  rw [address, Nat.and_assoc, Nat.and_self]

theorem addressJoined {w : Nat} (free : w &&& 0x3ff = 0) (type : InstructionType) (name : String) :
    (w ||| address table type name) &&& 0x3ff = address table type name := by
  rw [Nat.and_or_distrib_right, free, Nat.zero_or, addressMask]

theorem compareFree (operator : ImmediateComparison) {size : Nat} (small : size < 4) :
    uint16 (0x4000 ||| operator.number <<< 12 ||| size <<< 10) &&& 0x3ff = 0 := by
  have few : size = 0 ∨ size = 1 ∨ size = 2 ∨ size = 3 := by omega
  rcases few with rfl | rfl | rfl | rfl
  all_goals cases operator <;> decide

theorem compareWords (label : String) (operator : ImmediateComparison) (iv : Nat) :
    ∃ size < 4, strtoull iv < 2 ^ (16 * (size + 1)) ∧
      (jmpLabelIfWr0IvAction label operator iv).hwWords =
        uint16 (0x4000 ||| operator.number <<< 12 ||| size <<< 10) ::
          immediateWords (size + 1) (strtoull iv) := by
  have bound : strtoull iv < 2 ^ 64 := by
    unfold strtoull
    omega
  simp only [jmpLabelIfWr0IvAction]
  split_ifs with one two three
  · exact ⟨0, by omega, one, rfl⟩
  · exact ⟨1, by omega, two, rfl⟩
  · exact ⟨2, by omega, three, rfl⟩
  · exact ⟨3, by omega, bound, rfl⟩

theorem caseStored {code : Nat} {branches : List (Branch String)}
    {d : Coding} (jump : type ≠ .jump) (compare : type ≠ .compareWr0ToIv)
    (done : processInstruction table (jmpLabelCase type code branches) = some d) :
    emit d = uint16 (code ||| hxsBits branches) ::
      (branches.map Branch.target).map (address table type) :=
  targetsPlaced done jump compare rfl (by simp [jmpLabelCase]) (by simp [jmpLabelCase])

theorem addressesStored {c d : Coding} (coded : op.code = some c)
    (done : processInstruction table c = some d) (tail : List Nat) :
    op.addresses (emit d ++ tail) = op.targets.map (address table c.type) ∧
      ∀ name ∈ op.targets, ∃ pc, programCounterOf table c.type name = some pc := by
  cases op
  case jump hxs target =>
    cases coded
    refine ⟨?_, labelsFound done⟩
    rw [targetJoined done (.inl rfl) rfl rfl rfl]
    have free : (if hxs then 0x1800 ||| 0x0400 else 0x1800) &&& 0x3ff = 0 := by
      cases hxs <;> decide
    simpa [Operation.addresses, Operation.targets] using addressJoined free _ target
  case compareWr0ToIv operator iv target =>
    cases coded
    refine ⟨?_, labelsFound done⟩
    obtain ⟨size, small, _, words⟩ := compareWords target operator iv
    rw [targetJoined done (.inr rfl) words rfl (compareSound _ _ _).filled]
    simpa [Operation.addresses, Operation.targets] using
      addressJoined (compareFree operator small) _ target
  case compareWorkingRegs operator target =>
    cases coded
    refine ⟨?_, labelsFound done⟩
    rw [targetsPlaced done (by simp [jmpLabelIfWr0Wr1Action]) (by simp [jmpLabelIfWr0Wr1Action])
      rfl rfl rfl]
    simp [Operation.addresses, Operation.targets, addressMask, jmpLabelIfWr0Wr1Action]
  case case1Dj | case2Dc | case2Dj | case3Dc | case3Dj | case4Dc =>
    cases coded
    refine ⟨?_, labelsFound done⟩
    rw [caseStored (by simp) (by simp) done]
    simp [Operation.addresses, Operation.targets, addressMask, jmpLabelCase1djAction,
      jmpLabelCase2dcAction, jmpLabelCase2djAction, jmpLabelCase3dcAction, jmpLabelCase3djAction,
      jmpLabelCase4dcAction, jmpLabelCase]
  all_goals exact ⟨by simp [Operation.addresses, Operation.targets], by simp [Operation.targets]⟩

end Flexbuild.SoftParser
