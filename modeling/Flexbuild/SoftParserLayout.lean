import Flexbuild.Opcodes
import Flexbuild.SoftParserCoding

/-! The layouts of the instruction words, read back. `decode` follows the bit layouts that stand in
the comments of the actions, `meant` is what an instruction of a program says, and `Fits` is when
the words say the same. -/
namespace Flexbuild.SoftParser
open Opcodes

def layout : List (Row InstructionType) :=
  [⟨0x8000, 15, .loadBitsFwToWr⟩, ⟨0x4000, 14, .compareWr0ToIv⟩, ⟨0x3000, 12, .loadBytesRaToWr⟩,
    ⟨0x2800, 11, .storeWrToRa⟩, ⟨0x1800, 11, .jump⟩, ⟨0x1000, 11, .loadBytesPaToWr⟩,
    ⟨0x0800, 10, .storeIvToRa⟩, ⟨0x0700, 8, .addSvToWo⟩, ⟨0x0600, 8, .loadSvToWo⟩,
    ⟨0x0200, 8, .loadBitsIvToWr⟩, ⟨0x0180, 7, .shiftRightWrBySv⟩, ⟨0x0100, 7, .shiftLeftWrBySv⟩,
    ⟨0x00c0, 6, .bitwiseWrIvToWr⟩, ⟨0x0080, 2, .modifyWoByWr⟩, ⟨0x0078, 3, .compareWorkingRegs⟩,
    ⟨0x0070, 3, .bitwiseWrWrToWr⟩, ⟨0x0050, 4, .addsubWrIvToWr⟩, ⟨0x0048, 3, .addsubWrWrToWr⟩,
    ⟨0x0045, 0, .jmpNxtIpProto⟩, ⟨0x0044, 0, .jmpNxtEthType⟩, ⟨0x0042, 1, .storeWrToLcv⟩,
    ⟨0x0040, 1, .loadLcvToWr⟩, ⟨0x0030, 4, .case4Dc⟩, ⟨0x0020, 4, .case3Dj⟩, ⟨0x0018, 3, .case3Dc⟩,
    ⟨0x0010, 3, .case2Dj⟩, ⟨0x000c, 2, .case2Dc⟩, ⟨0x0008, 2, .case1Dj⟩,
    ⟨0x0006, 0, .onesCompWr1ToWr0⟩, ⟨0x0004, 1, .zeroWr⟩, ⟨0x0003, 0, .orIvLcv⟩,
    ⟨0x0002, 0, .advanceHbByWo⟩, ⟨0x0001, 0, .clm⟩, ⟨0x0000, 0, .nop⟩]

theorem layoutApart : layout.Pairwise Apart := by decide

def immediates (type : InstructionType) (w : Nat) : Nat :=
  match type with
  | .compareWorkingRegs => 1
  | .orIvLcv | .case1Dj | .case2Dc => 2
  | .case2Dj | .case3Dc => 3
  | .case3Dj | .case4Dc => 4
  | .compareWr0ToIv => w / 2 ^ 10 % 2 ^ 2 + 1
  | .storeIvToRa => w / 2 ^ 7 % 2 ^ 3 / 2 + 1
  | .loadBitsIvToWr => w / 2 % 2 ^ 6 / 16 + 1
  | .bitwiseWrIvToWr => w / 2 ^ 3 % 2 ^ 2 + 1
  | .addsubWrIvToWr => w / 2 ^ 3 % 2 + 1
  | _ => 0

def registerOf (w : Nat) : Register := if w % 2 = 0 then .wr0 else .wr1

def comparisonOf : Nat → Option Comparison
  | 0 => some .equal
  | 1 => some .notEqual
  | 2 => some .greaterThan
  | 3 => some .lessThan
  | 4 => some .greaterThanEqual
  | 5 => some .lessThanEqual
  | _ => none

def immediateComparisonOf : Nat → Option ImmediateComparison
  | 0 => some .equal
  | 1 => some .notEqual
  | 2 => some .greaterThan
  | 3 => some .lessThan
  | _ => none

def bitwiseOperatorOf : Nat → Option BitwiseOperator
  | 0 => some .or
  | 1 => some .and
  | 2 => some .xor
  | _ => none

def addsubOperatorOf (w : Nat) : AddsubOperator := if w % 2 = 0 then .plus else .minus

def assignOf (w : Nat) : Bool := w % 2 = 0

def valueOf (rest : List Nat) : Nat := Nat.ofDigits (2 ^ 16) rest

def branchOf (w : Nat) (rest : List Nat) (k : Nat) : Branch Nat :=
  ⟨w.testBit k, rest.getD k 0 % 2 ^ 10⟩

def decodeOperands (type : InstructionType) (w : Nat) (rest : List Nat) : Option (Operation Nat) :=
  match type with
  | .jump => some (.jump (w.testBit 10) (w % 2 ^ 10))
  | .compareWorkingRegs => (comparisonOf (w % 2 ^ 3)).map fun operator =>
      .compareWorkingRegs operator (rest.getD 0 0 % 2 ^ 10)
  | .compareWr0ToIv => (immediateComparisonOf (w / 2 ^ 12 % 2 ^ 2)).map fun operator =>
      .compareWr0ToIv operator (valueOf rest) (w % 2 ^ 10)
  | .case1Dj => some (.case1Dj (branchOf w rest 0) (branchOf w rest 1))
  | .case2Dc => some (.case2Dc (branchOf w rest 0) (branchOf w rest 1))
  | .case2Dj => some (.case2Dj (branchOf w rest 0) (branchOf w rest 1) (branchOf w rest 2))
  | .case3Dc => some (.case3Dc (branchOf w rest 0) (branchOf w rest 1) (branchOf w rest 2))
  | .case3Dj => some (.case3Dj (branchOf w rest 0) (branchOf w rest 1) (branchOf w rest 2)
      (branchOf w rest 3))
  | .case4Dc => some (.case4Dc (branchOf w rest 0) (branchOf w rest 1) (branchOf w rest 2)
      (branchOf w rest 3))
  | .jmpNxtEthType => some .jmpNxtEthType
  | .jmpNxtIpProto => some .jmpNxtIpProto
  | .nop => some .nop
  | .clm => some .clm
  | .advanceHbByWo => some .advanceHbByWo
  | .orIvLcv => some (.orIvLcv (.number (valueOf rest)) [])
  | .storeWrToLcv => some (.storeWrToLcv (registerOf w))
  | .loadLcvToWr => some (.loadLcvToWr (registerOf w))
  | .loadBytesRaToWr =>
      let last := w / 2 ^ 4 % 2 ^ 7
      some (.loadBytesRaToWr (registerOf w) (assignOf (w / 2 ^ 11)) (last - w / 2 % 2 ^ 3) last)
  | .storeWrToRa =>
      let last := w / 2 % 2 ^ 7
      some (.storeWrToRa (last - w / 2 ^ 8 % 2 ^ 3) last (registerOf w))
  | .storeIvToRa =>
      let last := w % 2 ^ 7
      some (.storeIvToRa (last - w / 2 ^ 7 % 2 ^ 3) last (valueOf rest))
  | .loadSvToWo => some (.loadSvToWo (w % 2 ^ 8))
  | .addSvToWo => some (.addSvToWo (w % 2 ^ 8))
  | .modifyWoByWr => some (.modifyWoByWr (w.testBit 1) (registerOf w))
  | .zeroWr => some (.zeroWr (registerOf w))
  | .onesCompWr1ToWr0 => some .onesCompWr1ToWr0
  | .bitwiseWrWrToWr => (bitwiseOperatorOf (w / 2 % 2 ^ 2)).map
      (.bitwiseWrWrToWr (registerOf w) .wr0 .wr1)
  | .bitwiseWrIvToWr => (bitwiseOperatorOf (w / 2 % 2 ^ 2)).map fun operator =>
      .bitwiseWrIvToWr (registerOf (w / 2 ^ 5)) (registerOf w) operator (valueOf rest)
  | .addsubWrWrToWr => some (.addsubWrWrToWr (registerOf (w / 2 ^ 2)) (registerOf w)
      (addsubOperatorOf (w / 2)))
  | .addsubWrIvToWr => some (.addsubWrIvToWr (registerOf (w / 2 ^ 2)) (registerOf w)
      (addsubOperatorOf (w / 2)) (valueOf rest))
  | .shiftLeftWrBySv => some (.shiftLeftWrBySv (registerOf w) (w / 2 % 2 ^ 6 + 1))
  | .shiftRightWrBySv => some (.shiftRightWrBySv (registerOf w) (w / 2 % 2 ^ 6 + 1))
  | .loadBitsIvToWr => some (.loadBitsIvToWr (registerOf w) (assignOf (w / 2 ^ 7)) (valueOf rest)
      (some (w / 2 % 2 ^ 6 + 1)))
  | .loadBytesPaToWr =>
      let last := w / 2 ^ 4 % 2 ^ 6
      some (.loadBytesPaToWr (registerOf w) (assignOf (w / 2 ^ 10)) (last - w / 2 % 2 ^ 3) last)
  | .loadBitsFwToWr =>
      let last := w / 2 ^ 7 % 2 ^ 7
      some (.loadBitsFwToWr (registerOf w) (assignOf (w / 2 ^ 14)) (last - w / 2 % 2 ^ 6) last)
  | .raw | .label => none

def decode : List Nat → Option (Operation Nat)
  | [] => none
  | w :: rest => do
    let type ← find layout w
    if rest.length = immediates type w then decodeOperands type w rest else none

theorem decodeRow (low bits : Nat) (type : InstructionType)
    (member : (⟨low, bits, type⟩ : Row InstructionType) ∈ layout) {w : Nat} (above : low ≤ w)
    (below : w < low + 2 ^ bits) {rest : List Nat} (count : rest.length = immediates type w) :
    decode (w :: rest) = decodeOperands type w rest := by
  simp [decode, findCovered layoutApart member ⟨above, below⟩, count]

def Value.bits : Value → Nat
  | .number n => n
  | .word _ => 0

def Operation.Numeric : Operation String → Prop
  | .orIvLcv value values => ∀ v ∈ value :: values, ∃ n, v = .number n
  | _ => True

def autoBits (iv : Nat) : Nat :=
  if iv < 2 ^ 16 then 16 else if iv < 2 ^ 32 then 32 else if iv < 2 ^ 48 then 48 else 64

def counter (table : List (String × Nat)) (type : InstructionType) (name : String) : Nat :=
  (programCounterOf table type name).getD 0

-- What an instruction of a program says, in the form in which words can say it: or-ed values are one
-- value, a missing count of bits is the automatic one, and `WR1 op WR0` is `WR0 op WR1`.
def Operation.meant (address : String → Nat) : Operation String → Operation Nat
  | .jump hxs target => .jump hxs (address target)
  | .compareWorkingRegs operator target => .compareWorkingRegs operator (address target)
  | .compareWr0ToIv operator iv target => .compareWr0ToIv operator iv (address target)
  | .case1Dj b1 b2 => .case1Dj ⟨b1.hxs, address b1.target⟩ ⟨b2.hxs, address b2.target⟩
  | .case2Dc b1 b2 => .case2Dc ⟨b1.hxs, address b1.target⟩ ⟨b2.hxs, address b2.target⟩
  | .case2Dj b1 b2 b3 => .case2Dj ⟨b1.hxs, address b1.target⟩ ⟨b2.hxs, address b2.target⟩
      ⟨b3.hxs, address b3.target⟩
  | .case3Dc b1 b2 b3 => .case3Dc ⟨b1.hxs, address b1.target⟩ ⟨b2.hxs, address b2.target⟩
      ⟨b3.hxs, address b3.target⟩
  | .case3Dj b1 b2 b3 b4 => .case3Dj ⟨b1.hxs, address b1.target⟩ ⟨b2.hxs, address b2.target⟩
      ⟨b3.hxs, address b3.target⟩ ⟨b4.hxs, address b4.target⟩
  | .case4Dc b1 b2 b3 b4 => .case4Dc ⟨b1.hxs, address b1.target⟩ ⟨b2.hxs, address b2.target⟩
      ⟨b3.hxs, address b3.target⟩ ⟨b4.hxs, address b4.target⟩
  | .jmpNxtEthType => .jmpNxtEthType
  | .jmpNxtIpProto => .jmpNxtIpProto
  | .nop => .nop
  | .clm => .clm
  | .advanceHbByWo => .advanceHbByWo
  | .orIvLcv value values =>
      .orIvLcv (.number (values.foldl (fun n v => n ||| v.bits) value.bits)) []
  | .storeWrToLcv wr => .storeWrToLcv wr
  | .loadLcvToWr wr => .loadLcvToWr wr
  | .loadBytesRaToWr wr assign first last => .loadBytesRaToWr wr assign first last
  | .storeWrToRa first last wr => .storeWrToRa first last wr
  | .storeIvToRa first last iv => .storeIvToRa first last iv
  | .loadSvToWo sv => .loadSvToWo sv
  | .addSvToWo sv => .addSvToWo sv
  | .modifyWoByWr add wr => .modifyWoByWr add wr
  | .zeroWr wr => .zeroWr wr
  | .onesCompWr1ToWr0 => .onesCompWr1ToWr0
  | .bitwiseWrWrToWr target .wr1 .wr0 operator => .bitwiseWrWrToWr target .wr0 .wr1 operator
  | .bitwiseWrWrToWr target left right operator => .bitwiseWrWrToWr target left right operator
  | .bitwiseWrIvToWr target source operator iv => .bitwiseWrIvToWr target source operator iv
  | .addsubWrWrToWr target left operator => .addsubWrWrToWr target left operator
  | .addsubWrIvToWr target source operator iv => .addsubWrIvToWr target source operator iv
  | .shiftLeftWrBySv wr sv => .shiftLeftWrBySv wr sv
  | .shiftRightWrBySv wr sv => .shiftRightWrBySv wr sv
  | .loadBitsIvToWr wr assign iv none => .loadBitsIvToWr wr assign iv (some (autoBits iv))
  | .loadBitsIvToWr wr assign iv (some bits) => .loadBitsIvToWr wr assign iv (some bits)
  | .loadBytesPaToWr wr assign first last => .loadBytesPaToWr wr assign first last
  | .loadBitsFwToWr wr assign first last => .loadBitsFwToWr wr assign first last

def Operation.Fits (address : String → Nat) (op : Operation String) : Prop :=
  match op with
  | .compareWr0ToIv _ iv target => iv < 2 ^ 64 ∧ address target < 2 ^ 10
  | .orIvLcv value values => value.bits < 2 ^ 32 ∧ ∀ v ∈ values, value.bits ||| v.bits = value.bits
  | .loadBytesRaToWr _ _ first last | .storeWrToRa first last _ | .loadBytesPaToWr _ _ first last
  | .loadBitsFwToWr _ _ first last => first < 2 ^ 32 ∧ last < 2 ^ 32
  | .storeIvToRa first last iv =>
      first < 2 ^ 32 ∧ last < 2 ^ 32 ∧ iv < 2 ^ (16 * ((last - first) / 2 + 1))
  | .loadSvToWo sv | .addSvToWo sv => sv < 2 ^ 8
  | .bitwiseWrWrToWr _ left right _ => left ≠ right
  | .shiftLeftWrBySv _ sv | .shiftRightWrBySv _ sv => sv ≤ 64
  | .loadBitsIvToWr _ _ iv (some bits) =>
      1 ≤ bits ∧ bits ≤ 64 ∧ iv < 2 ^ (16 * ((bits - 1) / 16 + 1))
  | op => ∀ name ∈ op.targets, address name < 2 ^ 10

end Flexbuild.SoftParser
