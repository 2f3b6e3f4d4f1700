import Mathlib

/-! The assembler of the soft parser. The generated scanner and grammar turn a program text into
statements, each with a semantic action that codes it; `assemble` is `fmsp_assemble`. A number of
the text is what its digits denote, of any size; the conversions of the scanner and the actions are
applied to it. A text has the length of an `int`, so that no counter wraps. -/
namespace Flexbuild.SoftParser

inductive Register where
  | wr0 | wr1
  deriving DecidableEq, Repr

def Register.number : Register → Nat
  | .wr0 => 0
  | .wr1 => 1

inductive Comparison where
  | equal | notEqual | greaterThan | lessThan | greaterThanEqual | lessThanEqual
  deriving DecidableEq, Repr

def Comparison.number : Comparison → Nat
  | .equal => 0
  | .notEqual => 1
  | .greaterThan => 2
  | .lessThan => 3
  | .greaterThanEqual => 4
  | .lessThanEqual => 5

inductive ImmediateComparison where
  | equal | notEqual | greaterThan | lessThan
  deriving DecidableEq, Repr

def ImmediateComparison.number : ImmediateComparison → Nat
  | .equal => 0
  | .notEqual => 1
  | .greaterThan => 2
  | .lessThan => 3

inductive BitwiseOperator where
  | or | and | xor
  deriving DecidableEq, Repr

def BitwiseOperator.number : BitwiseOperator → Nat
  | .or => 0
  | .and => 1
  | .xor => 2

inductive AddsubOperator where
  | plus | minus
  deriving DecidableEq, Repr

def AddsubOperator.number : AddsubOperator → Nat
  | .plus => 0
  | .minus => 1

-- A value of `LCV |= a | b`: digits or the name of a variable.
inductive Value where
  | number (n : Nat)
  | word (name : String)
  deriving DecidableEq, Repr

structure Branch (τ : Type) where
  hxs : Bool
  target : τ
  deriving DecidableEq, Repr

inductive Operation (τ : Type) where
  | jump (hxs : Bool) (target : τ)
  | compareWorkingRegs (operator : Comparison) (target : τ)
  | compareWr0ToIv (operator : ImmediateComparison) (iv : Nat) (target : τ)
  | case1Dj (b1 b2 : Branch τ)
  | case2Dc (b1 b2 : Branch τ)
  | case2Dj (b1 b2 b3 : Branch τ)
  | case3Dc (b1 b2 b3 : Branch τ)
  | case3Dj (b1 b2 b3 b4 : Branch τ)
  | case4Dc (b1 b2 b3 b4 : Branch τ)
  | jmpNxtEthType
  | jmpNxtIpProto
  | nop
  | clm
  | advanceHbByWo
  | orIvLcv (value : Value) (values : List Value)
  | storeWrToLcv (wr : Register)
  | loadLcvToWr (wr : Register)
  | loadBytesRaToWr (wr : Register) (assign : Bool) (first last : Nat)
  | storeWrToRa (first last : Nat) (wr : Register)
  | storeIvToRa (first last iv : Nat)
  | loadSvToWo (sv : Nat)
  | addSvToWo (sv : Nat)
  | modifyWoByWr (add : Bool) (wr : Register)
  | zeroWr (wr : Register)
  | onesCompWr1ToWr0
  | bitwiseWrWrToWr (target left right : Register) (operator : BitwiseOperator)
  | bitwiseWrIvToWr (target source : Register) (operator : BitwiseOperator) (iv : Nat)
  | addsubWrWrToWr (target left : Register) (operator : AddsubOperator)
  | addsubWrIvToWr (target source : Register) (operator : AddsubOperator) (iv : Nat)
  | shiftLeftWrBySv (wr : Register) (sv : Nat)
  | shiftRightWrBySv (wr : Register) (sv : Nat)
  | loadBitsIvToWr (wr : Register) (assign : Bool) (iv : Nat) (bits : Option Nat)
  | loadBytesPaToWr (wr : Register) (assign : Bool) (first last : Nat)
  | loadBitsFwToWr (wr : Register) (assign : Bool) (first last : Nat)
  deriving DecidableEq, Repr

structure RawWords where
  words : List Nat
  nonempty : words ≠ []
  atMost : words.length ≤ 5
  small : ∀ w ∈ words, w < 0x10000
  deriving DecidableEq, Repr

inductive Statement where
  | label (name : String)
  | defineVariable
  | raw (raw : RawWords)
  | operation (op : Operation String)
  deriving DecidableEq, Repr

structure Source where
  statements : List Statement
  syntaxError : Bool
  deriving DecidableEq, Repr

inductive InstructionType where
  | raw | label | nop | clm | advanceHbByWo | orIvLcv | zeroWr | onesCompWr1ToWr0
  | case1Dj | case2Dc | case2Dj | case3Dc | case3Dj | case4Dc
  | bitwiseWrWrToWr | compareWorkingRegs | bitwiseWrIvToWr | shiftLeftWrBySv | shiftRightWrBySv
  | loadBitsIvToWr | loadSvToWo | addSvToWo | storeIvToRa | loadBytesPaToWr | jump | storeWrToRa
  | loadBytesRaToWr | compareWr0ToIv | loadBitsFwToWr | modifyWoByWr | loadLcvToWr | storeWrToLcv
  | addsubWrWrToWr | addsubWrIvToWr | jmpNxtEthType | jmpNxtIpProto
  deriving DecidableEq, Repr

structure Coding where
  type : InstructionType
  numImmediateValues : Nat
  numValidHwWords : Nat
  hwWords : List Nat
  jumpLabels : List String
  deriving DecidableEq, Repr

def uint8 (x : Nat) : Nat := x % 2 ^ 8
def uint16 (x : Nat) : Nat := x % 2 ^ 16
def uint32 (x : Int) : Nat := (x % 2 ^ 32).toNat

-- The conversions of the C library stop at the end of their type and set `errno`.
def strtol (n : Nat) : Nat := min n (2 ^ 63 - 1)
def strtoull (n : Nat) : Nat := min n (2 ^ 64 - 1)
def strtolErrno (n : Nat) : Bool := 2 ^ 63 ≤ n
def strtoullErrno (n : Nat) : Bool := 2 ^ 64 ≤ n

-- `DEC_VALUE`, cast to `int`; the scanner ends the parse when the number does not fit a `long`.
def decValue (n : Nat) : Option Int :=
  if strtolErrno n then none
  else
    let low : Nat := strtol n % 2 ^ 32
    some (if low < 2 ^ 31 then low else low - 2 ^ 32)

def immediateWords (n v : Nat) : List Nat :=
  (List.range n).map fun k => (v >>> (16 * k)) &&& 0xffff

def oneWord (type : InstructionType) (word : Nat) : Coding := ⟨type, 0, 1, [uint16 word], []⟩

def jmpLabelAction (label : String) (hxs : Bool) : Coding :=
  ⟨.jump, 0, 1, [if hxs then 0x1800 ||| 0x0400 else 0x1800], [label]⟩

def jmpLabelIfWr0Wr1Action (label : String) (operator : Comparison) : Coding :=
  ⟨.compareWorkingRegs, 1, 2, [uint16 (0x0078 ||| operator.number), 0], [label]⟩

-- The grammar passes a token that starts with `0x`; the branches for other texts are never taken,
-- here and in the other actions with an immediate value.
def jmpLabelIfWr0IvAction (label : String) (operator : ImmediateComparison) (iv : Nat) : Coding :=
  let immediateValue := strtoull iv
  let numImmediateValues :=
    if immediateValue < 0x10000 then 1
    else if immediateValue < 0x100000000 then 2
    else if immediateValue < 0x1000000000000 then 3
    else 4
  let (numValidHwWords, ivWordSize) :=
    if immediateValue < 0x10000 then (2, 0)
    else if immediateValue < 0x100000000 then (3, 1)
    else if immediateValue < 0x1000000000000 then (4, 2)
    else (5, 3)
  let word := 0x4000 ||| operator.number <<< 12 ||| ivWordSize <<< 10
  ⟨.compareWr0ToIv, numImmediateValues, numValidHwWords,
    uint16 word :: immediateWords (ivWordSize + 1) immediateValue, [label]⟩

def hxsBits (branches : List (Branch String)) : Nat :=
  match branches with
  | [] => 0
  | b :: rest => hxsBits rest <<< 1 ||| b.hxs.toNat

def jmpLabelCase (type : InstructionType) (code : Nat) (branches : List (Branch String)) : Coding :=
  ⟨type, branches.length, branches.length + 1,
    uint16 (code ||| hxsBits branches) :: branches.map (fun _ => 0), branches.map Branch.target⟩

def jmpLabelCase1djAction (b1 b2 : Branch String) : Coding := jmpLabelCase .case1Dj 0x0008 [b1, b2]
def jmpLabelCase2dcAction (b1 b2 : Branch String) : Coding := jmpLabelCase .case2Dc 0x000c [b1, b2]
def jmpLabelCase2djAction (b1 b2 b3 : Branch String) : Coding :=
  jmpLabelCase .case2Dj 0x0010 [b1, b2, b3]
def jmpLabelCase3dcAction (b1 b2 b3 : Branch String) : Coding :=
  jmpLabelCase .case3Dc 0x0018 [b1, b2, b3]
def jmpLabelCase3djAction (b1 b2 b3 b4 : Branch String) : Coding :=
  jmpLabelCase .case3Dj 0x0020 [b1, b2, b3, b4]
def jmpLabelCase4dcAction (b1 b2 b3 b4 : Branch String) : Coding :=
  jmpLabelCase .case4Dc 0x0030 [b1, b2, b3, b4]

-- The values are joined to one text, `strtoll` reads it up to the first blank, and a name has no
-- digits. When `errno` is set the two words keep their zeros.
def setLcvBitsAction (value : Value) (_values : List Value) : Coding :=
  let digits := match value with
    | .number n => n
    | .word _ => 0
  let immediateValue := if strtolErrno digits then 0 else uint32 (strtol digits)
  ⟨.orIvLcv, 2, 3, [0x0003, immediateValue &&& 0xffff, (immediateValue >>> 16) &&& 0xffff], []⟩

def resultArrayRangeAction (first last : Nat) (isGprv : Bool) : Option (Nat × Nat) := do
  let startIdx ← decValue first
  let endIdx ← decValue last
  if isGprv && (startIdx > 15 || endIdx > 15) then none
  else if startIdx < 0 then none
  else if endIdx < 0 then none
  else if startIdx > 0x7f then none
  else if endIdx > 0x7f then none
  else if startIdx > endIdx then none
  else if endIdx - startIdx > 7 then none
  else some (startIdx.toNat, endIdx.toNat)

def loadBytesRaToWrAction (wr : Register) (assign : Bool) (first last : Nat) : Option Coding := do
  let (rangeStart, rangeEnd) ← resultArrayRangeAction first last false
  let shift := if assign then 0 else 1
  some (oneWord .loadBytesRaToWr
    (0x3000 ||| shift <<< 11 ||| rangeEnd <<< 4 ||| (rangeEnd - rangeStart) <<< 1 ||| wr.number))

def storeWrToRaAction (first last : Nat) (wr : Register) : Option Coding := do
  let (rangeStart, rangeEnd) ← resultArrayRangeAction first last false
  some (oneWord .storeWrToRa
    (0x2800 ||| (rangeEnd - rangeStart) <<< 8 ||| rangeEnd <<< 1 ||| wr.number))

def ivWords : Nat → Option Nat
  | 1 | 2 => some 1
  | 3 | 4 => some 2
  | 5 | 6 => some 3
  | 7 | 8 => some 4
  | _ => none

def storeIvToRaAction (first last iv : Nat) : Option Coding := do
  let (rangeStart, rangeEnd) ← resultArrayRangeAction first last false
  let numIvBytes := uint8 (rangeEnd - rangeStart + 1)
  let numIvWords ← ivWords numIvBytes
  let immediateValue := strtoull iv
  let numValidHwWords :=
    if numIvWords = 1 then 2 else if numIvWords = 2 then 3 else if numIvWords = 3 then 4 else 5
  some ⟨.storeIvToRa, numIvWords, numValidHwWords,
    uint16 (0x0800 ||| (numIvBytes - 1) <<< 7 ||| rangeEnd) ::
      immediateWords (numValidHwWords - 1) immediateValue, []⟩

def loadSvToWoAction (sv : Nat) : Coding := oneWord .loadSvToWo (0x0600 ||| uint32 (strtol sv))
def addSvToWoAction (sv : Nat) : Coding := oneWord .addSvToWo (0x0700 ||| uint32 (strtol sv))

def modifyWoByWrAction (add : Bool) (wr : Register) : Coding :=
  oneWord .modifyWoByWr (0x0080 ||| add.toNat <<< 1 ||| wr.number)

-- The grammar has two source registers here and drops them.
def bitwiseWrWrToWrAction (wr : Register) (function : BitwiseOperator) : Coding :=
  oneWord .bitwiseWrWrToWr (0x0070 ||| function.number <<< 1 ||| wr.number)

def bitwiseWrIvToWrAction (target source : Register) (function : BitwiseOperator) (iv : Nat) :
    Option Coding :=
  if strtoullErrno iv then none
  else
    let ivWordSize := 3
    let word := 0x00c0 ||| target.number <<< 5 ||| ivWordSize <<< 3 ||| function.number <<< 1 |||
      source.number
    some ⟨.bitwiseWrIvToWr, 4, 5, uint16 word :: immediateWords 4 (strtoull iv), []⟩

def addsubWrWrToWrAction (target left : Register) (function : AddsubOperator) : Coding :=
  oneWord .addsubWrWrToWr (0x0048 ||| target.number <<< 2 ||| function.number <<< 1 ||| left.number)

def addsubSize (immediateValue : Nat) : Option (Nat × Nat) :=
  if immediateValue < 0x10000 then some (1, 0)
  else if immediateValue < 0x100000000 then some (2, 1)
  else none

def addsubWrIvToWrAction (target source : Register) (function : AddsubOperator) (iv : Nat) :
    Option Coding :=
  if strtoullErrno iv then none
  else do
    let immediateValue := strtoull iv
    let (numImmediateValues, size) ← addsubSize immediateValue
    let numValidHwWords := if numImmediateValues = 1 then 2 else 3
    let word := 0x0050 ||| size <<< 3 ||| target.number <<< 2 ||| function.number <<< 1 |||
      source.number
    some ⟨.addsubWrWrToWr, numImmediateValues, numValidHwWords,
      uint16 word :: immediateWords (numValidHwWords - 1) immediateValue, []⟩

def bitwiseShift (type : InstructionType) (code : Nat) (wr : Register) (sv : Nat) :
    Option Coding :=
  if strtoullErrno sv then none
  else
    let specificValue := uint8 (strtoull sv)
    if specificValue = 0 then none
    else if specificValue > 64 then none
    else some (oneWord type (code ||| (specificValue - 1) <<< 1 ||| wr.number))

def bitwiseShiftLeftWrBySvAction : Register → Nat → Option Coding :=
  bitwiseShift .shiftLeftWrBySv 0x0100
def bitwiseShiftRightWrBySvAction : Register → Nat → Option Coding :=
  bitwiseShift .shiftRightWrBySv 0x0180

def loadBitsIvToWrAction (wr : Register) (iv numBits : Nat) (assign : Bool) : Option Coding :=
  if strtoullErrno iv then none
  else
    let immediateValue := strtoull iv
    let autoNumBits :=
      if immediateValue < 0x10000 then 16
      else if immediateValue < 0x100000000 then 32
      else if immediateValue < 0x1000000000000 then 48
      else 64
    let numBits := if numBits = 0 then autoNumBits else numBits
    let numImmediateValues :=
      if numBits < 17 then 1 else if numBits < 33 then 2 else if numBits < 49 then 3 else 4
    let shift := if assign then 0 else 1
    let numValidHwWords :=
      if numBits ≤ 16 then 2 else if numBits ≤ 32 then 3 else if numBits ≤ 48 then 4 else 5
    let word := 0x0200 ||| shift <<< 7 ||| (numBits - 1) <<< 1 ||| wr.number
    some ⟨.loadBitsIvToWr, numImmediateValues, numValidHwWords,
      uint16 word :: immediateWords (numValidHwWords - 1) immediateValue, []⟩

def loadRange (type : InstructionType) (code maxIndex maxLength shiftBit endBit : Nat)
    (wr : Register) (assign : Bool) (first last : Nat) : Option Coding := do
  let rangeStart := uint32 (← decValue first)
  let rangeEnd := uint32 (← decValue last)
  if rangeStart > maxIndex then none
  else if rangeEnd > maxIndex then none
  else if rangeStart > rangeEnd then none
  else if rangeEnd - rangeStart > maxLength then none
  else
    let shift := if assign then 0 else 1
    some (oneWord type (code ||| shift <<< shiftBit ||| rangeEnd <<< endBit |||
      (rangeEnd - rangeStart) <<< 1 ||| wr.number))

def loadBytesPaToWrAction : Register → Bool → Nat → Nat → Option Coding :=
  loadRange .loadBytesPaToWr 0x1000 0x3f 7 10 4
def loadBitsFwToWrAction : Register → Bool → Nat → Nat → Option Coding :=
  loadRange .loadBitsFwToWr 0x8000 0x7f 63 14 7

def rawInstructionAction (raw : RawWords) : Coding :=
  let numImmediateValues := raw.words.length - 1
  ⟨.raw, numImmediateValues, numImmediateValues + 1, raw.words, []⟩

-- The action of each rule. `none` when the action, or the scanner in it, gives up.
def Operation.code : Operation String → Option Coding
  | .jump hxs target => some (jmpLabelAction target hxs)
  | .compareWorkingRegs operator target => some (jmpLabelIfWr0Wr1Action target operator)
  | .compareWr0ToIv operator iv target => some (jmpLabelIfWr0IvAction target operator iv)
  | .case1Dj b1 b2 => some (jmpLabelCase1djAction b1 b2)
  | .case2Dc b1 b2 => some (jmpLabelCase2dcAction b1 b2)
  | .case2Dj b1 b2 b3 => some (jmpLabelCase2djAction b1 b2 b3)
  | .case3Dc b1 b2 b3 => some (jmpLabelCase3dcAction b1 b2 b3)
  | .case3Dj b1 b2 b3 b4 => some (jmpLabelCase3djAction b1 b2 b3 b4)
  | .case4Dc b1 b2 b3 b4 => some (jmpLabelCase4dcAction b1 b2 b3 b4)
  | .jmpNxtEthType => some (oneWord .jmpNxtEthType 0x0044)
  | .jmpNxtIpProto => some (oneWord .jmpNxtIpProto 0x0045)
  | .nop => some (oneWord .nop 0x0000)
  | .clm => some (oneWord .clm 0x0001)
  | .advanceHbByWo => some (oneWord .advanceHbByWo 0x0002)
  | .orIvLcv value values => some (setLcvBitsAction value values)
  | .storeWrToLcv wr => some (oneWord .storeWrToLcv (0x0042 ||| wr.number))
  | .loadLcvToWr wr => some (oneWord .loadLcvToWr (0x0040 ||| wr.number))
  | .loadBytesRaToWr wr assign first last => loadBytesRaToWrAction wr assign first last
  | .storeWrToRa first last wr => storeWrToRaAction first last wr
  | .storeIvToRa first last iv => storeIvToRaAction first last iv
  | .loadSvToWo sv => some (loadSvToWoAction sv)
  | .addSvToWo sv => some (addSvToWoAction sv)
  | .modifyWoByWr add wr => some (modifyWoByWrAction add wr)
  | .zeroWr wr => some (oneWord .zeroWr (0x0004 ||| wr.number))
  | .onesCompWr1ToWr0 => some (oneWord .onesCompWr1ToWr0 0x0006)
  | .bitwiseWrWrToWr target _ _ operator => some (bitwiseWrWrToWrAction target operator)
  | .bitwiseWrIvToWr target source operator iv => bitwiseWrIvToWrAction target source operator iv
  | .addsubWrWrToWr target left operator => some (addsubWrWrToWrAction target left operator)
  | .addsubWrIvToWr target source operator iv => addsubWrIvToWrAction target source operator iv
  | .shiftLeftWrBySv wr sv => bitwiseShiftLeftWrBySvAction wr sv
  | .shiftRightWrBySv wr sv => bitwiseShiftRightWrBySvAction wr sv
  | .loadBitsIvToWr wr assign iv none => loadBitsIvToWrAction wr iv 0 assign
  | .loadBitsIvToWr wr assign iv (some bits) => do
      loadBitsIvToWrAction wr iv (uint8 (uint32 (← decValue bits))) assign
  | .loadBytesPaToWr wr assign first last => loadBytesPaToWrAction wr assign first last
  | .loadBitsFwToWr wr assign first last => loadBitsFwToWrAction wr assign first last

structure Instruction where
  programCounter : Nat
  coding : Coding
  deriving DecidableEq, Repr

structure Context where
  nextProgramCounter : Nat
  labelTable : List (String × Nat)
  instructionList : List Instruction
  deriving DecidableEq, Repr

def instructionSize (coding : Coding) : Nat := 1 + coding.numImmediateValues

def newInstruction (coding : Coding) (ctx : Context) : Context :=
  let advance := if coding.type = .label then 0 else instructionSize coding
  { ctx with
    nextProgramCounter := ctx.nextProgramCounter + advance
    instructionList := ctx.instructionList ++ [⟨ctx.nextProgramCounter, coding⟩] }

def labelCoding : Coding := ⟨.label, 0, 0, [], []⟩

def labelAction (name : String) (ctx : Context) : Option Context :=
  if (ctx.labelTable.lookup name).isSome then none
  else some (newInstruction labelCoding
    { ctx with labelTable := (name, ctx.nextProgramCounter) :: ctx.labelTable })

def reduce (ctx : Context) : Statement → Option Context
  | .label name => labelAction name ctx
  | .defineVariable => some ctx
  | .raw raw => some (newInstruction (rawInstructionAction raw) ctx)
  | .operation op => op.code.map fun coding => newInstruction coding ctx

-- The parse stops at the first action that fails; what was built before it stays.
def yyparse (ctx : Context) : List Statement → Context × Bool
  | [] => (ctx, false)
  | s :: rest =>
    match reduce ctx s with
    | none => (ctx, true)
    | some next => yyparse next rest

def reservedLabels : List (String × Nat) :=
  [("ETH_HXS", 0x000), ("IPV4_HXS", 0x005), ("IPV6_HXS", 0x006), ("OTH_L3_HXS", 0x009),
    ("TCP_HXS", 0x00a), ("UDP_HXS", 0x00b), ("OTH_L4", 0x00f), ("RETURN_HXS", 0x3fe),
    ("END_PARSE", 0x3ff), ("LLC_SNAP_HXS", 0x001), ("VLAN_HXS", 0x002), ("PPPOE_PPP_HXS", 0x003),
    ("MPLS_HXS", 0x004), ("GRE_HXS", 0x007), ("MINENCAP_HXS", 0x008), ("IPSEC_HXS", 0x00c),
    ("SCTP_HXS", 0x00d), ("DCCP_HXS", 0x00e)]

def programCounterOf (table : List (String × Nat)) (type : InstructionType) (name : String) :
    Option Nat :=
  match type, reservedLabels.lookup name with
  | .jump, some pc => some pc
  | _, _ => table.lookup name

def setTargets : Nat → List Nat → List Nat → List Nat
  | _, words, [] => words
  | k, words, pc :: pcs => setTargets (k + 1) (words.set k (pc &&& 0x3ff)) pcs

def orTarget (words : List Nat) (pc : Nat) : List Nat :=
  words.set 0 (words.getD 0 0 ||| (pc &&& 0x3ff))

def processInstruction (table : List (String × Nat)) (coding : Coding) : Option Coding := do
  let pcs ← coding.jumpLabels.mapM (programCounterOf table coding.type)
  match coding.type with
  | .jump | .compareWr0ToIv => some { coding with hwWords := pcs.foldl orTarget coding.hwWords }
  | _ => some { coding with hwWords := setTargets 1 coding.hwWords pcs }

def processInstructions (table : List (String × Nat)) (codings : List Coding) :
    Option (List Coding) :=
  codings.mapM (processInstruction table)

def totalDataBytes (codings : List Coding) : Nat :=
  (codings.map fun c => 2 * c.numValidHwWords).sum

def emit (coding : Coding) : List Nat :=
  (List.range coding.numValidHwWords).map fun count => coding.hwWords.getD count 0

def saveInstructions (base : Nat) (codings : List Coding) : List Nat :=
  let leadingPad := base - 0x20
  let words := codings.flatMap emit
  List.replicate leadingPad 0 ++ words ++ List.replicate (992 - words.length - leadingPad) 0

inductive ErrorCode where
  | assembleFailed | invalidLabel | maxInstructionsExceeded | invalidParseProgramBaseAddress
  deriving DecidableEq, Repr

structure Output where
  buffer : List Nat
  labelList : List (String × Nat)
  deriving DecidableEq, Repr

def assemble (base : Nat) (source : Source) : Except ErrorCode Output :=
  if base < 0x20 ∨ base > 0x3ff then .error .invalidParseProgramBaseAddress
  else
    let (ctx, failed) := yyparse ⟨base, [], []⟩ source.statements
    match processInstructions ctx.labelTable (ctx.instructionList.map Instruction.coding) with
    | none => .error .invalidLabel
    | some codings =>
      if totalDataBytes codings > (0x3ff - base + 1) * 2 then .error .maxInstructionsExceeded
      else if failed || source.syntaxError then .error .assembleFailed
      else .ok ⟨saveInstructions base codings, ctx.labelTable⟩

end Flexbuild.SoftParser
