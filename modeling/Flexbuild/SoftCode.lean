import Flexbuild.ByteMemory
import Flexbuild.OnesComplement
import Flexbuild.SoftIr

/-! The code that the soft-parser compiler makes of an expression, and the machine that runs it: two
working registers, a window offset, the result array, and the frame, whose bits are read relative to the
window offset. -/
namespace Flexbuild.SoftCode
open ByteMemory (Byte)
open SoftIr (Word CObject CENode)
open Traces (Machine run)

-- `R_EMPTY` is `none` in an `Option`.
inductive CReg where
  | wr0 | wr1
  deriving DecidableEq, Repr

def CReg.other : CReg → CReg
  | .wr0 => .wr1
  | .wr1 => .wr0

inductive BitOperator where
  | and | or | xor
  deriving DecidableEq, Repr

inductive CondOperator where
  | equ | notEqu | greaterEqu | lessEqu | greater | less
  deriving DecidableEq, Repr

-- A label is the count of its unique name. `field` is the object of the expression that a load of frame
-- bits is made for.
inductive CInstruction where
  | label (name : Nat)
  | jmp (label : Nat)
  | compareWr0ToIv (label : Nat) (cond : CondOperator) (value : Word)
  | storeIvToRa (start stop : Nat) (value : Word)
  | storeWrToRa (start stop : Nat) (reg : CReg)
  | loadBytesRaToWr (reg : CReg) (shift : Bool) (start stop : Nat)
  | loadBytesPaToWr (reg : CReg) (shift : Bool) (start stop : Nat)
  | loadBitsFwToWr (reg : CReg) (shift : Bool) (start stop : Nat) (field : Option CObject)
  | loadBitsIvToWr (reg : CReg) (shift : Bool) (value : Word) (bits : Nat)
  | zeroWr (reg : CReg)
  | addWrWrToWr (target left right : CReg)
  | subWrWrToWr (target left right : CReg)
  | addWrIvToWr (target left : CReg) (value : Word)
  | subWrIvToWr (target left : CReg) (value : Word)
  | shiftLeftWrBySv (reg : CReg) (value : Word)
  | shiftRightWrBySv (reg : CReg) (value : Word)
  | bitwiseWrWrToWr (target : CReg) (op : BitOperator)
  | bitwiseWrIvToWr (target source : CReg) (op : BitOperator) (value : Word)
  | loadSvToWo (value : Nat)
  | addSvToWo (value : Nat)
  | setWoByWr (reg : CReg)
  | addWoByWr (reg : CReg)
  | onesCompWr1ToWr0
  | nop
  deriving DecidableEq, Repr

section Running

structure Env where
  frame : Word → Byte
  pa : Nat → Byte

structure State where
  wr0 : Word
  wr1 : Word
  wo : Word
  ra : Nat → Byte

def State.get (s : State) : CReg → Word
  | .wr0 => s.wr0
  | .wr1 => s.wr1

def State.set (s : State) (reg : CReg) (v : Word) : State :=
  match reg with
  | .wr0 => { s with wr0 := v }
  | .wr1 => { s with wr1 := v }

def BitOperator.apply : BitOperator → Word → Word → Word
  | .and => (· &&& ·)
  | .or => (· ||| ·)
  | .xor => (· ^^^ ·)

def CondOperator.holds (a b : Word) : CondOperator → Bool
  | .equ => decide (a = b)
  | .notEqu => decide (a ≠ b)
  | .greaterEqu => decide (b ≤ a)
  | .lessEqu => decide (a ≤ b)
  | .greater => decide (b < a)
  | .less => decide (a < b)

def pushByte (v : Word) (b : Byte) : Word := v <<< 8 ||| b.setWidth 64

def pushBit (v : Word) (b : Bool) : Word := v <<< 1 ||| (BitVec.ofBool b).setWidth 64

def places (start stop : Nat) : List Nat := List.range' start (stop + 1 - start)

def Env.bit (env : Env) (wo : Word) (i : Nat) : Bool := (env.frame (wo + BitVec.ofNat 64 (i / 8))).getLsbD (7 - i % 8)

def autoNumBits (value : Word) : Nat :=
  if value < 0x10000 then 16 else if value < 0x100000000 then 32 else if value < 0x1000000000000 then 48 else 64

def State.store (s : State) (start stop : Nat) (v : Word) : State :=
  { s with ra := fun i => if start ≤ i ∧ i ≤ stop then v.extractLsb' (8 * (stop - i)) 8 else s.ra i }

def quarters (v : Word) : List (BitVec 16) :=
  [v.extractLsb' 48 16, v.extractLsb' 32 16, v.extractLsb' 16 16, v.extractLsb' 0 16]

def State.base (s : State) (reg : CReg) (shift : Bool) : Word := if shift then s.get reg else 0

def exec (env : Env) (s : State) : CInstruction → State
  | .storeIvToRa start stop value => s.store start stop value
  | .storeWrToRa start stop reg => s.store start stop (s.get reg)
  | .loadBytesRaToWr reg shift start stop => s.set reg (((places start stop).map s.ra).foldl pushByte (s.base reg shift))
  | .loadBytesPaToWr reg shift start stop =>
    s.set reg (((places start stop).map env.pa).foldl pushByte (s.base reg shift))
  | .loadBitsFwToWr reg shift start stop _ =>
    s.set reg (((places start stop).map (env.bit s.wo)).foldl pushBit (s.base reg shift))
  | .loadBitsIvToWr reg shift value bits =>
    s.set reg (s.base reg shift <<< (if bits = 0 then autoNumBits value else bits) ||| value)
  | .zeroWr reg => s.set reg 0
  | .addWrWrToWr target left right => s.set target (s.get left + s.get right)
  | .subWrWrToWr target left right => s.set target (s.get left - s.get right)
  | .addWrIvToWr target left value => s.set target (s.get left + value)
  | .subWrIvToWr target left value => s.set target (s.get left - value)
  | .shiftLeftWrBySv reg value => s.set reg (s.get reg <<< value.toNat)
  | .shiftRightWrBySv reg value => s.set reg (s.get reg >>> value.toNat)
  | .bitwiseWrWrToWr target op => s.set target (op.apply s.wr0 s.wr1)
  | .bitwiseWrIvToWr target source op value => s.set target (op.apply (s.get source) value)
  | .loadSvToWo value => { s with wo := BitVec.ofNat 64 value }
  | .addSvToWo value => { s with wo := s.wo + BitVec.ofNat 64 value }
  | .setWoByWr reg => { s with wo := s.get reg }
  | .addWoByWr reg => { s with wo := s.wo + s.get reg }
  | .onesCompWr1ToWr0 =>
    { s with wr0 := ((quarters s.wr1).foldl OnesComplement.add (s.wr0.setWidth 16)).setWidth 64 }
  | .label _ | .jmp _ | .compareWr0ToIv _ _ _ | .nop => s

structure Read where
  wo : Word
  start : Nat
  stop : Nat
  field : Option CObject
  deriving DecidableEq, Repr

def reads (s : State) : CInstruction → Option Read
  | .loadBitsFwToWr _ _ start stop field => some ⟨s.wo, start, stop, field⟩
  | _ => none

def findLabel (name : Nat) : List CInstruction → Option (List CInstruction)
  | [] => none
  | i :: rest => if i = .label name then some rest else findLabel name rest

def machine (env : Env) (whole : List CInstruction) : Machine (List CInstruction × State) Read
  | ([], _) => none
  | (.jmp label :: _, s) => (findLabel label whole).map fun target => (none, target, s)
  | (.compareWr0ToIv label cond value :: rest, s) =>
    if cond.holds s.wr0 value then (findLabel label whole).map fun target => (none, target, s) else some (none, rest, s)
  | (i :: rest, s) => some (reads s i, rest, exec env s i)

def Ends (env : Env) (code : List CInstruction) (s : State) (es : List Read) (s' : State) : Prop :=
  ∃ k, run (machine env code) k (code, s) = (es, ([], s'))

end Running

section Compiling

def isCondi (type : SoftIr.Dyadic) : Bool := type ∈ [.less, .greater, .equ, .notEqu]
def isCondNoti (type : SoftIr.Dyadic) : Bool := type ∈ [.lessEqu, .greaterEqu]
def isCond (type : SoftIr.Dyadic) : Bool := isCondi type || isCondNoti type || type ∈ [.and, .or]

def constant : CENode → Option Word
  | .intConst v => some v
  | _ => none

def rightInt (type : SoftIr.Dyadic) (right : CENode) : Option Word :=
  (constant right).filter fun v => !isCondNoti type && v.toNat < 2 ^ 32 && type ≠ .addCarry

-- How many registers a node needs. `assignWeight` throws where it is 4.
def weight : CENode → Nat
  | .dyadic .checksum _ _ => 3
  | .dyadic type left right =>
    if (rightInt type right).isSome then weight left
    else if weight left = weight right then weight left + 1
    else max (weight left) (weight right)
  | .monadic _ node => weight node
  | _ => 1

-- `gpr2Used` has a bit for each byte of GPR2, which is at byte 8 of the result array.
@[ext] structure CCode where
  chksumStored : Bool
  gpr2Used : BitVec 8
  uniqueName : Nat

def gpr2Bits (start stop : Nat) : BitVec 8 := (places start stop).foldl (fun bits i => bits ||| 1#8 <<< i) 0

def CCode.gpr2IsUsed (c : CCode) (start stop : Nat) : Bool := c.gpr2Used &&& gpr2Bits start stop ≠ 0

def CCode.freeGPR2 (c : CCode) (start stop : Nat) : CCode :=
  { c with gpr2Used := c.gpr2Used &&& ~~~gpr2Bits start stop }

def gpr2Object (start stop : Nat) : CObject := ⟨.ra, start + 8, stop + 8⟩

def CCode.getAndAllocateGPR2 (c : CCode) (start stop : Nat) : Option (CObject × CCode) :=
  if c.gpr2IsUsed start stop then none
  else some (gpr2Object start stop, { c with gpr2Used := c.gpr2Used ||| gpr2Bits start stop })

-- The instructions, the register of the node after them, and the state of the compiler; `none` is an
-- error.
abbrev Processed := Option (List CInstruction × CReg × CCode)

def storeWr (o : CObject) (reg : CReg) : CInstruction := .storeWrToRa o.start o.stop reg
def loadBytes (reg : CReg) (shift : Bool) (o : CObject) : CInstruction := .loadBytesRaToWr reg shift o.start o.stop

def processInt (reg : Option CReg) (concat : Bool) (v : Word) (c : CCode) : Processed :=
  some ([.loadBitsIvToWr (reg.getD .wr1) concat v 0], reg.getD .wr1, c)

def addWo (o : CObject) : Nat := if 128 ≤ o.stop then (o.stop - 128) / 8 + 1 else 0

def loadBits (reg : CReg) (shift : Bool) (o : CObject) : CInstruction :=
  .loadBitsFwToWr reg shift (o.start - addWo o * 8) (o.stop - addWo o * 8) (some o)

def processObject (reg : Option CReg) (concat : Bool) (o : CObject) (c : CCode) : Processed :=
  let r := reg.getD .wr1
  let code := match o.type with
    | .ra => [loadBytes r concat o]
    | .pa => [.loadBytesPaToWr r concat o.start o.stop]
    | .fw => if addWo o = 0 then [.nop, loadBits r concat o]
      else [.addSvToWo (addWo o), .nop, loadBits r concat o, .loadSvToWo 0]
    | _ => []
  some (code, r, c)

-- The loop over the section of the frame, with its five labels from `n` on.
def checksumLoop (size res : CObject) (n : Nat) : List CInstruction := [
  .label n,
  loadBytes .wr0 false size,
  .compareWr0ToIv (n + 3) .greater 7,
  .zeroWr .wr1,
  .label (n + 1),
  .nop,
  .loadBitsFwToWr .wr1 true 0 7 none,
  .subWrIvToWr .wr0 .wr0 1,
  .addSvToWo 1,
  .compareWr0ToIv (n + 1) .greater 0,
  loadBytes .wr0 false size,
  .bitwiseWrIvToWr .wr0 .wr0 .and 1,
  .compareWr0ToIv (n + 2) .equ 0,
  .loadBitsIvToWr .wr1 true 0 8,
  .label (n + 2),
  loadBytes .wr0 false res,
  .onesCompWr1ToWr0,
  .jmp (n + 4),
  .label (n + 3),
  .nop,
  .loadBitsFwToWr .wr1 false 0 63 none,
  loadBytes .wr0 false res,
  .onesCompWr1ToWr0,
  storeWr res .wr0,
  .addSvToWo 8,
  loadBytes .wr0 false size,
  .subWrIvToWr .wr0 .wr0 8,
  storeWr size .wr0,
  .compareWr0ToIv n .greater 0,
  loadBytes .wr0 false res,
  .jmp (n + 4),
  .label (n + 4),
  .loadSvToWo 0]

def processOffset (offset : CENode) (processed : CCode → Processed) (c : CCode) : Option (List CInstruction × CCode) :=
  if constant offset = some 0 then some ([], c)
  else (processed c).map fun (code, reg, c) => (code ++ [.addWoByWr reg], c)

-- `initial`, `offset` and `size` make the code of the three operands.
def processChecksum (offsetNode : CENode) (initial offset size : CCode → Processed) (reg : Option CReg) (c : CCode) :
    Processed :=
  if c.chksumStored then
    let c := c.freeGPR2 6 7
    some ([loadBytes (reg.getD .wr0) false (gpr2Object 6 7)], reg.getD .wr0, { c with chksumStored := false })
  else do
    let (sizeObject, c) ← c.getAndAllocateGPR2 5 5
    let (res, c) ← c.getAndAllocateGPR2 6 7
    let n := c.uniqueName
    let c := { c with uniqueName := n + 5 }
    let (offsetCode, c) ← processOffset offsetNode offset c
    let (sizeCode, sizeReg, c) ← size c
    let (initialCode, initialReg, c) ← initial c
    some (offsetCode ++ sizeCode ++ [storeWr sizeObject sizeReg] ++ initialCode ++ [storeWr res initialReg] ++
      checksumLoop sizeObject res n, .wr0, c.freeGPR2 5 7)

def bitwise (op : BitOperator) (value : Option Word) (reg left : CReg) : CInstruction :=
  match value with
  | some v => .bitwiseWrIvToWr reg left op v
  | none => .bitwiseWrWrToWr reg op

def operation (type : SoftIr.Dyadic) (value : Option Word) (reg left right : CReg) : Option CInstruction :=
  match type with
  | .add => some (match value with
    | some v => .addWrIvToWr reg left v
    | none => .addWrWrToWr reg left right)
  | .sub => some (match value with
    | some v => .subWrIvToWr reg left v
    | none => .subWrWrToWr reg left right)
  | .addCarry => some .onesCompWr1ToWr0
  | .bitAnd => some (bitwise .and value reg left)
  | .bitOr => some (bitwise .or value reg left)
  | .xor => some (bitwise .xor value reg left)
  | .shl => some (.shiftLeftWrBySv reg (value.getD 0))
  | .shr => some (.shiftRightWrBySv reg (value.getD 0))
  | _ => none

def ownReg (e : CENode) (c : CCode) : Option CReg :=
  match e with
  | .dyadic .checksum _ _ => if c.chksumStored then some .wr0 else none
  | _ => none

abbrev Process := Option CReg → Bool → CCode → Processed

def processBoth (first second : Process) (spill : Bool) (reg : Option CReg) (c : CCode) :
    Option (List CInstruction × CReg × CReg × CCode) := do
  let (firstCode, firstReg, c) ← first reg false c
  if spill then
    let (obj, c) ← c.getAndAllocateGPR2 0 7
    let (secondCode, secondReg, c) ← second (some firstReg.other) false c
    some (firstCode ++ [storeWr obj firstReg] ++ secondCode ++ [loadBytes firstReg false obj], firstReg, secondReg,
      c.freeGPR2 0 7)
  else
    let (secondCode, secondReg, c) ← second (some firstReg.other) false c
    some (firstCode ++ secondCode, firstReg, secondReg, c)

def processSides (left right : CENode) (processLeft processRight : Process) (leftReg rightReg : Option CReg) (c : CCode) :
    Option (List CInstruction × CReg × CReg × CCode) :=
  if weight left < weight right then
    (processBoth processRight processLeft (1 < weight left) rightReg c).map fun (code, r, l, c) => (code, l, r, c)
  else processBoth processLeft processRight (1 < weight right) leftReg c

def processOperands (type : SoftIr.Dyadic) (left right : CENode) (processLeft processRight : Process)
    (leftReg rightReg : Option CReg) (c : CCode) : Option (List CInstruction × CReg × CReg × CCode) :=
  match rightInt type right with
  | some _ => (processLeft leftReg false c).map fun (code, l, c) => (code, l, l, c)
  | none => processSides left right processLeft processRight leftReg rightReg c

def processWROperation (type : SoftIr.Dyadic) (left right : CENode) (processLeft processRight : Process) (reg : Option CReg)
    (c : CCode) : Processed := do
  let both := isCond type || type = .addCarry
  let reg := if both then some .wr0 else reg
  if type = .shlAnd then
    let (leftCode, leftReg, c) ← processLeft reg false c
    let (rightCode, _, c) ← processRight (some leftReg) true c
    some (leftCode ++ rightCode, leftReg, c)
  else
    let rightReg := if both then some .wr1 else ownReg right c
    let (code, leftReg, rightReg, c) ← processOperands type left right processLeft processRight reg rightReg c
    let reg := reg.getD leftReg
    if isCond type then some (code, reg, c)
    else (operation type (rightInt type right) reg leftReg rightReg).map fun i => (code ++ [i], reg, c)

def processAssign (left right : CENode) (processRight : Process) (c : CCode) : Processed :=
  match left, constant right with
  | .objRef o, some v =>
    if o.type = .ra then some ([.storeIvToRa o.start o.stop v], .wr0, c)
    else if o.type = .wo then some ([.loadSvToWo v.toNat], .wr0, c) else some ([], .wr0, c)
  | .objRef o, none => (processRight (ownReg right c) false c).map fun (code, r, c) =>
    if o.type = .ra then (code ++ [storeWr o r], .wr0, c)
    else if o.type = .wo then (code ++ [.setWoByWr r], .wr0, c) else (code, .wr0, c)
  | _, some _ => some ([], .wr0, c)
  | _, none => (processRight (ownReg right c) false c).map fun (code, _, c) => (code, .wr0, c)

-- `concat` is the flag of the node, which only objects and constants look at.
def processExpression : CENode → Process
  | .objRef o, reg, concat, c => processObject reg concat o c
  | .intConst v, reg, concat, c => processInt reg concat v c
  | .dyadic .ass left right, _, _, c => processAssign left right (processExpression right) c
  | .dyadic .checksum initial (.dyadic _ offset size), reg, _, c =>
    processChecksum offset (processExpression initial none false) (processExpression offset none false)
      (processExpression size none false) reg c
  | .dyadic .checksum _ _, _, _, _ => none
  | .dyadic type left right, reg, _, c =>
    processWROperation type left right (processExpression left) (processExpression right) reg c
  | .monadic _ _, _, _, _ => none

def findHere (type : SoftIr.Dyadic) (processed : Processed) (c : CCode) (found : Bool) :
    Option (List CInstruction × CCode × Bool) :=
  if type = .checksum then
    if found then none
    else do
      let (code, reg, c) ← processed
      let (ob, c) ← c.getAndAllocateGPR2 6 7
      some (code ++ [storeWr ob reg], { c with chksumStored := true }, true)
  else some ([], c, found)

def findAndProcessChecksum : CENode → CCode → Bool → Option (List CInstruction × CCode × Bool)
  | .dyadic type left right, c, found => do
    let (code, c, found) ← findHere type (processExpression (.dyadic type left right) none false c) c found
    let (leftCode, c, found) ← findAndProcessChecksum left c found
    let (rightCode, c, found) ← findAndProcessChecksum right c found
    some (code ++ leftCode ++ rightCode, c, found)
  | .monadic _ node, c, found => findAndProcessChecksum node c found
  | _, c, found => some ([], c, found)

-- `processStatement` for a statement that is an expression.
def processStatement (e : CENode) (c : CCode) : Option (List CInstruction × CCode) := do
  let (code, c, _) ← findAndProcessChecksum e c false
  let (rest, _, c) ← processExpression e (ownReg e c) false c
  some (code ++ rest, { c with chksumStored := false })

end Compiling
end Flexbuild.SoftCode
