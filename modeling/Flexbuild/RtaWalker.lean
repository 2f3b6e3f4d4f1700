import Flexbuild.RtaErrors
import Flexbuild.RtaFifos
import Flexbuild.SelfDelimiting

/-! A walk over the words of a descriptor. The encoders decide on the words they put from their own
arguments; a run is walked rightly when the two agree on every command. -/
namespace Flexbuild.Rta
open SelfDelimiting

def pointerWords (ps : Bool) : Nat := if ps then 2 else 1

def immediateWords (length : Word) : Nat := (length.toNat + 3) / 4

def bitWords (opcode flag : Word) : Nat := if opcode &&& flag ≠ 0 then 1 else 0

def Ldst.place : Word := Ldst.classMask ||| Ldst.srcdstMask

def loadsControl (opcode : Word) : Prop := opcode &&& Ldst.place = Ldst.deco ||| Ldst.srcdst 0x06

instance (opcode : Word) : Decidable (loadsControl opcode) := inferInstanceAs (Decidable (_ = _))

def descriptorPlaces : List Word :=
  [Ldst.deco ||| Ldst.srcdst 0x41, Ldst.deco ||| Ldst.srcdst 0x42, Ldst.deco ||| Ldst.srcdst 0x45,
    Ldst.deco ||| Ldst.srcdst 0x46]

def storesDescriptor (opcode : Word) : Prop := opcode &&& Ldst.place ∈ descriptorPlaces

instance (opcode : Word) : Decidable (storesDescriptor opcode) := inferInstanceAs (Decidable (_ ∈ _))

def keyTold (opcode : Word) : Word :=
  if opcode &&& Key.enc ≠ 0 then
    if opcode &&& Key.ekt ≠ 0 then align (opcode &&& Key.lengthMask) 8 + 12 else align (opcode &&& Key.lengthMask) 16
  else opcode &&& Key.lengthMask

def jumpTypeMask : Word := 0x0f#32 <<< 20
def jumpNonlocal : Word := 0x04#32 <<< 20
def rngFifo : Word := Fifo.type 0x35

def mathWords (opcode : Word) : Nat :=
  let first := opcode &&& Math.src0Mask = Math.src0Imm
  let second := opcode &&& Math.src1Mask = Math.src1Imm
  if first ∧ second then 2
  else if first ∨ second then if opcode &&& Math.len8byte ≠ 0 ∧ opcode &&& Math.ifb = 0 then 2 else 1
  else 0

def followWords (ps : Bool) (opcode : Word) : Nat :=
  let command := opcode &&& cmdMask
  if command = cmdKey then
    if opcode &&& Key.imm ≠ 0 then immediateWords (keyTold opcode) else pointerWords ps
  else if command = cmdLoad ∨ command = cmdSeqLoad then
    if loadsControl opcode then 0
    else if opcode &&& Ldst.imm ≠ 0 then immediateWords (opcode &&& Ldst.lenMask)
    else if command = cmdLoad then pointerWords ps
    else 0
  else if command = cmdFifoLoad then
    (if opcode &&& Fifo.imm ≠ 0 then immediateWords (opcode &&& Fifo.lenMask) else pointerWords ps) +
      bitWords opcode Fifo.ext
  else if command = cmdSeqFifoLoad ∨ command = cmdSeqFifoStore then bitWords opcode Fifo.ext
  else if command = cmdStore then
    (if storesDescriptor opcode then 0 else pointerWords ps) +
      if opcode &&& Ldst.imm ≠ 0 then immediateWords (opcode &&& Ldst.lenMask) else 0
  else if command = cmdSeqStore then
    if opcode &&& Ldst.imm ≠ 0 then immediateWords (opcode &&& Ldst.lenMask) else 0
  else if command = cmdFifoStore then
    (if opcode &&& Fifo.typeMask = rngFifo then 0 else pointerWords ps) + bitWords opcode Fifo.ext
  else if command = cmdJump then if opcode &&& jumpTypeMask = jumpNonlocal then pointerWords ps else 0
  else if command = cmdMath then mathWords opcode
  else if command = cmdDescHdr then
    (if opcode &&& Hdr.shared ≠ 0 then pointerWords ps else 0) + bitWords opcode Hdr.ext
  else if command = cmdSeqInPtr then
    (if opcode &&& (Sqin.pre ||| Sqin.rto ||| Sqin.sop) = 0 then pointerWords ps else 0) + bitWords opcode Sqin.ext
  else if command = cmdSeqOutPtr then
    (if opcode &&& (Sqout.pre ||| Sqout.rto) = 0 then pointerWords ps else 0) + bitWords opcode Sqout.ext
  else 0

inductive Command where
  | shrHeader (share : ShareType) (startIdx flags : Word)
  | jobHeader (share : ShareType) (startIdx : Word) (shrDesc : BitVec 64) (flags extFlags : Word)
  | load (src dst : BitVec 64) (offset length flags : Word)
  | store (src : BitVec 64) (offset : BitVec 16) (dst : BitVec 64) (length flags : Word)
  | key (keyDst encryptFlags : Word) (src : BitVec 64) (length flags : Word)
  | fifoLoad (src : Word) (loc : BitVec 64) (length flags : Word)
  | fifoStore (src encryptFlags : Word) (dst : BitVec 64) (length flags : Word)
  | math (operand1 : BitVec 64) (op : Word) (operand2 : BitVec 64) (result : Word) (length : Int) (options : Word)
  | jump (address : BitVec 64) (jumpType : JumpType) (testType : JumpCond) (testCondition srcDst : Word)
  | seqInPtr (src : BitVec 64) (length flags : Word)
  | seqOutPtr (dst : BitVec 64) (length flags : Word)

namespace Command

def exec (machine : Machine) (era : Era) (command : Command) (p : Program) : Except Unit Word × Program :=
  match command with
  | shrHeader share startIdx flags => rtaShrHeader era share startIdx flags p
  | jobHeader share startIdx shrDesc flags extFlags =>
    rtaJobHeader machine.bigEndian era share startIdx shrDesc flags extFlags p
  | load src dst offset length flags => rtaLoad machine era src dst offset length flags p
  | store src offset dst length flags => rtaStore machine era src offset dst length flags p
  | key keyDst encryptFlags src length flags => rtaKey machine era keyDst encryptFlags src length flags p
  | fifoLoad src loc length flags => rtaFifoLoad machine era src loc length flags p
  | fifoStore src encryptFlags dst length flags => rtaFifoStore machine era src encryptFlags dst length flags p
  | math operand1 op operand2 result length options =>
    rtaMath machine.bigEndian era operand1 op operand2 result length options p
  | jump address jumpType testType testCondition srcDst =>
    rtaJump machine.bigEndian era address jumpType testType testCondition srcDst p
  | seqInPtr src length flags => rtaSeqInPtr machine.bigEndian era src length flags p
  | seqOutPtr dst length flags => rtaSeqOutPtr machine.bigEndian era dst length flags p

def isHeader : Command → Bool
  | shrHeader .. | jobHeader .. => true
  | _ => false

def opcode (era : Era) : Command → Except Unit Word
  | shrHeader share startIdx flags => shrOpcode era share startIdx flags
  | jobHeader share startIdx _ flags extFlags => (jobOpcode era share startIdx flags extFlags).map Prod.fst
  | load _ dst offset length flags => loadOpcode era dst offset length flags
  | store src offset _ length flags => storeOpcode era src offset length flags
  | key keyDst encryptFlags _ length flags => keyOpcode era keyDst encryptFlags length flags
  | fifoLoad src _ length flags => fifoLoadOpcode era src length flags
  | fifoStore src encryptFlags dst length flags => fifoStoreOpcode era src encryptFlags dst length flags
  | math operand1 op operand2 result length options => mathOpcode era operand1 op operand2 result length options
  | jump address jumpType testType testCondition srcDst => jumpOpcode era address jumpType testType testCondition srcDst
  | seqInPtr src length flags => seqInPtrOpcode era src length flags
  | seqOutPtr dst length flags => seqOutPtrOpcode era dst length flags

end Command

def inlineWords (flags length : Word) : Nat :=
  if flags &&& Flag.copyMask = 0 then pointerWords (4 < length) else ((length + 3) / 4).toNat

def Command.follow (ps : Bool) (opcode : Word) : Command → Nat
  | .shrHeader .. => 0
  | .jobHeader _ _ _ flags _ =>
    (if opcode &&& Hdr.shared ≠ 0 then pointerWords ps else 0) + bitWords flags Flag.ext
  | .load _ dst _ length flags =>
    if named dst Reg.dctrl then 0
    else if flags &&& Flag.immed ≠ 0 then inlineWords flags length
    else if flags &&& Flag.seq = 0 then pointerWords ps
    else 0
  | .store src _ _ length flags =>
    if jobBuffer src then 0
    else (if flags &&& Flag.seq = 0 then pointerWords ps else 0) +
      if flags &&& Flag.immed ≠ 0 then inlineWords flags length else 0
  | .key _ encryptFlags _ length flags =>
    if flags &&& Flag.immed ≠ 0 then inlineWords flags (keyStored encryptFlags length) else pointerWords ps
  | .fifoLoad _ _ length flags =>
    (if flags &&& Flag.immed ≠ 0 then inlineWords flags length
      else if flags &&& Flag.seq = 0 then pointerWords ps else 0) + bitWords opcode Fifo.ext
  | .fifoStore _ _ dst _ flags =>
    (if flags &&& Flag.seq = 0 ∧ dst ≠ 0 then pointerWords ps else 0) + bitWords opcode Fifo.ext
  | .math _ _ _ _ length options =>
    if options &&& Flag.immed ≠ 0 ∧ options &&& Flag.immed2 = 0 ∨ options &&& Flag.immed2 ≠ 0 ∧ options &&& Flag.immed = 0 then
      pointerWords (4 < length ∧ options &&& Math.ifb = 0)
    else if options &&& Flag.immed ≠ 0 ∧ options &&& Flag.immed2 ≠ 0 then 2
    else 0
  | .jump _ jumpType _ _ _ => if jumpType = .farJump then pointerWords ps else 0
  | .seqInPtr .. =>
    (if opcode &&& (Sqin.pre ||| Sqin.rto ||| Sqin.sop) = 0 then pointerWords ps else 0) + bitWords opcode Sqin.ext
  | .seqOutPtr .. =>
    (if opcode &&& (Sqout.pre ||| Sqout.rto) = 0 then pointerWords ps else 0) + bitWords opcode Sqout.ext

end Flexbuild.Rta
