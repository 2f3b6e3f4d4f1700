import Flexbuild.GuardedSteps
import Mathlib.Data.List.FinRange

/-! Fuse provisioning: the parts of the fuse header that are selected by its flags are checked
to be unblown, written to mirror registers and checked again, and one command burns what the
mirror registers hold. A register may refuse what is written to it. -/
namespace Flexbuild.Fuse
open GuardedSteps

abbrev Word := BitVec 32

inductive SfpVersion where
  | v32 | v34
  deriving DecidableEq, Repr

inductive ErrorCode where
  | fuseBarker | readfbCmd | progfbCmd | srkhAlreadyBlown | srkhWrite | oemuidAlreadyBlown | oemuidWrite
  | dcvAlreadyBlown | dcvWrite | drvAlreadyBlown | drvHammingError | otpmkAlreadyBlown | otpmkHammingError
  | otpmkUserMin | ospr1AlreadyBlown | ospr1Write | scAlreadyBlown | scWrite
  deriving DecidableEq, Repr

inductive Reg where
  | ospr | ospr1
  | dcv (i : Fin 2)
  | drv (i : Fin 2)
  | fswpr
  | fslUid (i : Fin 2)
  | isbcr
  | fsspr (i : Fin 3)
  | otpmk (i : Fin 8)
  | srkHash (i : Fin 8)
  | oemUid (i : Fin 5)
  deriving DecidableEq, Repr

structure FuseHdr where
  barker : List (BitVec 8)
  flags : Word
  srkh : Fin 8 → Word
  oemUid : Fin 5 → Word
  dcv : Fin 2 → Word
  drv : Fin 2 → Word
  ospr1 : Word
  sc : Word

structure Hardware where
  takes : Reg → Word → Word → Word
  svhesr : (Reg → Word) → Word
  ingr : Nat → Word
  random : BitVec 256

-- `otpmk` is the field of the header in memory; `issued` holds the mirror registers at each PROGFB.
structure Sfp where
  regs : Reg → Word
  otpmk : Fin 8 → Word
  issued : List (Reg → Word)

def barker : List (BitVec 8) := [0x68, 0x39, 0x27, 0x81]

def flagPovddShift : Nat := 0
def flagSyscfgShift : Nat := 1
def flagSrkhShift : Nat := 2
def flagMcShift : Nat := 3
def flagDcv0Shift : Nat := 4
def flagDrv0Shift : Nat := 6
def flagOuid0Shift : Nat := 8
def flagDbgLvlShift : Nat := 13
def flagOtpmkShift : Nat := 16

def progOtpmkMin : Word := 0
def progOtpmkRandom : Word := 1
def progOtpmkUser : Word := 2
def progOtpmkRandomMin : Word := 5
def progOtpmkUserMin : Word := 6
def progNoOtpmk : Word := 8

def otpmkMimBitsMask : Word := 0xF0000000
def sfpSvhesrDrvMask : Word := 0x7F
def sfpSvhesrOtpmkMask : Word := 0x7FC00
def ospr1McMask : Word := 0xFFFF0000
def ospr1DbgLvlMask : Word := 0x00000007

def ospr0ScMask : SfpVersion → Word
  | .v34 => 0xC000FE35
  | .v32 => 0x0000E035

def FuseHdr.field (hdr : FuseHdr) (shift : Nat) (mask : Word) : Word := hdr.flags >>> shift &&& mask

def FuseHdr.flag (hdr : FuseHdr) (shift : Nat) (mask : Word) : Bool := hdr.field shift mask ≠ 0

abbrev Program := Step ErrorCode Sfp

section Programs

variable (hw : Hardware)

def Sfp.out32 (s : Sfp) (reg : Reg) (value : Word) : Sfp :=
  {s with regs := Function.update s.regs reg (hw.takes reg (s.regs reg) value)}

def blownCheck (words : List (Reg × Word)) (e : ErrorCode) : Program := check (fun s => words.any fun p => s.regs p.1 ≠ 0) e

def writeWords (words : List (Reg × Word)) : Program := act fun s => words.foldl (fun s p => s.out32 hw p.1 p.2) s

def readBack (words : List (Reg × Word)) (e : ErrorCode) : Program := check (fun s => words.any fun p => s.regs p.1 ≠ p.2) e

def hammingCheck (mask : Word) (e : ErrorCode) : Program := check (fun s => hw.svhesr s.regs &&& mask ≠ 0) e

def progGpioPovdd : Program := act id

def srkhWords (hdr : FuseHdr) : List (Reg × Word) := (List.finRange 8).map fun i => (.srkHash i, hdr.srkh i)

def progSrkh (hdr : FuseHdr) : Program :=
  inOrder [blownCheck (srkhWords hdr) .srkhAlreadyBlown, writeWords hw (srkhWords hdr), readBack (srkhWords hdr) .srkhWrite]

def progOemuid (hdr : FuseHdr) : Program :=
  inOrder ((List.finRange 5).map fun i =>
    given (hdr.flag (flagOuid0Shift + i.val) 1)
      (inOrder [blownCheck [(.oemUid i, hdr.oemUid i)] .oemuidAlreadyBlown, writeWords hw [(.oemUid i, hdr.oemUid i)],
        readBack [(.oemUid i, hdr.oemUid i)] .oemuidWrite]))

def dcvWords (hdr : FuseHdr) : List (Reg × Word) := (List.finRange 2).map fun i => (.dcv i, hdr.dcv i)

def drvWords (hdr : FuseHdr) : List (Reg × Word) := (List.finRange 2).map fun i => (.drv i, hdr.drv i)

def progDebug (hdr : FuseHdr) : Program :=
  inOrder [
    given (hdr.flag flagDcv0Shift 3)
      (inOrder [blownCheck (dcvWords hdr) .dcvAlreadyBlown, writeWords hw (dcvWords hdr), readBack (dcvWords hdr) .dcvWrite]),
    given (hdr.flag flagDrv0Shift 3)
      (inOrder [blownCheck (drvWords hdr) .drvAlreadyBlown, writeWords hw (drvWords hdr),
        hammingCheck hw sfpSvhesrDrvMask .drvHammingError])]

def codeBits (otpmk : BitVec 256) : Bool × BitVec 8 :=
  (List.range 256).foldl (fun (parityBit, codeBit) i =>
    if otpmk.getLsbD i then (!parityBit, codeBit ^^^ BitVec.ofNat 8 i) else (parityBit, codeBit)) (false, 0)

def flipBit (otpmk : BitVec 256) (i : Nat) : BitVec 256 := otpmk ^^^ (1#256 <<< i)

def otpmkMakeCodeWord256 (otpmk : BitVec 256) (minimalFlag : Bool) : BitVec 256 :=
  let otpmk := if minimalFlag then otpmk ||| (15#256 <<< 252) else otpmk
  let (parityBit, codeBit) := codeBits otpmk
  let (otpmk, parityBit) :=
    if codeBit.toNat < 252 then (flipBit otpmk codeBit.toNat, !parityBit)
    else (flipBit (flipBit otpmk (codeBit.toNat - 4)) 4, parityBit)
  if parityBit then flipBit otpmk 0 else otpmk

-- A code word, the order of its words reversed.
def swapOtpmk (otpmkRandom : BitVec 256) (i : Fin 8) : Word := otpmkRandom.extractLsb' (32 * (7 - i.val)) 32

def minimalOtpmk (i : Fin 8) : Word := if i = 0 then otpmkMimBitsMask else 0

def otpmkWords (otpmk : Fin 8 → Word) : List (Reg × Word) := (List.finRange 8).map fun i => (.otpmk i, otpmk i)

def otpmkBlown : Program := blownCheck (otpmkWords fun _ => 0) .otpmkAlreadyBlown

def setOtpmk (otpmk : Fin 8 → Word) : Program := act fun s => {s with otpmk := otpmk}

def burnOtpmk : Program :=
  inOrder [fun s => writeWords hw (otpmkWords s.otpmk) s, hammingCheck hw sfpSvhesrOtpmkMask .otpmkHammingError]

def progOtpmk (hdr : FuseHdr) : Program :=
  let otpmkFlags := hdr.field flagOtpmkShift 0xF
  if otpmkFlags = progOtpmkMin then inOrder [otpmkBlown, setOtpmk minimalOtpmk, burnOtpmk hw]
  else if otpmkFlags = progOtpmkRandom then
    inOrder [otpmkBlown, setOtpmk (swapOtpmk (otpmkMakeCodeWord256 hw.random false)), burnOtpmk hw]
  else if otpmkFlags = progOtpmkUser then inOrder [otpmkBlown, burnOtpmk hw]
  else if otpmkFlags = progOtpmkRandomMin then
    inOrder [setOtpmk (swapOtpmk (otpmkMakeCodeWord256 hw.random true)), burnOtpmk hw]
  else if otpmkFlags = progOtpmkUserMin then
    inOrder [check (fun s => s.otpmk 0 &&& otpmkMimBitsMask ≠ otpmkMimBitsMask) .otpmkUserMin, burnOtpmk hw]
  else act id

def mergeOspr1 (hdr : FuseHdr) (selected : Bool) (mask ospr1 : Word) : Option Word :=
  if selected then if ospr1 &&& mask ≠ 0 then none else some (ospr1 ||| (hdr.ospr1 &&& mask)) else some ospr1

def mergedOspr1 (ver : SfpVersion) (hdr : FuseHdr) (ospr1 : Word) : Option Word :=
  (mergeOspr1 hdr (ver = .v34 && hdr.flag flagMcShift 1) ospr1McMask ospr1).bind
    (mergeOspr1 hdr (hdr.flag flagDbgLvlShift 1) ospr1DbgLvlMask)

def progOspr1 (ver : SfpVersion) (hdr : FuseHdr) : Program := fun s =>
  match mergedOspr1 ver hdr (s.regs .ospr1) with
  | none => (some .ospr1AlreadyBlown, s)
  | some ospr1 => inOrder [writeWords hw [(.ospr1, ospr1)], readBack [(.ospr1, ospr1)] .ospr1Write] s

def progSyscfg (ver : SfpVersion) (hdr : FuseHdr) : Program :=
  inOrder [check (fun s => s.regs .ospr &&& ospr0ScMask ver ≠ 0) .scAlreadyBlown,
    writeWords hw [(.ospr, hdr.sc &&& ospr0ScMask ver)],
    check (fun s => s.regs .ospr &&& ospr0ScMask ver ≠ hdr.sc &&& ospr0ScMask ver) .scWrite]

def progAll (ver : SfpVersion) (hdr : FuseHdr) : Program :=
  inOrder [
    given (hdr.flag flagSrkhShift 1) (progSrkh hw hdr),
    given (hdr.flag flagOuid0Shift 0x1F) (progOemuid hw hdr),
    given (hdr.flag flagDcv0Shift 0xF) (progDebug hw hdr),
    given (hdr.field flagOtpmkShift progNoOtpmk ≠ progNoOtpmk) (progOtpmk hw hdr),
    given (hdr.flag flagMcShift 1 || hdr.flag flagDbgLvlShift 1) (progOspr1 hw ver hdr),
    given (hdr.flag flagSyscfgShift 1) (progSyscfg hw ver hdr)]

end Programs

def sfpIngrProgfbCmd : Word := 2
def sfpIngrErrorMask : Word := 0x100

def waitProgfb (hw : Hardware) : Nat → Nat → Option Nat
  | 0, _ => none
  | fuel + 1, n => if hw.ingr n &&& sfpIngrProgfbCmd ≠ 0 then waitProgfb hw fuel (n + 1) else some n

structure Outcome where
  sfp : Sfp
  scratch4 : Option ErrorCode
  ended : Bool

def provisionFuses (hw : Hardware) (ver : SfpVersion) (hdr : FuseHdr) (fuel : Nat) (s : Sfp) : Outcome :=
  if hdr.barker ≠ barker then ⟨s, some .fuseBarker, true⟩
  else
    match given (hdr.flag flagPovddShift 1) progGpioPovdd s with
    | (some e, s) => ⟨s, some e, true⟩
    | (none, s) =>
      if s.regs .ospr &&& 1 ≠ 0 then ⟨s, none, true⟩
      else
        match progAll hw ver hdr s with
        | (some e, s) => ⟨s, some e, true⟩
        | (none, s) =>
          let s := {s with issued := s.issued ++ [s.regs]}
          match waitProgfb hw fuel 0 with
          | none => ⟨s, none, false⟩
          | some n => if hw.ingr (n + 1) &&& sfpIngrErrorMask ≠ 0 then ⟨s, some .progfbCmd, true⟩ else ⟨s, none, true⟩

end Flexbuild.Fuse
