import Mathlib

/-! The descriptor buffer under construction and the calls that put commands in it.
A call that fails puts nothing and leaves its position behind as the error. -/
namespace Flexbuild.Rta

abbrev Word := BitVec 32

def bit (n : Nat) : Word := 1#32 <<< n

def swab32 (v : Word) : Word :=
  v.extractLsb' 0 8 ++ v.extractLsb' 8 8 ++ v.extractLsb' 16 8 ++ v.extractLsb' 24 8

-- `shrhdr` and `jobhdr` are NULL or the start of the buffer. `emitted` counts every word, without the wrap
-- that `currentPc` has; the code does not read it.
structure Program where
  currentPc : Word
  currentInstruction : Word
  firstErrorPc : Word
  startPc : Word
  buffer : Nat → Word
  shrhdr : Bool
  jobhdr : Bool
  ps : Bool
  bswap : Bool
  emitted : Nat

def rtaProgramCntxtInit (buffer : Nat → Word) (offset : Word) : Program :=
  { currentPc := 0, currentInstruction := 0, firstErrorPc := 0, startPc := offset, buffer, shrhdr := false,
    jobhdr := false, ps := false, bswap := false, emitted := 0 }

namespace Program

def put (p : Program) (word : Word) : Program :=
  { p with
    buffer := Function.update p.buffer p.currentPc.toNat word
    currentPc := p.currentPc + 1
    emitted := p.emitted + 1 }

def out32 (p : Program) (val : Word) : Program := p.put (if p.bswap then swab32 val else val)

def out64 (bigEndian : Bool) (p : Program) (isExt : Bool) (val : BitVec 64) : Program :=
  let upper := val.extractLsb' 32 32
  let lower := val.extractLsb' 0 32
  if isExt then
    if p.bswap = bigEndian then (p.out32 lower).out32 upper else (p.out32 upper).out32 lower
  else p.out32 lower

def reserve (p : Program) (words : Nat) : Program :=
  { p with currentPc := p.currentPc + BitVec.ofNat 32 words, emitted := p.emitted + words }

def nextInstruction (p : Program) : Program := { p with currentInstruction := p.currentInstruction + 1 }

def err (p : Program) : Except Unit Word × Program :=
  (.error (), { p with firstErrorPc := p.currentPc, currentInstruction := p.currentInstruction + 1 })

end Program

abbrev Era := Fin 8

scoped instance someEra : NeZero 8 := ⟨by decide⟩

def era4 : Era := 3
def era5 : Era := 4
def era7 : Era := 6

namespace Flag

def ext : Word := bit 6
def rif : Word := bit 16
def dnr : Word := bit 17
def cif : Word := bit 18
def pd : Word := bit 19
def rsms : Word := bit 20
def td : Word := bit 21
def mtd : Word := bit 22
def reo : Word := bit 23
def shr : Word := bit 24
def sc : Word := bit 25
def dsv : Word := bit 7
def dselMask : Word := 7
def ftd : Word := bit 8

end Flag

def cmdMask : Word := 0x1f#32 <<< 27
def cmdJump : Word := 0x14#32 <<< 27
def cmdDescHdr : Word := 0x16#32 <<< 27
def cmdSharedDescHdr : Word := 0x17#32 <<< 27

namespace Hdr

def ext : Word := bit 24
def rif : Word := bit 25
def rsls : Word := bit 25
def dnr : Word := bit 24
def one : Word := bit 23
def startIdxMask : Word := 0x3f#32 <<< 16
def descLenShrMask : Word := 0x3f
def descLenMask : Word := 0x7f
def trusted : Word := bit 14
def makeTrusted : Word := bit 13
def clearIfifo : Word := bit 13
def saveCtx : Word := bit 12
def shared : Word := bit 12
def reverse : Word := bit 11
def propDnr : Word := bit 11
def extDselValid : Word := bit 7
def extFtd : Word := bit 8

end Hdr

open Rta.Flag in
def jobHeaderFlags (era : Era) : Word :=
  match era with
  | 0 => dnr ||| td ||| mtd ||| shr ||| reo
  | 1 | 2 | 3 => dnr ||| td ||| mtd ||| shr ||| reo ||| rsms
  | 4 | 5 | 6 => dnr ||| td ||| mtd ||| shr ||| reo ||| rsms ||| ext
  | 7 => dnr ||| td ||| mtd ||| shr ||| reo ||| ext

open Rta.Flag in
def shrHeaderFlags (era : Era) : Word :=
  match era with
  | 0 => dnr ||| sc ||| pd
  | 1 | 2 => dnr ||| sc ||| pd ||| cif
  | _ => dnr ||| sc ||| pd ||| cif ||| rif

-- The kinds of sharing; `unknown` is any other value of the argument.
inductive ShareType where
  | never | wait | serial | always | defer | unknown
  deriving DecidableEq, Repr

def shareField : ShareType → Word
  | .never | .unknown => 0
  | .wait => 1#32 <<< 8
  | .serial => 2#32 <<< 8
  | .always => 3#32 <<< 8
  | .defer => 4#32 <<< 8

def startIdxField (startIdx : Word) : Word := startIdx <<< 16 &&& Hdr.startIdxMask

def orIf (flags flag field opcode : Word) : Word := if flags &&& flag ≠ 0 then opcode ||| field else opcode

open Rta.Flag in
def shrOpcode (era : Era) (share : ShareType) (startIdx flags : Word) : Except Unit Word :=
  if flags &&& ~~~shrHeaderFlags era ≠ 0 then .error ()
  else if share = .unknown ∨ share = .defer then .error ()
  else
    .ok (orIf flags rif Hdr.rif (orIf flags pd Hdr.propDnr (orIf flags sc Hdr.saveCtx (orIf flags cif Hdr.clearIfifo
      (orIf flags dnr Hdr.dnr (cmdSharedDescHdr ||| shareField share ||| Hdr.one ||| startIdxField startIdx))))))

open Rta.Flag in
def jobOpcode (era : Era) (share : ShareType) (startIdx flags extFlags : Word) : Except Unit (Word × Word) :=
  if flags &&& ~~~jobHeaderFlags era ≠ 0 then .error ()
  else if share = .unknown then .error ()
  else if flags &&& td ≠ 0 ∧ flags &&& reo ≠ 0 then .error ()
  else if era < era7 ∧ flags &&& mtd ≠ 0 ∧ flags &&& td = 0 then .error ()
  else if flags &&& ext ≠ 0 ∧ flags &&& shr = 0 ∧ startIdx < 2 then .error ()
  else if flags &&& ext ≠ 0 ∧ extFlags &&& ftd ≠ 0 ∧ era ≤ era5 then .error ()
  else
    .ok (orIf flags shr Hdr.shared (orIf flags reo Hdr.reverse (orIf flags mtd Hdr.makeTrusted (orIf flags td Hdr.trusted
        (orIf flags dnr Hdr.dnr (orIf flags rsms Hdr.rsls (orIf flags ext Hdr.ext
          (cmdDescHdr ||| shareField share ||| Hdr.one ||| startIdxField startIdx))))))),
      orIf extFlags ftd Hdr.extFtd (orIf extFlags dsv (Hdr.extDselValid ||| extFlags &&& dselMask) 0))

def rtaShrHeader (era : Era) (share : ShareType) (startIdx flags : Word) (p : Program) : Except Unit Word × Program :=
  match shrOpcode era share startIdx flags with
  | .error _ => p.err
  | .ok opcode =>
    let q := (p.out32 opcode).nextInstruction
    (.ok p.currentPc, if q.currentInstruction = 1 then { q with shrhdr := true } else q)

def rtaJobHeader (bigEndian : Bool) (era : Era) (share : ShareType) (startIdx : Word) (shrDesc : BitVec 64)
    (flags extFlags : Word) (p : Program) : Except Unit Word × Program :=
  match jobOpcode era share startIdx flags extFlags with
  | .error _ => p.err
  | .ok (opcode, hdrExt) =>
    let q := (p.out32 opcode).nextInstruction
    let q := if q.currentInstruction = 1 then
        let q := { q with jobhdr := true }
        if opcode &&& Hdr.shared ≠ 0 then q.out64 bigEndian q.ps shrDesc else q
      else q
    (.ok p.currentPc, if flags &&& Flag.ext ≠ 0 then q.out32 hdrExt else q)

inductive JumpType where
  | localJump | farJump | halt | haltStatus | gosub | returns | localJumpInc | localJumpDec | unknown
  deriving DecidableEq, Repr

inductive JumpCond where
  | allTrue | allFalse | anyTrue | anyFalse | unknown
  deriving DecidableEq, Repr

def jumpJsl : Word := bit 24

def jumpTestMathCond : List (Word × Word) :=
  [(bit 25, bit 10), (bit 26, bit 11), (bit 27, bit 8), (bit 28, bit 9)]

def jumpTestCond : List (Word × Word) :=
  [(bit 20, bit 10 ||| jumpJsl), (bit 21, bit 11 ||| jumpJsl), (bit 22, bit 9 ||| jumpJsl), (bit 23, bit 8 ||| jumpJsl),
    (bit 24, bit 12 ||| jumpJsl), (bit 0, bit 13 ||| jumpJsl), (bit 1, bit 14 ||| jumpJsl), (bit 2, bit 15 ||| jumpJsl)] ++
  jumpTestMathCond ++
  [(bit 29, bit 15), (bit 30, bit 14), (bit 31, bit 13),
    (bit 11, 1#32 <<< 25), (bit 12, 2#32 <<< 25), (bit 13, 3#32 <<< 25)]

def jumpSrcDst : List (Word × Word) :=
  [(28, 0x00#32 <<< 12), (29, 0x01#32 <<< 12), (30, 0x02#32 <<< 12), (31, 0x03#32 <<< 12), (35, 0x07#32 <<< 12),
    (41, 0x08#32 <<< 12), (42, 0x09#32 <<< 12), (43, 0x0a#32 <<< 12), (44, 0x0b#32 <<< 12)]

def rtaMapOpcode (name : Word) (table : List (Word × Word)) : Except Unit Word :=
  match table.find? fun entry => entry.1 = name with
  | some entry => .ok entry.2
  | none => .error ()

def rtaMapFlags (flags : Word) (table : List (Word × Word)) (opcode : Word) : Word :=
  table.foldl (fun opcode entry => orIf entry.1 flags entry.2 opcode) opcode

def jumpTypeField : JumpType → Except Unit Word
  | .localJump => .ok 0
  | .halt => .ok (0x08#32 <<< 20)
  | .haltStatus => .ok (0x0c#32 <<< 20)
  | .farJump => .ok (0x04#32 <<< 20)
  | .gosub => .ok (0x02#32 <<< 20)
  | .returns => .ok (0x06#32 <<< 20)
  | .localJumpInc => .ok (0x01#32 <<< 20)
  | .localJumpDec => .ok (0x03#32 <<< 20)
  | .unknown => .error ()

def jumpCondField : JumpCond → Except Unit Word
  | .allTrue => .ok 0
  | .allFalse => .ok (1#32 <<< 16)
  | .anyTrue => .ok (2#32 <<< 16)
  | .anyFalse => .ok (3#32 <<< 16)
  | .unknown => .error ()

def jumpOpcode (era : Era) (address : BitVec 64) (jumpType : JumpType) (testType : JumpCond) (testCondition srcDst : Word) :
    Except Unit Word :=
  if (jumpType = .gosub ∨ jumpType = .returns) ∧ era < era4 then .error ()
  else if (jumpType = .localJumpInc ∨ jumpType = .localJumpDec) ∧ era ≤ era5 then .error ()
  else do
    let kind ← jumpTypeField jumpType
    let test ← jumpCondField testType
    let opcode := cmdJump ||| kind ||| test
    let opcode ←
      if jumpType ≠ .localJumpInc ∧ jumpType ≠ .localJumpDec then .ok (rtaMapFlags testCondition jumpTestCond opcode)
      else do
        let val ← rtaMapOpcode srcDst jumpSrcDst
        .ok (rtaMapFlags testCondition jumpTestMathCond (opcode ||| val))
    if jumpType = .localJump ∨ jumpType = .localJumpInc ∨ jumpType = .localJumpDec ∨ jumpType = .gosub ∨
        jumpType = .haltStatus then .ok (opcode ||| address.extractLsb' 0 32 &&& 0xff)
    else .ok opcode

def rtaJump (bigEndian : Bool) (era : Era) (address : BitVec 64) (jumpType : JumpType) (testType : JumpCond)
    (testCondition srcDst : Word) (p : Program) : Except Unit Word × Program :=
  match jumpOpcode era address jumpType testType testCondition srcDst with
  | .error _ => p.err
  | .ok opcode =>
    let q := (p.out32 opcode).nextInstruction
    (.ok p.currentPc, if jumpType = .farJump then q.out64 bigEndian q.ps address else q)

-- How any other command ends: with its opcode, the words that follow and perhaps room behind them; refused before it has
-- put a word; or refused behind the words (the derived key protocol, with too little room). A refused algorithm operation
-- is not counted.
inductive Outcome where
  | puts (opcode : Word) (follow : List Word) (room : Nat)
  | refused (counted : Bool)
  | refusedLate (opcode : Word) (follow : List Word)

def command (outcome : Outcome) (p : Program) : Except Unit Word × Program :=
  match outcome with
  | .puts opcode follow room => (.ok p.currentPc, (follow.foldl Program.put (p.put opcode).nextInstruction).reserve room)
  | .refused counted => if counted then p.err else (.error (), { p with firstErrorPc := p.currentPc })
  | .refusedLate opcode follow =>
    (.error (), { follow.foldl Program.put (p.put opcode).nextInstruction with firstErrorPc := p.currentPc })

-- The calls of a program. The words of `data` are those of `rta_word`, `rta_dword` and `rta_copy_data`.
inductive Call where
  | shrHeader (share : ShareType) (startIdx flags : Word)
  | jobHeader (share : ShareType) (startIdx : Word) (shrDesc : BitVec 64) (flags extFlags : Word)
  | jump (address : BitVec 64) (jumpType : JumpType) (testType : JumpCond) (testCondition srcDst : Word)
  | command (outcome : Outcome)
  | data (words : List Word)
  | set36bitAddr
  | setBswap

def Call.exec (bigEndian : Bool) (era : Era) (call : Call) (p : Program) : Except Unit Word × Program :=
  match call with
  | .shrHeader share startIdx flags => rtaShrHeader era share startIdx flags p
  | .jobHeader share startIdx shrDesc flags extFlags => rtaJobHeader bigEndian era share startIdx shrDesc flags extFlags p
  | .jump address jumpType testType testCondition srcDst =>
    rtaJump bigEndian era address jumpType testType testCondition srcDst p
  | .command outcome => Rta.command outcome p
  | .data words => (.ok p.currentPc, words.foldl Program.put p)
  | .set36bitAddr => (.ok p.currentPc, { p with ps := true })
  | .setBswap => (.ok p.currentPc, { p with bswap := true })

def einval : Int := 22

def rtaProgramFinalize (p : Program) : Int × Program :=
  if p.firstErrorPc ≠ 0 then (-einval, p)
  else
    let length := if p.bswap then swab32 p.currentPc else p.currentPc
    (p.currentPc.toInt,
      if p.shrhdr ∨ p.jobhdr then { p with buffer := Function.update p.buffer 0 (p.buffer 0 ||| length) } else p)

def rtaDescLen (header : Word) : Word :=
  if header &&& cmdMask = cmdDescHdr then header &&& Hdr.descLenMask else header &&& Hdr.descLenShrMask

end Flexbuild.Rta
