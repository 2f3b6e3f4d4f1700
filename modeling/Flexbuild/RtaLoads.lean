import Flexbuild.RtaProgram

/-! The commands that move data between memory and the registers, with the data that may stand in
the descriptor itself. Immediate data is copied in from a pointer, or it is the operand. -/
namespace Flexbuild.Rta

-- `dma` tells the builds in which external memory is read with the command DMA.
structure Machine where
  bigEndian : Bool
  dma : Bool
  memory : BitVec 64 → BitVec 8
  external : BitVec 64 → BitVec 8

namespace Flag

def flush1 : Word := bit 0
def last1 : Word := bit 1
def last2 : Word := bit 2
def immed : Word := bit 3
def sgf : Word := bit 4
def vlf : Word := bit 5
def cont : Word := bit 7
def seq : Word := bit 8
def aidf : Word := bit 9
def class1 : Word := bit 11
def class2 : Word := bit 12
def both : Word := bit 13
def dcopy : Word := bit 30
def copy : Word := bit 31
def copyMask : Word := copy ||| dcopy

end Flag

namespace Reg

def context1 : Word := 1
def context2 : Word := 2
def key1 : Word := 3
def key2 : Word := 4
def key1sz : Word := 5
def key2sz : Word := 6
def icv1sz : Word := 7
def icv2sz : Word := 8
def data1sz : Word := 9
def data2sz : Word := 10
def altds1 : Word := 11
def iv1sz : Word := 12
def aad1sz : Word := 13
def mode1 : Word := 14
def mode2 : Word := 15
def cctrl : Word := 16
def dctrl : Word := 17
def ictrl : Word := 18
def clrw : Word := 19
def cstat : Word := 20
def ififo : Word := 21
def nfifo : Word := 22
def ofifo : Word := 23
def pkasz : Word := 24
def pkbsz : Word := 25
def pknsz : Word := 26
def pkesz : Word := 27
def math0 : Word := 28
def math1 : Word := 29
def math2 : Word := 30
def math3 : Word := 31
def descbuf : Word := 32
def jobdescbuf : Word := 33
def sharedescbuf : Word := 34
def dpovrd : Word := 35
def djqda : Word := 36
def dstat : Word := 37
def dpid : Word := 38
def djqctrl : Word := 39
def altsource : Word := 40
def seqinsz : Word := 41
def seqoutsz : Word := 42
def vseqinsz : Word := 43
def vseqoutsz : Word := 44
def pka : Word := 45
def pkn : Word := 46
def pka0 : Word := 47
def pka1 : Word := 48
def pka2 : Word := 49
def pka3 : Word := 50
def pkb : Word := 51
def pkb0 : Word := 52
def pkb1 : Word := 53
def pkb2 : Word := 54
def pkb3 : Word := 55
def pke : Word := 56
def abd : Word := 59
def afhaSbox : Word := 63
def mdhaSplitKey : Word := 64
def jobsrc : Word := 65
def zero : Word := 66
def one : Word := 67
def aad1 : Word := 68
def iv1 : Word := 69
def iv2 : Word := 70
def msg1 : Word := 71
def msg2 : Word := 72
def msg : Word := 73
def msgCksum : Word := 74
def msgoutsnoop : Word := 75
def msginsnoop : Word := 76
def icv1 : Word := 77
def icv2 : Word := 78
def skip : Word := 79
def none : Word := 80
def rngofifo : Word := 81
def rng : Word := 82
def idfns : Word := 83
def odfns : Word := 84
def bitData : Word := 90
def nfifoSzl : Word := 91
def nfifoSzm : Word := 92
def nfifoL : Word := 93
def nfifoM : Word := 94
def szl : Word := 95
def szm : Word := 96
def jobdescbufEff : Word := 97
def sharedescbufEff : Word := 98
def metadata : Word := 99
def gtr : Word := 100
def str : Word := 101

end Reg

def cmdLoad : Word := 0x02#32 <<< 27
def cmdSeqLoad : Word := 0x03#32 <<< 27
def cmdStore : Word := 0x0a#32 <<< 27
def cmdSeqStore : Word := 0x0b#32 <<< 27

namespace Ldst

def class1 : Word := 1#32 <<< 25
def class2 : Word := 2#32 <<< 25
def deco : Word := 3#32 <<< 25
def classMask : Word := 3#32 <<< 25
def sgf : Word := bit 24
def vlf : Word := bit 24
def imm : Word := bit 23
def srcdst (n : Word) : Word := n <<< 16
def srcdstMask : Word := 0x7f#32 <<< 16
def lenMask : Word := 0xff

end Ldst

def byteOf (bigEndian : Bool) (word : Word) (j : Nat) : BitVec 8 :=
  word.extractLsb' (8 * if bigEndian then 3 - j else j) 8

def wordOf (bigEndian : Bool) (bytes : Nat → BitVec 8) : Word :=
  if bigEndian then bytes 0 ++ bytes 1 ++ bytes 2 ++ bytes 3 else bytes 3 ++ bytes 2 ++ bytes 1 ++ bytes 0

namespace Program

def copyIn (bigEndian : Bool) (p : Program) (bytes : Nat → BitVec 8) (length : Nat) : Program :=
  { p with
    buffer := fun i =>
      if p.currentPc.toNat ≤ i then
        wordOf bigEndian fun j =>
          let k := 4 * (i - p.currentPc.toNat) + j
          if k < length then bytes k else byteOf bigEndian (p.buffer i) j
      else p.buffer i }

def inlineData (machine : Machine) (p : Program) (data : BitVec 64) (flags length : Word) : Program :=
  if flags &&& Flag.copyMask = 0 then p.out64 machine.bigEndian (4 < length) data
  else
    let q :=
      if flags &&& Flag.copy ≠ 0 then
        p.copyIn machine.bigEndian (fun i => machine.memory (data + BitVec.ofNat 64 i)) length.toNat
      else if machine.dma then
        p.copyIn machine.bigEndian (fun i => machine.external (data + BitVec.ofNat 64 i)) (length.toNat % 2 ^ 16)
      else p
    q.reserve ((length + 3) / 4).toNat

end Program

inductive ImmSrc where
  | must | can | no | dsnm
  deriving DecidableEq, Repr

inductive LenOff where
  | lenof03 | lenof4 | lenof48 | lenof448 | lenof18 | lenof32 | lenof24 | lenof16 | lenof8 | lenof128 | lenof256 | dsnm
  deriving DecidableEq, Repr

structure LoadMap where
  dst : Word
  dstOpcode : Word
  lenOff : LenOff
  immSrc : ImmSrc

open Ldst in
def loadDst : List LoadMap :=
  [⟨Reg.key1sz, class1 ||| srcdst 0x01, .lenof4, .must⟩, ⟨Reg.key2sz, class2 ||| srcdst 0x01, .lenof4, .must⟩,
    ⟨Reg.data1sz, class1 ||| srcdst 0x02, .lenof448, .must⟩, ⟨Reg.data2sz, class2 ||| srcdst 0x02, .lenof448, .must⟩,
    ⟨Reg.icv1sz, class1 ||| srcdst 0x03, .lenof4, .must⟩, ⟨Reg.icv2sz, class2 ||| srcdst 0x03, .lenof4, .must⟩,
    ⟨Reg.cctrl, srcdst 0x06, .lenof4, .must⟩, ⟨Reg.dctrl, deco ||| imm ||| srcdst 0x06, .dsnm, .dsnm⟩,
    ⟨Reg.ictrl, srcdst 0x07, .lenof4, .must⟩, ⟨Reg.dpovrd, deco ||| srcdst 0x07, .lenof4, .must⟩,
    ⟨Reg.clrw, srcdst 0x08, .lenof4, .must⟩, ⟨Reg.aad1sz, class1 ||| srcdst 0x0b, .lenof4, .must⟩,
    ⟨Reg.iv1sz, class1 ||| srcdst 0x0c, .lenof4, .must⟩, ⟨Reg.altds1, class1 ||| srcdst 0x0f, .lenof448, .must⟩,
    ⟨Reg.pkasz, class1 ||| srcdst 0x10, .lenof4, .must⟩, ⟨Reg.pkbsz, class1 ||| srcdst 0x11, .lenof4, .must⟩,
    ⟨Reg.pknsz, class1 ||| srcdst 0x12, .lenof4, .must⟩, ⟨Reg.pkesz, class1 ||| srcdst 0x13, .lenof4, .must⟩,
    ⟨Reg.nfifo, srcdst 0x7a, .lenof48, .must⟩, ⟨Reg.ififo, srcdst 0x7c, .lenof18, .must⟩,
    ⟨Reg.ofifo, srcdst 0x7e, .lenof18, .must⟩, ⟨Reg.math0, deco ||| srcdst 0x08, .lenof32, .can⟩,
    ⟨Reg.math1, deco ||| srcdst 0x09, .lenof24, .can⟩, ⟨Reg.math2, deco ||| srcdst 0x0a, .lenof16, .can⟩,
    ⟨Reg.math3, deco ||| srcdst 0x0b, .lenof8, .can⟩, ⟨Reg.context1, class1 ||| srcdst 0x20, .lenof128, .can⟩,
    ⟨Reg.context2, class2 ||| srcdst 0x20, .lenof128, .can⟩, ⟨Reg.key1, class1 ||| srcdst 0x40, .lenof32, .can⟩,
    ⟨Reg.key2, class2 ||| srcdst 0x40, .lenof32, .can⟩, ⟨Reg.descbuf, deco ||| srcdst 0x40, .lenof256, .no⟩,
    ⟨Reg.dpid, deco ||| srcdst 0x04, .lenof448, .must⟩, ⟨Reg.idfns, srcdst 0x76, .lenof18, .must⟩,
    ⟨Reg.odfns, srcdst 0x77, .lenof18, .must⟩, ⟨Reg.altsource, srcdst 0x78, .lenof18, .must⟩,
    ⟨Reg.nfifoSzl, srcdst 0x70, .lenof48, .must⟩, ⟨Reg.nfifoSzm, srcdst 0x71, .lenof03, .must⟩,
    ⟨Reg.nfifoL, srcdst 0x72, .lenof48, .must⟩, ⟨Reg.nfifoM, srcdst 0x73, .lenof03, .must⟩,
    ⟨Reg.szl, srcdst 0x74, .lenof48, .must⟩, ⟨Reg.szm, srcdst 0x75, .lenof03, .must⟩]

def loadDstSz (era : Era) : Nat :=
  match era with
  | 0 => 31
  | 1 | 2 => 34
  | _ => 40

def loadLenMaskAllowed (era : Era) : Word := if era = 0 then 0xee else 0xfe

def loadOffMaskAllowed (era : Era) : Word := if era = 0 then 0x0f else 0xff

def within (bound length offset : Word) : Bool := length ≤ bound && offset ≤ bound && offset + length ≤ bound

def lenOffAllowed (lenOff : LenOff) (length offset : Word) : Bool :=
  match lenOff with
  | .lenof03 => length ≤ 3 && offset == 0
  | .lenof4 => length == 4 && offset == 0
  | .lenof48 => length == 4 && offset == 0 || length == 8 && offset == 0
  | .lenof448 => length == 4 && offset == 0 || length == 4 && offset == 4 || length == 8 && offset == 0
  | .lenof18 => 1 ≤ length && length ≤ 8 && offset == 0
  | .lenof32 => within 32 length offset
  | .lenof24 => within 24 length offset
  | .lenof16 => within 16 length offset
  | .lenof8 => within 8 length offset
  | .lenof128 => within 128 length offset
  | .lenof256 => 1 ≤ length && length ≤ 256 && length + offset ≤ 256
  | .dsnm => true

def loadCheckLenOffset (era : Era) (entry : LoadMap) (length offset : Word) : Bool :=
  !(entry.dst == Reg.dctrl &&
    (length &&& ~~~loadLenMaskAllowed era != 0 || offset &&& ~~~loadOffMaskAllowed era != 0)) &&
  lenOffAllowed entry.lenOff length offset

def named (operand : BitVec 64) (reg : Word) : Prop := operand = reg.setWidth 64

instance (operand : BitVec 64) (reg : Word) : Decidable (named operand reg) := inferInstanceAs (Decidable (_ = _))

def loadOpcode (era : Era) (dst : BitVec 64) (offset length flags : Word) : Except Unit Word :=
  if length &&& 0xffffff00 ≠ 0 ∨ offset &&& 0xffffff00 ≠ 0 then .error ()
  else
    match (loadDst.take (loadDstSz era)).find? fun entry => named dst entry.dst with
    | none => .error ()
    | some entry =>
      if flags &&& Flag.immed ≠ 0 ∧ entry.immSrc = .no then .error ()
      else if flags &&& Flag.immed = 0 ∧ entry.immSrc = .must then .error ()
      else if loadCheckLenOffset era entry length offset then
        let opcode := orIf flags Flag.immed Ldst.imm (orIf flags Flag.vlf Ldst.vlf (orIf flags Flag.sgf Ldst.sgf
          (if flags &&& Flag.seq ≠ 0 then cmdSeqLoad else cmdLoad))) ||| entry.dstOpcode
        .ok (if named dst Reg.descbuf then opcode ||| length >>> 2 ||| offset >>> 2 <<< 8
          else opcode ||| length ||| offset <<< 8)
      else .error ()

def rtaLoad (machine : Machine) (era : Era) (src dst : BitVec 64) (offset length flags : Word) (p : Program) :
    Except Unit Word × Program :=
  match loadOpcode era dst offset length flags with
  | .error _ => p.err
  | .ok opcode =>
    let q := (p.out32 opcode).nextInstruction
    (.ok p.currentPc,
      if named dst Reg.dctrl then q
      else if flags &&& Flag.immed ≠ 0 then q.inlineData machine src flags length
      else if flags &&& Flag.seq = 0 then q.out64 machine.bigEndian q.ps src
      else q)

open Ldst in
def storeSrcTable : List (Word × Word) :=
  [(Reg.key1sz, class1 ||| srcdst 0x01), (Reg.key2sz, class2 ||| srcdst 0x01), (Reg.djqda, deco ||| srcdst 0x01),
    (Reg.mode1, class1 ||| srcdst 0x00), (Reg.mode2, class2 ||| srcdst 0x00), (Reg.djqctrl, deco ||| srcdst 0x00),
    (Reg.data1sz, class1 ||| srcdst 0x02), (Reg.data2sz, class2 ||| srcdst 0x02), (Reg.dstat, deco ||| srcdst 0x02),
    (Reg.icv1sz, class1 ||| srcdst 0x03), (Reg.icv2sz, class2 ||| srcdst 0x03), (Reg.dpid, deco ||| srcdst 0x04),
    (Reg.cctrl, srcdst 0x06), (Reg.ictrl, srcdst 0x07), (Reg.clrw, srcdst 0x08), (Reg.math0, deco ||| srcdst 0x08),
    (Reg.cstat, srcdst 0x09), (Reg.math1, deco ||| srcdst 0x09), (Reg.math2, deco ||| srcdst 0x0a),
    (Reg.aad1sz, class1 ||| srcdst 0x0b), (Reg.math3, deco ||| srcdst 0x0b), (Reg.iv1sz, class1 ||| srcdst 0x0c),
    (Reg.pkasz, class1 ||| srcdst 0x10), (Reg.pkbsz, class1 ||| srcdst 0x11), (Reg.pkesz, class1 ||| srcdst 0x13),
    (Reg.pknsz, class1 ||| srcdst 0x12), (Reg.context1, class1 ||| srcdst 0x20), (Reg.context2, class2 ||| srcdst 0x20),
    (Reg.descbuf, deco ||| srcdst 0x40), (Reg.jobdescbuf, deco ||| srcdst 0x41), (Reg.sharedescbuf, deco ||| srcdst 0x42),
    (Reg.jobdescbufEff, deco ||| srcdst 0x45), (Reg.sharedescbufEff, deco ||| srcdst 0x46),
    (Reg.gtr, deco ||| srcdst 0x10), (Reg.str, deco ||| srcdst 0x20)]

def storeSrcTableSz (era : Era) : Nat :=
  match era with
  | 0 => 29
  | 1 => 31
  | 2 | 3 | 4 | 5 => 33
  | _ => 35

def jobBuffer (src : BitVec 64) : Prop :=
  named src Reg.jobdescbuf ∨ named src Reg.sharedescbuf ∨ named src Reg.jobdescbufEff ∨ named src Reg.sharedescbufEff

instance (src : BitVec 64) : Decidable (jobBuffer src) := inferInstanceAs (Decidable (_ ∨ _))

def storeFields (src : BitVec 64) (offset : BitVec 16) (length : Word) : Word :=
  if named src Reg.descbuf ∨ jobBuffer src then length >>> 2 ||| (offset >>> 2).setWidth 32 <<< 8
  else length ||| offset.setWidth 32 <<< 8

def storeSource (era : Era) (src : BitVec 64) (flags : Word) : Except Unit Word :=
  if flags &&& Flag.immed = 0 then rtaMapOpcode (src.setWidth 32) (storeSrcTable.take (storeSrcTableSz era)) else .ok 0

def storeOpcode (era : Era) (src : BitVec 64) (offset : BitVec 16) (length flags : Word) : Except Unit Word :=
  if flags &&& Flag.immed ≠ 0 ∧ flags &&& Flag.sgf ≠ 0 then .error ()
  else if flags &&& Flag.immed ≠ 0 ∧ offset ≠ 0 then .error ()
  else if flags &&& Flag.seq ≠ 0 ∧ jobBuffer src then .error ()
  else do
    let opcode := orIf flags (Flag.sgf ||| Flag.vlf) Ldst.vlf (orIf flags Flag.immed Ldst.imm
      (if flags &&& Flag.seq ≠ 0 then cmdSeqStore else cmdStore))
    let val ← storeSource era src flags
    .ok (opcode ||| val ||| storeFields src offset length)

def rtaStore (machine : Machine) (era : Era) (src : BitVec 64) (offset : BitVec 16) (dst : BitVec 64)
    (length flags : Word) (p : Program) : Except Unit Word × Program :=
  match storeOpcode era src offset length flags with
  | .error _ => p.err
  | .ok opcode =>
    let q := (p.out32 opcode).nextInstruction
    (.ok p.currentPc,
      if jobBuffer src then q
      else
        let r := if flags &&& Flag.seq = 0 then q.out64 machine.bigEndian q.ps dst else q
        if flags &&& Flag.immed ≠ 0 then r.inlineData machine src flags length else r)

end Flexbuild.Rta
