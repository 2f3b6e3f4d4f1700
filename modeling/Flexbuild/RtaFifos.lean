import Flexbuild.RtaLoads

/-! The commands that load keys and move data through the FIFOs, the commands that set the
sequence pointers, and the arithmetic. -/
namespace Flexbuild.Rta

namespace Flag

def enc : Word := bit 14
def ekt : Word := bit 15
def tk : Word := bit 16
def nwb : Word := bit 17
def pts : Word := bit 18
def rbs : Word := bit 16
def inl : Word := bit 17
def pre : Word := bit 18
def rto : Word := bit 19
def rjd : Word := bit 20
def sop : Word := bit 21
def rst : Word := bit 22
def ews : Word := bit 23

end Flag

def cmdKey : Word := 0x00#32 <<< 27
def cmdSeqKey : Word := 0x01#32 <<< 27
def cmdFifoLoad : Word := 0x04#32 <<< 27
def cmdSeqFifoLoad : Word := 0x05#32 <<< 27
def cmdFifoStore : Word := 0x0c#32 <<< 27
def cmdSeqFifoStore : Word := 0x0d#32 <<< 27
def cmdMath : Word := 0x15#32 <<< 27
def cmdSeqInPtr : Word := 0x1e#32 <<< 27
def cmdSeqOutPtr : Word := 0x1f#32 <<< 27

namespace Key

def class1 : Word := 1#32 <<< 25
def class2 : Word := 2#32 <<< 25
def sgf : Word := bit 24
def vlf : Word := bit 24
def imm : Word := bit 23
def aidf : Word := bit 23
def enc : Word := bit 22
def nwb : Word := bit 21
def ekt : Word := bit 20
def tk : Word := bit 15
def pts : Word := bit 14
def pkhaE : Word := 1#32 <<< 16
def afhaSbox : Word := 2#32 <<< 16
def mdhaSplit : Word := 3#32 <<< 16
def lengthMask : Word := 0x3ff

end Key

open Rta.Flag in
def keyEncFlags (era : Era) : Word :=
  match era with
  | 0 => enc
  | 1 | 2 | 3 | 4 | 5 => enc ||| nwb ||| ekt ||| tk
  | _ => enc ||| nwb ||| ekt ||| tk ||| pts

def keyDest (keyDst : Word) : Except Unit Word :=
  if keyDst = Reg.key1 then .ok Key.class1
  else if keyDst = Reg.key2 then .ok Key.class2
  else if keyDst = Reg.pke then .ok (Key.class1 ||| Key.pkhaE)
  else if keyDst = Reg.afhaSbox then .ok (Key.class1 ||| Key.afhaSbox)
  else if keyDst = Reg.mdhaSplitKey then .ok (Key.class2 ||| Key.mdhaSplit)
  else .error ()

def align (x a : Word) : Word := x + (a - 1) &&& ~~~(a - 1)

def keyStored (encryptFlags length : Word) : Word :=
  if encryptFlags &&& Flag.enc ≠ 0 then
    if encryptFlags &&& Flag.ekt ≠ 0 then align (length &&& Key.lengthMask) 8 + 12
    else align (length &&& Key.lengthMask) 16
  else length &&& Key.lengthMask

open Rta.Flag in
def keyOpcode (era : Era) (keyDst encryptFlags length flags : Word) : Except Unit Word :=
  if encryptFlags &&& ~~~keyEncFlags era ≠ 0 then .error ()
  else if flags &&& seq ≠ 0 ∧ (flags &&& immed ≠ 0 ∨ flags &&& sgf ≠ 0) then .error ()
  else if flags &&& seq ≠ 0 ∧ era ≤ era5 ∧ (flags &&& vlf ≠ 0 ∨ flags &&& aidf ≠ 0) then .error ()
  else if flags &&& seq = 0 ∧ (flags &&& aidf ≠ 0 ∨ flags &&& vlf ≠ 0) then .error ()
  else if flags &&& seq = 0 ∧ flags &&& sgf ≠ 0 ∧ flags &&& immed ≠ 0 then .error ()
  else if encryptFlags &&& pts ≠ 0 ∧ (encryptFlags &&& enc ≠ 0 ∨ encryptFlags &&& nwb ≠ 0 ∨ keyDst = Reg.pke) then
    .error ()
  else if keyDst = Reg.afhaSbox ∧ (era = era7 ∨ flags &&& immed ≠ 0 ∨ length ≠ 258) then .error ()
  else do
    let dest ← keyDest keyDst
    let opcode := (if flags &&& seq ≠ 0 then cmdSeqKey else cmdKey) ||| dest ||| length &&& Key.lengthMask
    let opcode := if encryptFlags &&& enc ≠ 0 then
        orIf encryptFlags tk Key.tk (orIf encryptFlags ekt Key.ekt (opcode ||| Key.enc))
      else opcode
    let opcode := orIf encryptFlags pts Key.pts (orIf encryptFlags nwb Key.nwb opcode)
    .ok (if flags &&& seq = 0 then orIf flags sgf Key.sgf (orIf flags immed Key.imm opcode)
      else orIf flags vlf Key.vlf (orIf flags aidf Key.aidf opcode))

def rtaKey (machine : Machine) (era : Era) (keyDst encryptFlags : Word) (src : BitVec 64) (length flags : Word)
    (p : Program) : Except Unit Word × Program :=
  match keyOpcode era keyDst encryptFlags length flags with
  | .error _ => p.err
  | .ok opcode =>
    let q := (p.out32 opcode).nextInstruction
    (.ok p.currentPc,
      if flags &&& Flag.immed ≠ 0 then q.inlineData machine src flags (keyStored encryptFlags length)
      else q.out64 machine.bigEndian q.ps src)

namespace Fifo

def class1 : Word := 1#32 <<< 25
def class2 : Word := 2#32 <<< 25
def both : Word := 3#32 <<< 25
def sgf : Word := bit 24
def vlf : Word := bit 24
def imm : Word := bit 23
def aidf : Word := bit 23
def cont : Word := bit 23
def ext : Word := bit 22
def type (n : Word) : Word := n <<< 16
def typeMask : Word := 0x3f#32 <<< 16
def lenMask : Word := 0xffff

end Fifo

open Fifo in
def fifoLoadTable : List (Word × Word) :=
  [(Reg.pka0, class1 ||| type 0x00), (Reg.pka1, class1 ||| type 0x01), (Reg.pka2, class1 ||| type 0x02),
    (Reg.pka3, class1 ||| type 0x03), (Reg.pkb0, class1 ||| type 0x04), (Reg.pkb1, class1 ||| type 0x05),
    (Reg.pkb2, class1 ||| type 0x06), (Reg.pkb3, class1 ||| type 0x07), (Reg.pka, class1 ||| type 0x0c),
    (Reg.pkb, class1 ||| type 0x0d), (Reg.pkn, class1 ||| type 0x08), (Reg.skip, 0), (Reg.msg1, class1 ||| type 0x10),
    (Reg.msg2, class2 ||| type 0x10), (Reg.msgoutsnoop, both ||| type 0x18), (Reg.msginsnoop, both ||| type 0x10),
    (Reg.iv1, class1 ||| type 0x20), (Reg.iv2, class2 ||| type 0x20), (Reg.aad1, class1 ||| type 0x30),
    (Reg.icv1, class1 ||| type 0x38), (Reg.icv2, class2 ||| type 0x38), (Reg.bitData, type 0x28),
    (Reg.ififo, class1 ||| type 0x0f)]

def fifoLoadTableSz (era : Era) : Nat := if era < 2 then 22 else 23

def extended (length flags : Word) : Prop := flags &&& Flag.ext ≠ 0 ∨ length >>> 16 ≠ 0

instance (length flags : Word) : Decidable (extended length flags) := inferInstanceAs (Decidable (_ ∨ _))

open Rta.Flag in
def fifoLoadOpcode (era : Era) (src length flags : Word) : Except Unit Word :=
  if flags &&& seq ≠ 0 ∧ (flags &&& immed ≠ 0 ∨ flags &&& sgf ≠ 0) then .error ()
  else if flags &&& seq ≠ 0 ∧ era ≤ era5 ∧ flags &&& aidf ≠ 0 then .error ()
  else if flags &&& seq ≠ 0 ∧ flags &&& vlf ≠ 0 ∧ extended length flags then .error ()
  else if flags &&& seq = 0 ∧ src = Reg.skip then .error ()
  else if flags &&& seq = 0 ∧ (flags &&& aidf ≠ 0 ∨ flags &&& vlf ≠ 0) then .error ()
  else if flags &&& seq = 0 ∧ flags &&& immed ≠ 0 ∧ flags &&& sgf ≠ 0 then .error ()
  else if flags &&& seq = 0 ∧ flags &&& immed ≠ 0 ∧ extended length flags then .error ()
  else do
    let val ← rtaMapOpcode src (fifoLoadTable.take (fifoLoadTableSz era))
    let opcode := (if flags &&& seq ≠ 0 then cmdSeqFifoLoad else cmdFifoLoad) ||| val
    let opcode := orIf flags both Fifo.both (orIf flags class2 Fifo.class2 (orIf flags class1 Fifo.class1 opcode))
    let opcode := orIf flags last2 (Fifo.type 0x04) (orIf flags last1 (Fifo.type 0x02)
      (orIf flags flush1 (Fifo.type 0x01) opcode))
    let opcode := if flags &&& seq = 0 then orIf flags immed Fifo.imm (orIf flags sgf Fifo.sgf opcode)
      else orIf flags aidf Fifo.aidf (orIf flags vlf Fifo.vlf opcode)
    .ok (if extended length flags then
        opcode ||| Fifo.ext ||| (if src = Reg.bitData then length % 8 else 0) &&& Fifo.lenMask
      else opcode ||| length &&& Fifo.lenMask)

def fifoExtLength (src length : Word) : Word := if src = Reg.bitData then length / 8 else length

def rtaFifoLoad (machine : Machine) (era : Era) (src : Word) (loc : BitVec 64) (length flags : Word) (p : Program) :
    Except Unit Word × Program :=
  match fifoLoadOpcode era src length flags with
  | .error _ => p.err
  | .ok opcode =>
    let q := (p.out32 opcode).nextInstruction
    let r :=
      if flags &&& Flag.immed ≠ 0 then q.inlineData machine loc flags length
      else if flags &&& Flag.seq = 0 then q.out64 machine.bigEndian q.ps loc
      else q
    (.ok p.currentPc, if opcode &&& Fifo.ext ≠ 0 then r.out32 (fifoExtLength src length) else r)

open Fifo in
def fifoStoreTable : List (Word × Word) :=
  [(Reg.pka0, type 0x00), (Reg.pka1, type 0x01), (Reg.pka2, type 0x02), (Reg.pka3, type 0x03), (Reg.pkb0, type 0x04),
    (Reg.pkb1, type 0x05), (Reg.pkb2, type 0x06), (Reg.pkb3, type 0x07), (Reg.pka, type 0x0c), (Reg.pkb, type 0x0d),
    (Reg.pkn, type 0x08), (Reg.pke, type 0x22), (Reg.rng, type 0x34), (Reg.rngofifo, type 0x35),
    (Reg.afhaSbox, type 0x20), (Reg.mdhaSplitKey, class2 ||| type 0x26), (Reg.msg, type 0x30),
    (Reg.key1, class1 ||| type 0x24), (Reg.key2, class2 ||| type 0x24), (Reg.ofifo, type 0x28), (Reg.skip, type 0x3f),
    (Reg.metadata, type 0x3e), (Reg.msgCksum, type 0x31)]

def fifoStoreTableSz (era : Era) : Nat :=
  match era with
  | 0 | 1 | 2 | 3 => 21
  | 4 | 5 | 6 => 22
  | 7 => 23

open Rta.Flag in
def fifoStoreOpcode (era : Era) (src encryptFlags : Word) (dst : BitVec 64) (length flags : Word) : Except Unit Word :=
  if flags &&& seq ≠ 0 ∧ flags &&& vlf ≠ 0 ∧ extended length flags then .error ()
  else if flags &&& seq ≠ 0 ∧ dst ≠ 0 then .error ()
  else if flags &&& seq ≠ 0 ∧ src = Reg.metadata ∧ flags &&& (cont ||| ext) ≠ 0 then .error ()
  else if flags &&& seq = 0 ∧ (src = Reg.rngofifo ∧ (dst ≠ 0 ∨ flags &&& ext ≠ 0) ∨ src = Reg.metadata) then .error ()
  else if era = era7 ∧ src = Reg.afhaSbox then .error ()
  else do
    let val ← rtaMapOpcode src (fifoStoreTable.take (fifoStoreTableSz era))
    let opcode := orIf encryptFlags tk (Fifo.type 0x01) ((if flags &&& seq ≠ 0 then cmdSeqFifoStore else cmdFifoStore) ||| val)
    if encryptFlags &&& ekt ≠ 0 ∧ era = 0 then .error ()
    else
      let opcode := if encryptFlags &&& ekt ≠ 0 then (opcode ||| Fifo.type 0x10) &&& ~~~Fifo.type 0x20 else opcode
      let opcode := orIf flags cont Fifo.cont opcode
      let opcode := if flags &&& seq ≠ 0 then orIf flags vlf Fifo.vlf opcode else orIf flags sgf Fifo.sgf opcode
      let opcode := orIf flags both Fifo.both (orIf flags class2 Fifo.class2 (orIf flags class1 Fifo.class1 opcode))
      .ok (if extended length flags then opcode ||| Fifo.ext else opcode ||| length &&& Fifo.lenMask)

def rtaFifoStore (machine : Machine) (era : Era) (src encryptFlags : Word) (dst : BitVec 64) (length flags : Word)
    (p : Program) : Except Unit Word × Program :=
  match fifoStoreOpcode era src encryptFlags dst length flags with
  | .error _ => p.err
  | .ok opcode =>
    let q := (p.out32 opcode).nextInstruction
    let r := if flags &&& Flag.seq = 0 ∧ dst ≠ 0 then q.out64 machine.bigEndian q.ps dst else q
    (.ok p.currentPc, if opcode &&& Fifo.ext ≠ 0 then r.out32 length else r)

namespace Sqin

def rbs : Word := bit 26
def inl : Word := bit 25
def sgf : Word := bit 24
def pre : Word := bit 23
def ext : Word := bit 22
def rto : Word := bit 21
def rjd : Word := bit 20
def sop : Word := bit 19
def lenMask : Word := 0xffff

end Sqin

namespace Sqout

def sgf : Word := bit 24
def pre : Word := bit 23
def ext : Word := bit 22
def rto : Word := bit 21
def rst : Word := bit 20
def ews : Word := bit 19
def lenMask : Word := 0xffff

end Sqout

open Rta.Flag in
def seqInPtrFlags (era : Era) : Word :=
  match era with
  | 0 => rbs ||| inl ||| sgf ||| pre ||| ext ||| rto
  | 1 | 2 | 3 => rbs ||| inl ||| sgf ||| pre ||| ext ||| rto ||| rjd
  | _ => rbs ||| inl ||| sgf ||| pre ||| ext ||| rto ||| rjd ||| sop

open Rta.Flag in
def seqOutPtrFlags (era : Era) : Word :=
  match era with
  | 0 => sgf ||| pre ||| ext
  | 1 | 2 | 3 => sgf ||| pre ||| ext ||| rto
  | _ => sgf ||| pre ||| ext ||| rto ||| rst ||| ews

open Rta.Flag in
def seqInPtrOpcode (era : Era) (src : BitVec 64) (length flags : Word) : Except Unit Word :=
  if flags &&& rto ≠ 0 ∧ flags &&& pre ≠ 0 then .error ()
  else if flags &&& ~~~seqInPtrFlags era ≠ 0 then .error ()
  else if flags &&& inl ≠ 0 ∧ flags &&& rjd ≠ 0 then .error ()
  else if src ≠ 0 ∧ flags &&& (sop ||| rto ||| pre) ≠ 0 then .error ()
  else if flags &&& sop ≠ 0 ∧ flags &&& (rbs ||| pre ||| rto ||| ext) ≠ 0 then .error ()
  else if extended length flags ∧ flags &&& sop ≠ 0 then .error ()
  else
    let opcode := orIf flags sop Sqin.sop (orIf flags rjd Sqin.rjd (orIf flags rto Sqin.rto (orIf flags pre Sqin.pre
      (orIf flags sgf Sqin.sgf (orIf flags inl Sqin.inl (orIf flags rbs Sqin.rbs cmdSeqInPtr))))))
    .ok (if extended length flags then opcode ||| Sqin.ext else opcode ||| length &&& Sqin.lenMask)

def rtaSeqInPtr (bigEndian : Bool) (era : Era) (src : BitVec 64) (length flags : Word) (p : Program) :
    Except Unit Word × Program :=
  match seqInPtrOpcode era src length flags with
  | .error _ => p.err
  | .ok opcode =>
    let q := (p.out32 opcode).nextInstruction
    let r := if opcode &&& (Sqin.pre ||| Sqin.rto ||| Sqin.sop) = 0 then q.out64 bigEndian q.ps src else q
    (.ok p.currentPc, if opcode &&& Sqin.ext ≠ 0 then r.out32 length else r)

open Rta.Flag in
def seqOutPtrOpcode (era : Era) (dst : BitVec 64) (length flags : Word) : Except Unit Word :=
  if flags &&& ~~~seqOutPtrFlags era ≠ 0 then .error ()
  else if flags &&& rto ≠ 0 ∧ flags &&& pre ≠ 0 then .error ()
  else if dst ≠ 0 ∧ flags &&& (rto ||| pre) ≠ 0 then .error ()
  else if flags &&& rst ≠ 0 ∧ flags &&& rto = 0 then .error ()
  else
    let opcode := orIf flags ews Sqout.ews (orIf flags rst Sqout.rst (orIf flags rto Sqout.rto (orIf flags pre Sqout.pre
      (orIf flags sgf Sqout.sgf cmdSeqOutPtr))))
    .ok (if extended length flags then opcode ||| Sqout.ext else opcode ||| length &&& Sqout.lenMask)

def rtaSeqOutPtr (bigEndian : Bool) (era : Era) (dst : BitVec 64) (length flags : Word) (p : Program) :
    Except Unit Word × Program :=
  match seqOutPtrOpcode era dst length flags with
  | .error _ => p.err
  | .ok opcode =>
    let q := (p.out32 opcode).nextInstruction
    let r := if opcode &&& (Sqout.pre ||| Sqout.rto) = 0 then q.out64 bigEndian q.ps dst else q
    (.ok p.currentPc, if opcode &&& Sqout.ext ≠ 0 then r.out32 length else r)

namespace Math

def ifb : Word := bit 26
def swp : Word := bit 0
def function (n : Word) : Word := n <<< 20
def shld : Word := function 0x09
def zbyt : Word := function 0x0a
def bswap : Word := function 0x0b
def src0 (n : Word) : Word := n <<< 16
def src0Mask : Word := 0x0f#32 <<< 16
def src0Imm : Word := src0 0x04
def src1 (n : Word) : Word := n <<< 12
def src1Mask : Word := 0x0f#32 <<< 12
def src1Imm : Word := src1 0x04
def dest (n : Word) : Word := n <<< 8
def len8byte : Word := 0x08

end Math

def Flag.immed2 : Word := bit 31

open Math in
def mathOp1 : List (Word × Word) :=
  [(Reg.math0, src0 0x00), (Reg.math1, src0 0x01), (Reg.math2, src0 0x02), (Reg.math3, src0 0x03),
    (Reg.seqinsz, src0 0x08), (Reg.seqoutsz, src0 0x09), (Reg.vseqinsz, src0 0x0a), (Reg.vseqoutsz, src0 0x0b),
    (Reg.zero, src0 0x0c), (Reg.none, 0), (Reg.dpovrd, src0 0x07), (Reg.one, src0 0x0f)]

def mathOp1Sz (era : Era) : Nat := if era < 2 then 10 else 12

open Math in
def mathOp2 : List (Word × Word) :=
  [(Reg.math0, src1 0x00), (Reg.math1, src1 0x01), (Reg.math2, src1 0x02), (Reg.math3, src1 0x03),
    (Reg.abd, src1 0x0a), (Reg.ofifo, src1 0x0b), (Reg.one, src1 0x0c), (Reg.none, 0), (Reg.jobsrc, src1 0x0d),
    (Reg.dpovrd, src1 0x07), (Reg.vseqinsz, src1 0x08), (Reg.vseqoutsz, src1 0x09), (Reg.zero, src1 0x0f)]

def mathOp2Sz (era : Era) : Nat :=
  match era with
  | 0 => 8
  | 1 => 9
  | _ => 13

open Math in
def mathResult : List (Word × Word) :=
  [(Reg.math0, dest 0x00), (Reg.math1, dest 0x01), (Reg.math2, dest 0x02), (Reg.math3, dest 0x03),
    (Reg.seqinsz, dest 0x08), (Reg.seqoutsz, dest 0x09), (Reg.vseqinsz, dest 0x0a), (Reg.vseqoutsz, dest 0x0b),
    (Reg.none, dest 0x0f), (Reg.dpovrd, dest 0x07)]

def mathResultSz (era : Era) : Nat := if era < 2 then 9 else 10

def mathFun (op : Word) : Except Unit Word :=
  if op &&& ~~~Math.function 0x0f = 0 ∧ op ≤ Math.bswap then .ok op else .error ()

def mathLength (length : Int) : Except Unit Word :=
  if length = 1 then .ok 0x01
  else if length = 2 then .ok 0x02
  else if length = 4 then .ok 0x04
  else if length = 8 then .ok Math.len8byte
  else .error ()

def mathOperand1 (era : Era) (operand1 : BitVec 64) (options : Word) : Except Unit Word :=
  if options &&& Flag.immed ≠ 0 then .ok Math.src0Imm
  else rtaMapOpcode (operand1.setWidth 32) (mathOp1.take (mathOp1Sz era))

def mathOperand2 (era : Era) (operand2 : BitVec 64) (options : Word) : Except Unit Word :=
  if options &&& Flag.immed2 ≠ 0 then .ok Math.src1Imm
  else rtaMapOpcode (operand2.setWidth 32) (mathOp2.take (mathOp2Sz era))

def mathOpcode (era : Era) (operand1 : BitVec 64) (op : Word) (operand2 : BitVec 64) (result : Word) (length : Int)
    (options : Word) : Except Unit Word :=
  let immed := options &&& Flag.immed ≠ 0
  let immed2 := options &&& Flag.immed2 ≠ 0
  if op = Math.bswap ∧ era < era4 ∨ op = Math.zbyt ∧ era < 1 then .error ()
  else if options &&& Math.swp ≠ 0 ∧ era < era7 then .error ()
  else if options &&& Math.swp ≠ 0 ∧ (options &&& Math.ifb ≠ 0 ∨ ¬immed ∧ ¬immed2 ∨ immed ∧ immed2) then .error ()
  else if op ≠ Math.shld ∧ (named operand1 Reg.none ∨ named operand2 Reg.seqinsz) then .error ()
  else if (op = Math.zbyt ∨ op = Math.bswap) ∧ ¬named operand2 Reg.none then .error ()
  else do
    let first ← mathOperand1 era operand1 options
    let second ← mathOperand2 era operand2 options
    let dest ← rtaMapOpcode result (mathResult.take (mathResultSz era))
    let op ← mathFun op
    let len ← mathLength length
    .ok (cmdMath ||| first ||| second ||| dest ||| op ||| options &&& ~~~(Flag.immed ||| Flag.immed2) ||| len)

def rtaMath (bigEndian : Bool) (era : Era) (operand1 : BitVec 64) (op : Word) (operand2 : BitVec 64) (result : Word)
    (length : Int) (options : Word) (p : Program) : Except Unit Word × Program :=
  match mathOpcode era operand1 op operand2 result length options with
  | .error _ => p.err
  | .ok opcode =>
    let q := (p.out32 opcode).nextInstruction
    let wide := 4 < length ∧ options &&& Math.ifb = 0
    (.ok p.currentPc,
      if options &&& Flag.immed ≠ 0 ∧ options &&& Flag.immed2 = 0 then q.out64 bigEndian wide operand1
      else if options &&& Flag.immed2 ≠ 0 ∧ options &&& Flag.immed = 0 then q.out64 bigEndian wide operand2
      else if options &&& Flag.immed ≠ 0 ∧ options &&& Flag.immed2 ≠ 0 then
        (q.out32 (operand1.extractLsb' 0 32)).out32 (operand2.extractLsb' 0 32)
      else q)

end Flexbuild.Rta
