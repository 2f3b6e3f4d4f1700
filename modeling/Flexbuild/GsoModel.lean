import Mathlib
import Flexbuild.Fields

/-! Segmentation of TCP frames. Each call cuts one segment off the front of the remaining
frame, edits the headers in the presented segment and, unless it was the last one, puts
the edited headers in front of what remains. -/
namespace Flexbuild.TcpSegmentation
open ByteMemory (Byte)
open Fields

inductive SegStatus where
  | done | inProcess | synRstSet | enomem | eio
  deriving DecidableEq, Repr

structure ParseResult where
  outerIpOffset : BitVec 8
  l4Offset : BitVec 8
  outerIpv4 : Bool
  deriving DecidableEq, Repr

def finFlag : Byte := 0x01#8
def synFlag : Byte := 0x02#8
def rstFlag : Byte := 0x04#8
def pshFlag : Byte := 0x08#8
def urgFlag : Byte := 0x20#8
def tcpGsoFinBit : BitVec 32 := 0x00000001#32
def tcpGsoPshBit : BitVec 32 := 0x00000008#32
def tcpDataOffsetMask : Byte := 0xf0#8

def totalLength : Nat := 2
def ipv4Id : Nat := 4
def hdrCksum : Nat := 10
def payloadLength : Nat := 4
def sequenceNumber : Nat := 4
def dataOffsetReserved : Nat := 12
def tcpFlags : Nat := 13
def tcpChecksum : Nat := 16
def urgentPointer : Nat := 18

structure TcpGsoContext where
  remFrame : List Byte
  internalFlags : BitVec 32
  mss : BitVec 16
  splitSize : BitVec 16
  headersSize : BitVec 16
  urgent : BitVec 16
  segLength : BitVec 16
  firstSeg : Bool
  ipOffset : BitVec 8
  tcpOffset : BitVec 8
  ipv4 : Bool
  deriving DecidableEq, Repr

def tcpGsoContextInit (mss : BitVec 16) (old : TcpGsoContext) : TcpGsoContext :=
  { old with firstSeg := true, splitSize := 0, urgent := 0, mss := mss, internalFlags := 0, ipv4 := false }

structure Outside where
  checksums : List Byte → BitVec 16 × BitVec 16
  random : BitVec 32
  depleted : Bool
  fdError : Bool

def fdmaSplitFrame (frame : List Byte) (splitSize : Nat) : Option (List Byte × List Byte) :=
  if frame.length ≤ splitSize then none else some (frame.take splitSize, frame.drop splitSize)

def fdmaModifyDefaultSegmentData (frame segment : List Byte) (offset size : Nat) : List Byte :=
  overwrite frame offset ((segment.drop offset).take size)

def minimum (a b : BitVec 16) : BitVec 16 := if a < b then a else b

def urgentCalculation (segment : List Byte) (tcp : Nat) (mss urgent : BitVec 16) : List Byte × BitVec 16 :=
  if halfAt segment (tcp + urgentPointer) ≠ 0 then
    let pointer := minimum mss urgent
    let segment := setHalf segment (tcp + urgentPointer) pointer
    if pointer ≠ 0 then (segment, pointer)
    else (setByte segment (tcp + tcpFlags) (byteAt segment (tcp + tcpFlags) &&& ~~~urgFlag), 0)
  else (segment, 0)

def setLength (ipv4 : Bool) (segment : List Byte) (ip : Nat) (length : BitVec 16) : List Byte :=
  if ipv4 then setHalf segment (ip + totalLength) length
  else setHalf segment (ip + payloadLength) (length - 40)

def addSequence (segment : List Byte) (tcp : Nat) (mss : BitVec 16) : List Byte :=
  setFull segment (tcp + sequenceNumber) (fullAt segment (tcp + sequenceNumber) + mss.setWidth 32)

def segmentDone (pr : ParseResult) (outside : Outside) (headersSize : BitVec 16) (frame segment : List Byte)
    (ip tcp : Nat) : List Byte :=
  let frame := fdmaModifyDefaultSegmentData frame segment ip (headersSize.toNat - ip)
  let (l3checksum, l4checksum) := outside.checksums frame
  let segment := setHalf segment (tcp + tcpChecksum) l4checksum
  if pr.outerIpv4 then
    fdmaModifyDefaultSegmentData frame (setHalf segment (ip + hdrCksum) l3checksum) ip (headersSize.toNat - ip)
  else fdmaModifyDefaultSegmentData frame segment (pr.l4Offset.toNat + tcpChecksum) 2

def tcpGsoSplitSegment (pr : ParseResult) (outside : Outside) (ctx : TcpGsoContext) :
    SegStatus × List Byte × TcpGsoContext :=
  match fdmaSplitFrame ctx.remFrame ctx.splitSize.toNat with
  | none =>
    let frame := ctx.remFrame
    let ip := ctx.ipOffset.toNat
    let tcp := ctx.tcpOffset.toNat
    let segment := frame.take ctx.segLength.toNat
    let segment := setLength ctx.ipv4 segment ip (BitVec.ofNat 16 frame.length - ctx.ipOffset.setWidth 16)
    let saved := (ctx.internalFlags &&& (tcpGsoFinBit ||| tcpGsoPshBit)).setWidth 8
    let segment := setByte segment (tcp + tcpFlags) (byteAt segment (tcp + tcpFlags) ||| saved)
    let segment := addSequence segment tcp ctx.mss
    let (segment, _) := urgentCalculation segment tcp ctx.mss ctx.urgent
    (.done, segmentDone pr outside ctx.headersSize frame segment ip tcp, ctx)
  | some (frame, rest) =>
    let segment := frame.take ctx.segLength.toNat
    let first := ctx.firstSeg
    let ipOffset := if first then pr.outerIpOffset else ctx.ipOffset
    let ip := ipOffset.toNat
    let tcp := (if first then pr.l4Offset else ctx.tcpOffset).toNat
    let ipv4 := if first then pr.outerIpv4 else ctx.ipv4
    let segment :=
      if first then setLength ipv4 segment ip (ctx.splitSize - ipOffset.setWidth 16)
      else addSequence segment tcp ctx.mss
    let (segment, taken) := urgentCalculation segment tcp ctx.mss ctx.urgent
    let ctx := { ctx with
      firstSeg := false
      ipv4 := ipv4
      urgent := ctx.urgent - taken
      remFrame := segment.take ctx.headersSize.toNat ++ rest }
    let segment := if ipv4 then setHalf segment (ip + ipv4Id) (outside.random.setWidth 16) else segment
    (.inProcess, segmentDone pr outside ctx.headersSize frame segment ip tcp, ctx)

def takeFlag (flag : Byte) (bit : BitVec 32) (r : BitVec 32 × Byte) : BitVec 32 × Byte :=
  if r.2 &&& flag ≠ 0 then (r.1 ||| bit, r.2 &&& ~~~flag) else r

def tcpGsoGenerateSeg (pr : ParseResult) (outside : Outside) (frame : List Byte) (segLength : BitVec 16)
    (ctx : TcpGsoContext) : SegStatus × List Byte × TcpGsoContext :=
  if ctx.firstSeg = false then tcpGsoSplitSegment pr outside ctx
  else
    let tcp := pr.l4Offset.toNat
    let segment := frame.take segLength.toNat
    let ctx := { ctx with ipOffset := pr.outerIpOffset, tcpOffset := pr.l4Offset }
    let flags := byteAt segment (tcp + tcpFlags)
    if flags &&& (rstFlag ||| synFlag) ≠ 0 then (.synRstSet, frame, ctx)
    else
      let urgent := if flags &&& urgFlag ≠ 0 then halfAt segment (tcp + urgentPointer) else ctx.urgent
      let (internal, cleared) := takeFlag pshFlag tcpGsoPshBit (takeFlag finFlag tcpGsoFinBit (ctx.internalFlags, flags))
      let segment := setByte segment (tcp + tcpFlags) cleared
      let frame := if internal ≠ 0 then fdmaModifyDefaultSegmentData frame segment (tcp + tcpFlags) 1 else frame
      let headersSize := pr.l4Offset.setWidth 16 +
        ((byteAt segment (tcp + dataOffsetReserved) &&& tcpDataOffsetMask) >>> 2).setWidth 16
      let ctx := { ctx with
        urgent := urgent
        internalFlags := internal
        segLength := segLength
        headersSize := headersSize
        splitSize := headersSize + ctx.mss }
      if outside.depleted then (.enomem, frame, ctx)
      else if outside.fdError then (.eio, frame, { ctx with remFrame := frame })
      else tcpGsoSplitSegment pr outside { ctx with remFrame := frame }

structure Calls where
  frames : Nat → List Byte
  segLengths : Nat → BitVec 16
  outside : Nat → Outside

def contextAt (pr : ParseResult) (mss : BitVec 16) (old : TcpGsoContext) (calls : Calls) : Nat → TcpGsoContext
  | 0 => tcpGsoContextInit mss old
  | k + 1 => (tcpGsoGenerateSeg pr (calls.outside k) (calls.frames k) (calls.segLengths k)
      (contextAt pr mss old calls k)).2.2

def emitted (pr : ParseResult) (mss : BitVec 16) (old : TcpGsoContext) (calls : Calls) (k : Nat) :
    SegStatus × List Byte :=
  let r := tcpGsoGenerateSeg pr (calls.outside k) (calls.frames k) (calls.segLengths k) (contextAt pr mss old calls k)
  (r.1, r.2.1)

end Flexbuild.TcpSegmentation
