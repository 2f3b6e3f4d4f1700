import Flexbuild.Checksums
import Flexbuild.Fields

/-! Aggregation of the TCP segments of one flow. A frame carries, next to its bytes, the
segments it was made of, in order. Deleting or creating a timer may end in the exception handler
of the timer manager: then the task stops with the mutex held, and there is no next state. -/
namespace Flexbuild.TcpAggregation
open ByteMemory (Byte)
open Fields Checksums

def segAggDone : BitVec 8 := 0x01#8
def segAggNotDone : BitVec 8 := 0x02#8
def segAggDoneAggOpen : BitVec 8 := 0x04#8
def aggDiscarded : BitVec 8 := 0x08#8
def flushRequired : BitVec 8 := 0x10#8
def segAggTimerInProcess : BitVec 8 := 0x20#8
def metadataUsed : BitVec 8 := 0x40#8
def timerUnavail : BitVec 8 := 0x80#8
def segDiscarded : BitVec 8 := 0xa0#8
def flushAggDone : BitVec 8 := 0x00#8
def flushNoAgg : BitVec 8 := 0x01#8

inductive GroStatus where
  | bits (b : BitVec 8)
  | enomem
  | eio
  deriving DecidableEq, Repr

def groHasTimestamp : BitVec 16 := 0x0001#16
def groFlushAggSet : BitVec 16 := 0x0004#16
def groDiscardSegSet : BitVec 16 := 0x0008#16
def groAggTimerInProcess : BitVec 16 := 0x0010#16
def groEcnMask : BitVec 32 := 0x00003000#32
def calculateTcpChecksum : BitVec 32 := 0x00000004#32
def calculateIpChecksum : BitVec 32 := 0x00000008#32
def invalidTmanHandle : BitVec 32 := 0xffffffff#32
def timerHandleMask : BitVec 32 := 0x00ffffff#32
def pshFlag : Byte := 0x08#8
def tcpHdrLength : Nat := 20
def timestampNopVal : Byte := 1

structure ParseResult where
  outerIpOffset : BitVec 8
  l4Offset : BitVec 8
  outerIpv4 : Bool
  deriving DecidableEq, Repr

def dataOffset (bytes : List Byte) (tcp : Nat) : Nat := ((byteAt bytes (tcp + 12) &&& 0xf0#8) >>> 2).toNat

def payload (pr : ParseResult) (bytes : List Byte) : List Byte :=
  bytes.drop (pr.l4Offset.toNat + dataOffset bytes pr.l4Offset.toNat)

structure LastSegHeaderFields where
  acknowledgmentNumber : BitVec 32
  dataOffsetReserved : Byte
  flags : Byte
  windowSize : BitVec 16
  deriving DecidableEq, Repr

structure Segment where
  bytes : List Byte
  pr : ParseResult
  error : Bool
  ipHeader : pr.outerIpOffset.toNat + 20 ≤ pr.l4Offset.toNat
  tcpHeader : tcpHdrLength ≤ dataOffset bytes pr.l4Offset.toNat
  complete : pr.l4Offset.toNat + dataOffset bytes pr.l4Offset.toNat ≤ bytes.length
  deriving DecidableEq

namespace Segment
variable (s : Segment)

def tcp : Nat := s.pr.l4Offset.toNat

def payload : List Byte := TcpAggregation.payload s.pr s.bytes

def dataOffset : Nat := TcpAggregation.dataOffset s.bytes s.tcp

def segSize : BitVec 16 := BitVec.ofNat 16 s.bytes.length

def headersSize : BitVec 16 := BitVec.ofNat 16 (s.tcp + s.dataOffset)

def sequenceNumber : BitVec 32 := fullAt s.bytes (s.tcp + 4)

def lastSegFields : LastSegHeaderFields where
  acknowledgmentNumber := fullAt s.bytes (s.tcp + 8)
  dataOffsetReserved := byteAt s.bytes (s.tcp + 12)
  flags := byteAt s.bytes (s.tcp + 13)
  windowSize := halfAt s.bytes (s.tcp + 14)

def psh : Prop := s.lastSegFields.flags &&& pshFlag ≠ 0

instance : Decidable s.psh := inferInstanceAs (Decidable (_ ≠ _))

def timestamp : BitVec 32 :=
  if tcpHdrLength < s.dataOffset then
    if byteAt s.bytes (s.tcp + tcpHdrLength) = timestampNopVal then fullAt s.bytes (s.tcp + 24)
    else fullAt s.bytes (s.tcp + 22)
  else 0

def hasTimestamp : BitVec 16 := if tcpHdrLength < s.dataOffset then groHasTimestamp else 0

def ecn : BitVec 32 :=
  let first := fullAt s.bytes s.pr.outerIpOffset.toNat
  (if s.pr.outerIpv4 then first >>> 4 else first >>> 4 >>> 4) &&& groEcnMask

end Segment

structure Arrival where
  number : Nat
  segment : Segment
  deriving DecidableEq

structure Frame where
  bytes : List Byte
  pr : ParseResult
  segs : List Arrival
  deriving DecidableEq

def Frame.payload (f : Frame) : List Byte := TcpAggregation.payload f.pr f.bytes

def Arrival.frame (a : Arrival) : Frame := ⟨a.segment.bytes, a.segment.pr, [a]⟩

structure Limits where
  packetSizeLimit : BitVec 16
  segNumLimit : BitVec 8
  deriving DecidableEq, Repr

structure GroContext where
  aggFd : Frame
  segNum : BitVec 16
  lastSegFields : LastSegHeaderFields
  timestamp : BitVec 32
  nextSeq : BitVec 32
  flags : BitVec 32
  timerHandle : BitVec 32
  internalFlags : BitVec 16
  limits : Limits
  deriving DecidableEq

inductive TimerState where
  | free | running | expired
  deriving DecidableEq, Repr

structure Timers where
  state : BitVec 32 → TimerState
  tasks : List (BitVec 32)

namespace Timers
variable (t : Timers)

def set (handle : BitVec 32) (state : TimerState) : Timers := { t with state := Function.update t.state handle state }

def tmanDeleteTimer (handle : BitVec 32) : Option (Bool × Timers) :=
  match t.state handle with
  | .free => none
  | .running => some (true, t.set handle .free)
  | .expired => some (false, t)

def tmanCreateTimer : Option (BitVec 32) → Option (Option (BitVec 32) × Timers)
  | none => some (none, t)
  | some handle =>
    if t.state handle = .free ∧ handle &&& timerHandleMask = handle then some (some handle, t.set handle .running)
    else none

def tmanTimerCompletionConfirmation (handle : BitVec 32) : Timers :=
  if t.state handle = .expired then t.set handle .free else t

end Timers

-- What a descriptor holds after its frame could not be stored or cut is not known, nor is a
-- variable that was never set.
structure Answers where
  created : Option (BitVec 32)
  stored : Bool
  concatenated : Bool
  remains : List Byte
  ackNumber : BitVec 32
  tcpChecksum : List Byte → BitVec 16

structure Outcome where
  status : GroStatus
  frame : Option Frame
  ctx : GroContext
  timers : Timers

def updateIpLength (flags : BitVec 32) (pr : ParseResult) (bytes : List Byte) : List Byte :=
  let ip := pr.outerIpOffset.toNat
  let ipLength := BitVec.ofNat 16 bytes.length - pr.outerIpOffset.setWidth 16
  if pr.outerIpv4 then
    let bytes :=
      if flags &&& calculateIpChecksum ≠ 0 then
        setHalf bytes (ip + 10)
          (cksumUpdateUint32 (halfAt bytes (ip + 10)) ((halfAt bytes (ip + 2)).setWidth 32) (ipLength.setWidth 32))
      else bytes
    setHalf bytes (ip + 2) ipLength
  else setHalf bytes (ip + 4) (ipLength - 40)

def updateLastSegFields (tcp : Nat) (last : LastSegHeaderFields) (bytes : List Byte) : List Byte :=
  setHalf (setByte (setByte (setFull bytes (tcp + 8) last.acknowledgmentNumber) (tcp + 12) last.dataOffsetReserved)
    (tcp + 13) last.flags) (tcp + 14) last.windowSize

def updateTcpChecksum (flags : BitVec 32) (checksum : List Byte → BitVec 16) (tcp : Nat) (bytes : List Byte) : List Byte :=
  if flags &&& calculateTcpChecksum ≠ 0 then
    setHalf bytes (tcp + 16) (checksum (setHalf bytes (tcp + 16) 0))
  else bytes

def updateHeaders (flags : BitVec 32) (checksum : List Byte → BitVec 16) (pr : ParseResult)
    (last : Option LastSegHeaderFields) (bytes : List Byte) : List Byte :=
  let bytes := updateIpLength flags pr bytes
  let bytes := match last with
    | some last => updateLastSegFields pr.l4Offset.toNat last bytes
    | none => bytes
  updateTcpChecksum flags checksum pr.l4Offset.toNat bytes

-- The frame without its last segment: a cut at the length the descriptor still tells.
def fdmaSplitFrame (whole : List Byte) (splitSize : BitVec 16) (remains : List Byte) : List Byte :=
  if whole.length ≤ splitSize.toNat then remains else whole.take splitSize.toNat

def concatenateFrames (f : Frame) (s : Segment) : List Byte :=
  f.bytes ++ s.bytes.drop (s.headersSize.setWidth 8).toNat

def splitAgain (f : Frame) (s : Segment) (a : Answers) : List Byte :=
  fdmaSplitFrame (concatenateFrames f s) (BitVec.ofNat 16 f.bytes.length) a.remains

def joinFrames (f : Frame) (arrival : Arrival) (a : Answers) : Frame :=
  if a.concatenated then { f with bytes := concatenateFrames f arrival.segment, segs := f.segs ++ [arrival] }
  else { f with bytes := splitAgain f arrival.segment a }

def flushes (limits : Limits) (s : Segment) : Prop :=
  s.psh ∨ limits.segNumLimit ≤ 1 ∨ limits.packetSizeLimit ≤ s.segSize

instance (limits : Limits) (s : Segment) : Decidable (flushes limits s) := inferInstanceAs (Decidable (_ ∨ _ ∨ _))

def lastOfSeveral (ctx : GroContext) : Option LastSegHeaderFields :=
  if 1 < ctx.segNum then some ctx.lastSegFields else none

def finishFrame (ctx : GroContext) (checksum : List Byte → BitVec 16) (last : Option LastSegHeaderFields) : Frame :=
  { ctx.aggFd with bytes := updateHeaders ctx.flags checksum ctx.aggFd.pr last ctx.aggFd.bytes }

def tcpGroCloseAggregationAndOpenNewAggregation (ctx : GroContext) (timers : Timers) (limits : Limits)
    (arrival : Arrival) (a : Answers) : Option Outcome :=
  let s := arrival.segment
  let out := finishFrame ctx a.tcpChecksum (lastOfSeveral ctx)
  let opened : GroContext :=
    if flushes limits s then { ctx with
      internalFlags := groFlushAggSet, lastSegFields := { ctx.lastSegFields with acknowledgmentNumber := a.ackNumber } }
    else { ctx with
      nextSeq := s.sequenceNumber + s.segSize.setWidth 32 - s.headersSize.setWidth 32
      timestamp := s.timestamp
      internalFlags := s.hasTimestamp ||| s.ecn.setWidth 16
      lastSegFields :=
        { ctx.lastSegFields with acknowledgmentNumber := s.lastSegFields.acknowledgmentNumber } }
  let opened := { opened with
    aggFd := arrival.frame
    internalFlags := if a.stored then opened.internalFlags else opened.internalFlags ||| groDiscardSegSet }
  if opened.internalFlags &&& (groFlushAggSet ||| groDiscardSegSet) ≠ 0 then
    let (status, opened) :=
      if opened.internalFlags &&& groDiscardSegSet ≠ 0 then (segDiscarded, { opened with segNum := 0, internalFlags := 0 })
      else (flushRequired, { opened with segNum := 1 })
    match timers.tmanDeleteTimer ctx.timerHandle with
    | none => none
    | some (false, timers) =>
      let opened := { opened with internalFlags := opened.internalFlags ||| groAggTimerInProcess }
      if opened.internalFlags &&& groDiscardSegSet ≠ 0 then
        some ⟨.bits (segAggTimerInProcess ||| status), none, { opened with aggFd := out }, timers⟩
      else some ⟨.bits (segAggDone ||| status), some out, opened, timers⟩
    | some (true, timers) =>
      some ⟨.bits (segAggDone ||| status), some out,
        { opened with timerHandle := invalidTmanHandle, timestamp := 0 }, timers⟩
  else
    match timers.tmanDeleteTimer ctx.timerHandle with
    | none => none
    | some (_, timers) =>
      match timers.tmanCreateTimer a.created with
      | none => none
      | some (none, timers) =>
        some ⟨.bits (segAggDone ||| flushRequired ||| timerUnavail), some out,
          { opened with timerHandle := invalidTmanHandle, segNum := 1 }, timers⟩
      | some (some handle, timers) =>
        some ⟨.bits (segAggDoneAggOpen ||| metadataUsed), some out,
          { opened with timerHandle := handle, limits := limits, segNum := 1 }, timers⟩

def tcpGroAddSegAndCloseAggregation (ctx : GroContext) (timers : Timers) (arrival : Arrival) (a : Answers) :
    Option Outcome :=
  let s := arrival.segment
  match timers.tmanDeleteTimer ctx.timerHandle with
  | none => none
  | some (deleted, timers) =>
    let joined := joinFrames ctx.aggFd arrival a
    let status := if a.concatenated then 0 else segDiscarded
    let joined := { joined with
      bytes := updateHeaders ctx.flags a.tcpChecksum s.pr (some s.lastSegFields) joined.bytes }
    let ctx := { ctx with
      lastSegFields := s.lastSegFields
      segNum := if a.concatenated then ctx.segNum + 1 else ctx.segNum }
    if deleted then
      some ⟨.bits (segAggDone ||| status), some joined,
        { ctx with timerHandle := invalidTmanHandle, segNum := 0, internalFlags := 0, timestamp := 0 }, timers⟩
    else
      some ⟨.bits (segAggTimerInProcess ||| status), none,
        { ctx with
          aggFd := { joined with bytes := if a.stored then joined.bytes else a.remains }
          internalFlags := groAggTimerInProcess }, timers⟩

def addSeg (ctx : GroContext) (timers : Timers) (arrival : Arrival) (a : Answers) : Outcome :=
  let s := arrival.segment
  let joined := joinFrames ctx.aggFd arrival a
  if a.concatenated then
    ⟨.bits segAggNotDone, none, { ctx with
      aggFd := joined
      nextSeq := ctx.nextSeq + s.segSize.setWidth 32 - s.headersSize.setWidth 32
      lastSegFields := s.lastSegFields
      segNum := ctx.segNum + 1 }, timers⟩
  else if a.stored then ⟨.bits (flushRequired ||| segDiscarded), none, { ctx with aggFd := joined }, timers⟩
  else ⟨.bits aggDiscarded, none, { ctx with segNum := 0, internalFlags := 0, timestamp := 0 }, timers⟩

def Continues (ctx : GroContext) (s : Segment) : Prop :=
  ctx.nextSeq = s.sequenceNumber ∧ ctx.internalFlags.setWidth 32 &&& groEcnMask = s.ecn ∧
    ctx.timestamp = s.timestamp ∧
    ctx.lastSegFields.acknowledgmentNumber ≤ s.lastSegFields.acknowledgmentNumber ∧
    ctx.internalFlags &&& groFlushAggSet = 0

instance (ctx : GroContext) (s : Segment) : Decidable (Continues ctx s) :=
  inferInstanceAs (Decidable (_ ∧ _ ∧ _ ∧ _ ∧ _))

def aggregatedSize (ctx : GroContext) (s : Segment) : BitVec 16 :=
  BitVec.ofNat 16 ctx.aggFd.bytes.length + s.segSize - s.headersSize

def Closes (ctx : GroContext) (s : Segment) : Prop :=
  aggregatedSize ctx s = ctx.limits.packetSizeLimit ∨
    ctx.segNum.toNat + 1 = ctx.limits.segNumLimit.toNat ∨ s.psh

instance (ctx : GroContext) (s : Segment) : Decidable (Closes ctx s) := inferInstanceAs (Decidable (_ ∨ _ ∨ _))

def tcpGroAddSegToAggregation (ctx : GroContext) (timers : Timers) (limits : Limits) (arrival : Arrival)
    (a : Answers) : Option Outcome :=
  let s := arrival.segment
  if ¬ Continues ctx s then tcpGroCloseAggregationAndOpenNewAggregation ctx timers limits arrival a
  else if ctx.limits.packetSizeLimit < aggregatedSize ctx s then
    tcpGroCloseAggregationAndOpenNewAggregation ctx timers limits arrival a
  else if Closes ctx s then tcpGroAddSegAndCloseAggregation ctx timers arrival a
  else some (addSeg ctx timers arrival a)

def tcpGroAggregateSeg (ctx : GroContext) (timers : Timers) (limits : Limits) (flags : BitVec 32)
    (arrival : Arrival) (a : Answers) : Option Outcome :=
  let s := arrival.segment
  if s.error then some ⟨.eio, some arrival.frame, ctx, timers⟩
  else if ctx.segNum ≠ 0 then tcpGroAddSegToAggregation ctx timers limits arrival a
  else if flushes limits s ∨ ctx.internalFlags &&& (groAggTimerInProcess ||| groFlushAggSet) ≠ 0 then
    some ⟨.bits segAggDone, some arrival.frame, ctx, timers⟩
  else
    match timers.tmanCreateTimer a.created with
    | none => none
    | some (none, timers) => some ⟨.bits (segAggDone ||| timerUnavail), some arrival.frame, ctx, timers⟩
    | some (some handle, timers) =>
      -- The timer stays behind, and the context does not know it.
      if ¬ a.stored then some ⟨.enomem, some arrival.frame, ctx, timers⟩
      else
        some ⟨.bits (segAggNotDone ||| metadataUsed), none, { ctx with
          aggFd := arrival.frame
          segNum := 1
          lastSegFields := { ctx.lastSegFields with acknowledgmentNumber := s.lastSegFields.acknowledgmentNumber }
          timestamp := if tcpHdrLength < s.dataOffset then s.timestamp else ctx.timestamp
          nextSeq := s.sequenceNumber + s.segSize.setWidth 32 - s.headersSize.setWidth 32
          flags := flags
          timerHandle := handle
          internalFlags := ctx.internalFlags ||| s.hasTimestamp ||| s.ecn.setWidth 16
          limits := limits }, timers⟩

def tcpGroFlushAggregation (ctx : GroContext) (timers : Timers) (checksum : List Byte → BitVec 16) : Option Outcome :=
  if ctx.segNum = 0 then some ⟨.bits flushNoAgg, none, ctx, timers⟩
  else
    match if ctx.timerHandle = invalidTmanHandle then some (true, timers) else timers.tmanDeleteTimer ctx.timerHandle with
    | none => none
    | some (false, timers) =>
      some ⟨.bits segAggTimerInProcess, none, { ctx with internalFlags := groAggTimerInProcess }, timers⟩
    | some (true, timers) =>
      let out := if ctx.internalFlags &&& groFlushAggSet ≠ 0 then ctx.aggFd
        else finishFrame ctx checksum (if ctx.segNum = 1 then none else some ctx.lastSegFields)
      some ⟨.bits flushAggDone, some out,
        { ctx with timerHandle := invalidTmanHandle, segNum := 0, internalFlags := 0, timestamp := 0 }, timers⟩

def tcpGroTimeoutCallback (ctx : GroContext) (timers : Timers) (handle : BitVec 32)
    (checksum : List Byte → BitVec 16) : Outcome :=
  let timers := timers.tmanTimerCompletionConfirmation ctx.timerHandle
  if ctx.timerHandle ≠ handle &&& timerHandleMask ∨ ctx.segNum = 0 then ⟨.bits 0, none, ctx, timers⟩
  else
    ⟨.bits 0, some (finishFrame ctx checksum (if ctx.segNum = 1 then none else some ctx.lastSegFields)),
      { ctx with segNum := 0, internalFlags := 0, timestamp := 0 }, timers⟩

end Flexbuild.TcpAggregation
