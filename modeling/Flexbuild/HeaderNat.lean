import Flexbuild.HeaderL4

/-! Network address translation (`nat.c`): the addresses of the outer IP header, the ports and the
numbers of the TCP header. What was edited is written back at the end, or before an error. -/
namespace Flexbuild.HeaderModification
open ByteMemory (Memory)

def natL4Checksum : BitVec 8 := 0x01
def natModifyIpSrc : BitVec 8 := 0x02
def natModifyIpDst : BitVec 8 := 0x04
def natModifyL4Src : BitVec 8 := 0x08
def natModifyL4Dst : BitVec 8 := 0x10
def natModifySeqnum : BitVec 8 := 0x20
def natModifyAcknum : BitVec 8 := 0x40

def ipv4HdrCksum : Nat := 10
def ipv4SrcAddr : Nat := 12
def ipv4DstAddr : Nat := 16
def ipv6SrcAddr : Nat := 8
def ipv6DstAddr : Nat := 24
def ipv6AddrSize : Nat := 32

structure NatL4Args where
  srcPort : BitVec 16
  dstPort : BitVec 16
  seqNumDelta : BitVec 16
  ackNumDelta : BitVec 16
  deriving DecidableEq, Repr

def natCksum (pr : ParseResult) (t : Nat) : Nat := t + if pr.isTcp then tcpChecksum else udpChecksum

def natIpv4Address (checksum : Bool) (pr : ParseResult) (ip t field : Nat) (addr : BitVec 32)
    (m : Memory) : Memory :=
  let oldHeader := full m (ip + field)
  let m := putFull m (ip + field) addr
  let m := updateCksum m (ip + ipv4HdrCksum) oldHeader (full m (ip + field))
  if checksum && !pr.isTunneledIp then
    updateCksum m (natCksum pr t) oldHeader (full m (ip + field))
  else m

def natIpv6Word (checksum : Bool) (pr : ParseResult) (t at_ : Nat) (addr : BitVec 32) (m : Memory) :
    Memory :=
  let oldHeader := full m at_
  let m := putFull m at_ addr
  if checksum && !pr.isTunneledIp then updateCksum m (natCksum pr t) oldHeader (full m at_) else m

scoped instance addressWords : NeZero 4 := ⟨by decide⟩

def natIpv6Address (checksum : Bool) (pr : ParseResult) (t at_ : Nat) (addr : Fin 4 → BitVec 32)
    (m : Memory) : Memory :=
  let m := natIpv6Word checksum pr t at_ (addr 0) m
  let m := natIpv6Word checksum pr t (at_ + 4) (addr 1) m
  let m := natIpv6Word checksum pr t (at_ + 8) (addr 2) m
  natIpv6Word checksum pr t (at_ + 12) (addr 3) m

def natPorts (flags : BitVec 8) (pr : ParseResult) (args : NatL4Args) (t : Nat) (m : Memory) :
    Memory :=
  let oldHeader := full m t
  let m := putPorts (flag flags natModifyL4Src) (flag flags natModifyL4Dst) args.srcPort args.dstPort t m
  if flag flags natL4Checksum && flag flags (natModifyL4Src ||| natModifyL4Dst) then
    updateCksum m (natCksum pr t) oldHeader (full m t)
  else m

def natNumber (checksum modify : Bool) (pr : ParseResult) (t number : Nat) (delta : BitVec 16)
    (m : Memory) : Option Memory :=
  if modify then
    if pr.isTcp then some (addDelta checksum t number delta m) else none
  else some m

def natL4 (flags : BitVec 8) (pr : ParseResult) (args : NatL4Args) (t : Nat) (m : Memory) :
    Memory × Bool :=
  let checksum := flag flags natL4Checksum
  let m := natPorts flags pr args t m
  match natNumber checksum (flag flags natModifySeqnum) pr t tcpSequenceNumber args.seqNumDelta m with
  | none => (m, false)
  | some m =>
      match natNumber checksum (flag flags natModifyAcknum) pr t tcpAcknowledgmentNumber
          args.ackNumDelta m with
      | none => (m, false)
      | some m => (m, true)

def natIpv4Addresses (flags : BitVec 8) (pr : ParseResult) (ip t : Nat) (src dst : BitVec 32)
    (m : Memory) : Memory :=
  let checksum := flag flags natL4Checksum
  let m := if flag flags natModifyIpSrc then natIpv4Address checksum pr ip t ipv4SrcAddr src m else m
  if flag flags natModifyIpDst then natIpv4Address checksum pr ip t ipv4DstAddr dst m else m

-- `modify_size` is a `uint8_t`.
def natIpv4 (pr : ParseResult) (flags : BitVec 8) (src dst : BitVec 32) (args : NatL4Args)
    (w : Workspace) : Status × Workspace :=
  if (pr.isTcp || pr.isUdp) = false ∨ pr.isOuterIpv4 = false then (.noL4IpFound, w)
  else
    let t := pr.l4Offset.toNat
    let ip := pr.l3Offset.toNat
    let modifySize := (pr.l4Offset - pr.l3Offset + BitVec.ofNat 8 tcpNoOptionSize).toNat
    let edited := natL4 flags pr args t (natIpv4Addresses flags pr ip t src dst w.seg)
    (if edited.2 then .success else .noTcpFound,
      { w with seg := edited.1 }.fdmaModify ip modifySize)

def natIpv6Addresses (flags : BitVec 8) (pr : ParseResult) (ip t : Nat)
    (src dst : Fin 4 → BitVec 32) (m : Memory) : Memory :=
  let checksum := flag flags natL4Checksum
  let m :=
    if flag flags natModifyIpSrc then natIpv6Address checksum pr t (ip + ipv6SrcAddr) src m else m
  if flag flags natModifyIpDst then natIpv6Address checksum pr t (ip + ipv6DstAddr) dst m else m

-- `modify_offset` is a `uint8_t`; without TCP only the addresses are written back.
def natIpv6 (pr : ParseResult) (flags : BitVec 8) (src dst : Fin 4 → BitVec 32) (args : NatL4Args)
    (w : Workspace) : Status × Workspace :=
  if (pr.isTcp || pr.isUdp) = false ∨ pr.isOuterIpv6 = false then (.noL4IpFound, w)
  else
    let t := pr.l4Offset.toNat
    let ip := pr.l3Offset.toNat
    let modifyOffset := (pr.l3Offset + 8).toNat
    let edited := natL4 flags pr args t (natIpv6Addresses flags pr ip t src dst w.seg)
    if edited.2 then
      (.success, { w with seg := edited.1 }.fdmaModify modifyOffset
        (((t : Int) - modifyOffset + tcpNoOptionSize) % 2 ^ 16).toNat)
    else (.noTcpFound, { w with seg := edited.1 }.fdmaModify modifyOffset ipv6AddrSize)

end Flexbuild.HeaderModification
