import Flexbuild.HeaderL4

/-! Modification of the outer IP header (`ip.c`). The header checksum of IPv4 is computed by the
FDMA over the frame; layer 4 checksums follow the addresses. -/
namespace Flexbuild.HeaderModification
open ByteMemory (Memory store)
open Checksums (cksumAccumulativeUpdateUint32 cksumOnesComplementSum16)

def ipv4L4Checksum : BitVec 8 := 0x01
def ipv4ModifyTtl : BitVec 8 := 0x02
def ipv4ModifyTos : BitVec 8 := 0x04
def ipv4ModifyId : BitVec 8 := 0x08
def ipv4ModifySrc : BitVec 8 := 0x10
def ipv4ModifyDst : BitVec 8 := 0x20

-- `ip_cksum_calculate` with `IP_CKSUM_CALC_MODE_NONE`, for a header at `ip`.
def ipCksumCalculate (hw : Hardware) (ip : Nat) (w : Workspace) : Workspace :=
  let ihl := 4 * (w.seg ip &&& 0x0F).toNat
  let runningSum := hw.frameChecksum w.frame ip ihl
  let runningSum := cksumOnesComplementSum16 (~~~runningSum) (half w.seg (ip + 10))
  { w with seg := putHalf w.seg (ip + 10) runningSum }.fdmaModify (ip + 10) 2

structure Ipv4Args where
  tos : BitVec 8
  id : BitVec 16
  srcAddr : BitVec 32
  dstAddr : BitVec 32
  deriving DecidableEq, Repr

def ipv4Fields (flags : BitVec 8) (args : Ipv4Args) (ip : Nat) (m : Memory) :
    Memory × BitVec 16 × Bool :=
  let m := putHalf m (ip + 10) 0
  let m := if flag flags ipv4ModifyTtl then putByte m (ip + 8) (m (ip + 8) - 1) else m
  let m := if flag flags ipv4ModifyTos then putByte m (ip + 1) args.tos else m
  let m := if flag flags ipv4ModifyId then putHalf m (ip + 4) args.id else m
  let sum : BitVec 16 := 0
  let src := flag flags ipv4ModifySrc
  let dst := flag flags ipv4ModifyDst
  let l4 := flag flags ipv4L4Checksum
  let sum := if src && l4 then cksumAccumulativeUpdateUint32 sum (full m (ip + 12)) args.srcAddr else sum
  let m := if src then putFull m (ip + 12) args.srcAddr else m
  let sum := if dst && l4 then cksumAccumulativeUpdateUint32 sum (full m (ip + 16)) args.dstAddr else sum
  let m := if dst then putFull m (ip + 16) args.dstAddr else m
  (m, sum, l4 && (src || dst))

def ipv4HeaderModification (hw : Hardware) (pr : ParseResult) (flags : BitVec 8) (args : Ipv4Args)
    (w : Workspace) : Status × Workspace :=
  if pr.isOuterIpv4 then
    let ip := pr.l3Offset.toNat
    let (seg, sum, l4Update) := ipv4Fields flags args ip w.seg
    let w := { w with seg := seg }
    if l4Update then
      let l4 := pr.l4Offset.toNat
      if pr.isUdp then
        if half seg (l4 + 6) ≠ 0 then
          let w := { w with seg := putHalf seg (l4 + 6) (cksumOnesComplementSum16 (half seg (l4 + 6)) sum) }
          (.success, ipCksumCalculate hw ip
            (w.fdmaModify ip (((l4 : Int) - ip + 8) % 2 ^ 16).toNat))
        else (.success, ipCksumCalculate hw ip (w.fdmaModify ip 20))
      else if pr.isTcp then
        let w := { w with seg := putHalf seg (l4 + 16) (cksumOnesComplementSum16 (half seg (l4 + 16)) sum) }
        (.success, ipCksumCalculate hw ip
          (w.fdmaModify ip (((l4 : Int) - ip + 18) % 2 ^ 16).toNat))
      else (.success, w)
    else (.success, ipCksumCalculate hw ip (w.fdmaModify ip 20))
  else (.noIpHdr, w)

def ipv6L4Checksum : BitVec 8 := 0x01
def ipv6ModifyHl : BitVec 8 := 0x02
def ipv6ModifyTc : BitVec 8 := 0x04
def ipv6ModifyFlowLabel : BitVec 8 := 0x08
def ipv6ModifySrc : BitVec 8 := 0x10
def ipv6ModifyDst : BitVec 8 := 0x20
def ipv6TcMask : BitVec 32 := 0xf00fffff
def ipv6FlowMask : BitVec 32 := 0xfff00000

structure Ipv6Args where
  tc : BitVec 8
  flowLabel : BitVec 32
  srcAddr : Fin 16 → BitVec 8
  dstAddr : Fin 16 → BitVec 8

def ipv6Fields (flags : BitVec 8) (args : Ipv6Args) (ip : Nat) (m : Memory) : Memory :=
  let m := if flag flags ipv6ModifyHl then putByte m (ip + 7) (m (ip + 7) - 1) else m
  let m :=
    if flag flags ipv6ModifyTc then
      putFull m ip (full m ip &&& ipv6TcMask ||| args.tc.setWidth 32 <<< 20)
    else m
  let m :=
    if flag flags ipv6ModifyFlowLabel then putFull m ip (full m ip &&& ipv6FlowMask ||| args.flowLabel)
    else m
  let m := if flag flags ipv6ModifySrc then store m (ip + 8) (List.ofFn args.srcAddr) else m
  if flag flags ipv6ModifyDst then store m (ip + 24) (List.ofFn args.dstAddr) else m

-- The layer 4 checksum at `cs`, with the sum over the old addresses.
def ipv6L4Cksum (hw : Hardware) (ip cs : Nat) (oldSum : BitVec 16) (w : Workspace) : Workspace :=
  let l4Checksum := cksumOnesComplementSum16 oldSum (half w.seg cs)
  let checksum := hw.frameChecksum w.frame (ip + 8) 32
  let l4Checksum := cksumOnesComplementSum16 l4Checksum (~~~checksum)
  { w with seg := putHalf w.seg cs l4Checksum }.fdmaModify cs 2

-- The flag of the checksum is bit 0, so that `&` with the condition does what `&&` would.
def ipv6HeaderModification (hw : Hardware) (pr : ParseResult) (flags : BitVec 8) (args : Ipv6Args)
    (w : Workspace) : Status × Workspace :=
  if pr.isOuterIpv6 then
    let ip := pr.l3Offset.toNat
    let addresses : BitVec 8 := if flag flags ipv6ModifySrc || flag flags ipv6ModifyDst then 1 else 0
    let l4Update := decide ((flags &&& ipv6L4Checksum) &&& addresses ≠ 0)
    let oldSum := hw.frameChecksum w.frame (ip + 8) 32
    let w := { w with seg := ipv6Fields flags args ip w.seg }.fdmaModify ip 40
    if l4Update then
      let l4 := pr.l4Offset.toNat
      if pr.isUdp then
        if half w.seg (l4 + 6) ≠ 0 then (.success, ipv6L4Cksum hw ip (l4 + 6) oldSum w)
        else (.success, w)
      else if pr.isTcp then (.success, ipv6L4Cksum hw ip (l4 + 16) oldSum w)
      else (.success, w)
    else (.success, w)
  else (.noIpHdr, w)

end Flexbuild.HeaderModification
