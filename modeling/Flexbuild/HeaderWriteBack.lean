import Flexbuild.HeaderNatEdits

/-! Header modification as a whole: after a call the presented segment is again what the frame
holds, but for the four ways out on which bytes are left behind in the segment. -/
namespace Flexbuild.HeaderModification
open ByteMemory (Memory)

inductive Call where
  | natIpv4 (flags : BitVec 8) (src dst : BitVec 32) (args : NatL4Args)
  | natIpv6 (flags : BitVec 8) (src dst : Fin 4 → BitVec 32) (args : NatL4Args)
  | ipv4 (flags : BitVec 8) (args : Ipv4Args)
  | ipv6 (flags : BitVec 8) (args : Ipv6Args)
  | udp (flags : BitVec 8) (srcPort dstPort : BitVec 16)
  | tcp (flags : BitVec 8) (args : TcpArgs)

def Call.run (hw : Hardware) (pr : ParseResult) (fuel : Nat) (w : Workspace) :
    Call → Option (Status × Workspace)
  | .natIpv4 flags src dst args => some (HeaderModification.natIpv4 pr flags src dst args w)
  | .natIpv6 flags src dst args => some (HeaderModification.natIpv6 pr flags src dst args w)
  | .ipv4 flags args => some (ipv4HeaderModification hw pr flags args w)
  | .ipv6 flags args => some (ipv6HeaderModification hw pr flags args w)
  | .udp flags srcPort dstPort => some (l4UdpHeaderModification hw pr flags srcPort dstPort w)
  | .tcp flags args => (l4TcpHeaderModification fuel pr flags args w).map fun call => (call.status, call.workspace)

def Call.WritesBack (pr : ParseResult) (len : Nat) (m : Memory) : Call → Prop
  | .natIpv4 flags src dst args =>
      (pr.isTcp || pr.isUdp) = true → pr.isOuterIpv4 = true →
        256 ≤ pr.l4Offset.toNat - pr.l3Offset.toNat + 20 →
        NatIpv4Kept flags pr src dst args pr.l3Offset.toNat pr.l4Offset.toNat
          (pr.l4Offset.toNat - pr.l3Offset.toNat + 20 - 256) m
  | .natIpv6 flags src dst args =>
      (pr.isTcp || pr.isUdp) = true → pr.isOuterIpv6 = true → natCompletes flags pr = false →
        NatL4Kept flags pr args pr.l4Offset.toNat (natIpv6Changes flags pr pr.l3Offset.toNat src dst m) m
  | .ipv4 flags args =>
      pr.isOuterIpv4 = true → (flag flags ipv4L4Checksum &&
          (flag flags ipv4ModifySrc || flag flags ipv4ModifyDst)) = true →
        pr.isUdp = false → pr.isTcp = false → Ipv4Kept flags args pr.l3Offset.toNat m
  | .ipv6 _ _ => True
  | .udp _ _ _ => True
  | .tcp flags args =>
      pr.isTcp = true → flag flags tcpModifyMss = true → pr.isTcpOptions = true →
        MssKept len pr.l4Offset.toNat args.mss m

theorem callPresented (hw : Hardware) (pr : ParseResult) (len fuel : Nat) (call : Call) (w w' : Workspace)
    (status : Status) (parsed : Parsed pr len) (presented : Presented len w)
    (returned : call.run hw pr fuel w = some (status, w')) :
    Presented len w' ↔ call.WritesBack pr len w.seg := by
  cases call with
  | natIpv4 flags src dst args =>
    obtain ⟨-, rfl⟩ := Prod.mk.inj (Option.some.inj returned).symm
    exact natIpv4Presented parsed presented
  | natIpv6 flags src dst args =>
    obtain ⟨-, rfl⟩ := Prod.mk.inj (Option.some.inj returned).symm
    exact natIpv6Presented parsed presented
  | ipv4 flags args =>
    obtain ⟨-, rfl⟩ := Prod.mk.inj (Option.some.inj returned).symm
    exact ipv4Presented parsed presented
  | ipv6 flags args =>
    obtain ⟨-, rfl⟩ := Prod.mk.inj (Option.some.inj returned).symm
    exact iff_of_true (ipv6Presented presented) trivial
  | udp flags srcPort dstPort =>
    obtain ⟨-, rfl⟩ := Prod.mk.inj (Option.some.inj returned).symm
    exact iff_of_true (udpPresented parsed presented) trivial
  | tcp flags args =>
    obtain ⟨tcpCall, made, same⟩ := Option.map_eq_some_iff.mp returned
    obtain ⟨-, rfl⟩ := Prod.mk.inj same
    exact tcpPresented presented made

def zeroFrame : Workspace := ⟨fun _ => 0, fun _ => 0⟩

def quietHardware : Hardware := ⟨fun _ _ _ => 0, fun _ _ => (0, 0)⟩

def udpOverIpv6 : ParseResult := ⟨false, true, false, false, true, false, 0, 40⟩

def otherOverIpv4 : ParseResult := ⟨false, false, false, true, false, false, 0, 20⟩

def sourcePort (port : BitVec 16) : NatL4Args := ⟨port, 0, 0, 0⟩

theorem udpOverIpv6Parsed : Parsed udpOverIpv6 48 := by
  constructor <;> decide

theorem callPresentedUdp :
    Presented 48 (natIpv6 udpOverIpv6 (natModifyL4Src ||| natModifySeqnum) (fun _ => 0) (fun _ => 0)
      (sourcePort 7) zeroFrame).2 ↔
    (Call.natIpv6 (natModifyL4Src ||| natModifySeqnum) (fun _ => 0) (fun _ => 0) (sourcePort 7)).WritesBack
      udpOverIpv6 48 zeroFrame.seg :=
  callPresented quietHardware udpOverIpv6 48 0
    (.natIpv6 (natModifyL4Src ||| natModifySeqnum) (fun _ => 0) (fun _ => 0) (sourcePort 7)) zeroFrame _
    .noTcpFound udpOverIpv6Parsed (fun _ _ => rfl) rfl

theorem notWrittenBack :
    (Parsed udpOverIpv6 48 ∧ Presented 48 zeroFrame ∧
      ¬ Presented 48 (natIpv6 udpOverIpv6 (natModifyL4Src ||| natModifySeqnum) (fun _ => 0) (fun _ => 0)
        (sourcePort 7) zeroFrame).2) ∧
    Parsed otherOverIpv4 20 ∧ Presented 20 zeroFrame ∧
      ¬ Presented 20 (ipv4HeaderModification quietHardware otherOverIpv4 (ipv4ModifySrc ||| ipv4L4Checksum)
        ⟨0, 0, 1, 0⟩ zeroFrame).2 := by
  refine ⟨⟨udpOverIpv6Parsed, fun _ _ => rfl, fun again => ?_⟩, by constructor <;> decide, fun _ _ => rfl,
    fun again => ?_⟩
  · exact absurd (again 41 (by decide)) (by decide)
  · exact absurd (again 15 (by decide)) (by decide)

end Flexbuild.HeaderModification
