import Flexbuild.HeaderEdits
import Flexbuild.HeaderNat

/-! What the translation of addresses, ports and numbers touches: the bytes that stay, the values
of the fields, and the checksums as updates by the words that change. -/
namespace Flexbuild.HeaderModification
open ByteMemory (Memory)
open Checksums (cksumUpdateUint32)

def cksumAfter (cksum : BitVec 16) (changes : List (BitVec 32 × BitVec 32)) : BitVec 16 :=
  changes.foldl (fun c change => cksumUpdateUint32 c change.1 change.2) cksum

theorem cksumAfterAppend (cksum : BitVec 16) (first second : List (BitVec 32 × BitVec 32)) :
    cksumAfter cksum (first ++ second) = cksumAfter (cksumAfter cksum first) second :=
  List.foldl_append

section NatAddresses

variable {pr : ParseResult} {flags : BitVec 8} {checksum : Bool} {ip t at_ field i : Nat} {m : Memory}

theorem natCksumBounds (pr : ParseResult) (t : Nat) : t + 6 ≤ natCksum pr t ∧ natCksum pr t + 2 ≤ t + 18 := by
  unfold natCksum tcpChecksum udpChecksum
  split <;> omega

structure Edited (cs : Nat) (touched : Nat → Prop) (changes : List (BitVec 32 × BitVec 32))
    (m edited : Memory) : Prop where
  elsewhere : ∀ i, ¬ touched i → i < cs ∨ cs + 2 ≤ i → edited i = m i
  cksum : half edited cs = cksumAfter (half m cs) changes

theorem Edited.then {cs : Nat} {touched touched' : Nat → Prop} {changes changes' : List (BitVec 32 × BitVec 32)}
    {m m' m'' : Memory} (first : Edited cs touched changes m m') (second : Edited cs touched' changes' m' m'') :
    Edited cs (fun i => touched i ∨ touched' i) (changes ++ changes') m m'' := by
  refine ⟨fun i out apart => ?_, ?_⟩
  · rw [second.elsewhere i (fun t => out (.inr t)) apart, first.elsewhere i (fun t => out (.inl t)) apart]
  · rw [second.cksum, first.cksum, cksumAfterAppend]

theorem natIpv6WordEdited (addr : BitVec 32) (behind : at_ + 4 ≤ t) :
    Edited (natCksum pr t) (fun i => at_ ≤ i ∧ i < at_ + 4)
      (if checksum && !pr.isTunneledIp then [(full m at_, addr)] else [])
      m (natIpv6Word checksum pr t at_ addr m) := by
  have bounds := natCksumBounds pr t
  have kept : half (putFull m at_ addr) (natCksum pr t) = half m (natCksum pr t) :=
    halfCongr fun i low high => putFullElsewhere (by omega)
  simp only [natIpv6Word, fullPut]
  split
  · refine ⟨fun i out apart => ?_, ?_⟩
    · rw [updateCksumElsewhere apart, putFullElsewhere (by omega)]
    · rw [updateCksumHalf, kept]
      rfl
  · exact ⟨fun i out apart => putFullElsewhere (by omega), kept⟩

def ipv6Changes (m : Memory) (at_ : Nat) (addr : Fin 4 → BitVec 32) : List (BitVec 32 × BitVec 32) :=
  [(full m at_, addr 0), (full m (at_ + 4), addr 1), (full m (at_ + 8), addr 2),
    (full m (at_ + 12), addr 3)]

theorem natIpv6AddressEdited (addr : Fin 4 → BitVec 32) (behind : at_ + 16 ≤ t) :
    Edited (natCksum pr t) (fun i => at_ ≤ i ∧ i < at_ + 16)
      (if checksum && !pr.isTunneledIp then ipv6Changes m at_ addr else [])
      m (natIpv6Address checksum pr t at_ addr m) := by
  have bounds := natCksumBounds pr t
  unfold natIpv6Address
  dsimp only
  have first := @natIpv6WordEdited pr checksum t at_ m (addr 0) (by omega)
  generalize natIpv6Word checksum pr t at_ (addr 0) m = m1 at first
  have second := @natIpv6WordEdited pr checksum t (at_ + 4) m1 (addr 1) (by omega)
  generalize natIpv6Word checksum pr t (at_ + 4) (addr 1) m1 = m2 at second
  have third := @natIpv6WordEdited pr checksum t (at_ + 8) m2 (addr 2) (by omega)
  generalize natIpv6Word checksum pr t (at_ + 8) (addr 2) m2 = m3 at third
  have last := @natIpv6WordEdited pr checksum t (at_ + 12) m3 (addr 3) (by omega)
  have word1 : full m1 (at_ + 4) = full m (at_ + 4) :=
    fullCongr fun i low high => first.elsewhere i (by omega) (by omega)
  have word2 : full m2 (at_ + 8) = full m (at_ + 8) :=
    fullCongr fun i low high =>
      (second.elsewhere i (by omega) (by omega)).trans (first.elsewhere i (by omega) (by omega))
  have word3 : full m3 (at_ + 12) = full m (at_ + 12) :=
    fullCongr fun i low high => (third.elsewhere i (by omega) (by omega)).trans
      ((second.elsewhere i (by omega) (by omega)).trans (first.elsewhere i (by omega) (by omega)))
  rw [word1] at second
  rw [word2] at third
  rw [word3] at last
  have whole := ((first.then second).then third).then last
  refine ⟨fun i out apart => whole.elsewhere i (by omega) apart, ?_⟩
  rw [whole.cksum]
  split <;> rfl

def natIpv6Changes (flags : BitVec 8) (pr : ParseResult) (ip : Nat) (src dst : Fin 4 → BitVec 32)
    (m : Memory) : List (BitVec 32 × BitVec 32) :=
  if flag flags natL4Checksum && !pr.isTunneledIp then
    (if flag flags natModifyIpSrc then ipv6Changes m (ip + ipv6SrcAddr) src else []) ++
      (if flag flags natModifyIpDst then ipv6Changes m (ip + ipv6DstAddr) dst else [])
  else []

theorem natIpv6AddressesEdited (src dst : Fin 4 → BitVec 32) (behind : ip + 40 ≤ t) :
    Edited (natCksum pr t) (fun i => ip + 8 ≤ i ∧ i < ip + 40) (natIpv6Changes flags pr ip src dst m)
      m (natIpv6Addresses flags pr ip t src dst m) := by
  have bounds := natCksumBounds pr t
  simp only [natIpv6Addresses, natIpv6Changes, ipv6SrcAddr, ipv6DstAddr]
  have first : Edited (natCksum pr t) (fun i => ip + 8 ≤ i ∧ i < ip + 24)
      (if flag flags natL4Checksum && !pr.isTunneledIp then
        if flag flags natModifyIpSrc then ipv6Changes m (ip + 8) src else [] else [])
      m (if flag flags natModifyIpSrc then
        natIpv6Address (flag flags natL4Checksum) pr t (ip + 8) src m else m) := by
    by_cases set : flag flags natModifyIpSrc = true
    · simp only [if_pos set]
      have address := @natIpv6AddressEdited pr (flag flags natL4Checksum) t (ip + 8) m src (by omega)
      exact ⟨fun i out apart => address.elsewhere i (by omega) apart, address.cksum⟩
    · simp only [if_neg set, ite_self]
      exact ⟨fun _ _ _ => rfl, rfl⟩
  generalize (if flag flags natModifyIpSrc then
    natIpv6Address (flag flags natL4Checksum) pr t (ip + 8) src m else m) = m1 at first
  have words : ipv6Changes m1 (ip + 24) dst = ipv6Changes m (ip + 24) dst := by
    have same : ∀ a, ip + 24 ≤ a → a + 4 ≤ ip + 40 → full m1 a = full m a := fun a low high =>
      fullCongr fun i low' high' => first.elsewhere i (by omega) (by omega)
    unfold ipv6Changes
    rw [same _ (by omega) (by omega), same _ (by omega) (by omega), same _ (by omega) (by omega),
      same _ (by omega) (by omega)]
  have second : Edited (natCksum pr t) (fun i => ip + 24 ≤ i ∧ i < ip + 40)
      (if flag flags natL4Checksum && !pr.isTunneledIp then
        if flag flags natModifyIpDst then ipv6Changes m (ip + 24) dst else [] else [])
      m1 (if flag flags natModifyIpDst then
        natIpv6Address (flag flags natL4Checksum) pr t (ip + 24) dst m1 else m1) := by
    rw [← words]
    by_cases set : flag flags natModifyIpDst = true
    · simp only [if_pos set]
      have address := @natIpv6AddressEdited pr (flag flags natL4Checksum) t (ip + 24) m1 dst (by omega)
      exact ⟨fun i out apart => address.elsewhere i (by omega) apart, address.cksum⟩
    · simp only [if_neg set, ite_self]
      exact ⟨fun _ _ _ => rfl, rfl⟩
  have whole := first.then second
  refine ⟨fun i out apart => whole.elsewhere i (by omega) apart, ?_⟩
  rw [whole.cksum]
  split <;> rfl

theorem natIpv4AddressEdited (addr : BitVec 32) (low : ip + 12 ≤ ip + field) (behind : ip + field + 4 ≤ t) :
    Edited (natCksum pr t) (fun i => (ip + 10 ≤ i ∧ i < ip + 12) ∨ (ip + field ≤ i ∧ i < ip + field + 4))
        (if checksum && !pr.isTunneledIp then [(full m (ip + field), addr)] else [])
        m (natIpv4Address checksum pr ip t field addr m) ∧
      half (natIpv4Address checksum pr ip t field addr m) (ip + 10) =
        cksumUpdateUint32 (half m (ip + 10)) (full m (ip + field)) addr ∧
      full (natIpv4Address checksum pr ip t field addr m) (ip + field) = addr := by
  have bounds := natCksumBounds pr t
  have put : ∀ i, i < ip + field ∨ ip + field + 4 ≤ i → putFull m (ip + field) addr i = m i :=
    fun i apart => putFullElsewhere apart
  have there := fullPut m (ip + field) addr
  simp only [natIpv4Address, ipv4HdrCksum, fullPut]
  generalize putFull m (ip + field) addr = m1 at put there
  have header : ∀ i, i < ip + 10 ∨ ip + 12 ≤ i →
      updateCksum m1 (ip + 10) (full m (ip + field)) addr i = m1 i :=
    fun i apart => updateCksumElsewhere (by omega)
  have hdrCksum := updateCksumHalf m1 (ip + 10) (full m (ip + field)) addr
  rw [show half m1 (ip + 10) = half m (ip + 10) from halfCongr fun i low high => put i (by omega)] at hdrCksum
  have field_ : full (updateCksum m1 (ip + 10) (full m (ip + field)) addr) (ip + field) = addr := by
    rw [fullCongr fun i low high => header i (by omega), there]
  rw [field_]
  generalize updateCksum m1 (ip + 10) (full m (ip + field)) addr = m2 at header hdrCksum field_
  have kept : half m2 (natCksum pr t) = half m (natCksum pr t) :=
    halfCongr fun i low high => (header i (by omega)).trans (put i (by omega))
  split
  · refine ⟨⟨fun i out apart => ?_, ?_⟩, ?_, ?_⟩
    · rw [updateCksumElsewhere apart, header i (by omega), put i (by omega)]
    · rw [updateCksumHalf, kept]
      rfl
    · rw [← hdrCksum]
      exact halfCongr fun i low high => updateCksumElsewhere (by omega)
    · rw [fullCongr fun i low high => updateCksumElsewhere (by omega), field_]
  · exact ⟨⟨fun i out apart => (header i (by omega)).trans (put i (by omega)), kept⟩, hdrCksum, field_⟩

def natIpv4HdrChanges (flags : BitVec 8) (ip : Nat) (src dst : BitVec 32) (m : Memory) :
    List (BitVec 32 × BitVec 32) :=
  (if flag flags natModifyIpSrc then [(full m (ip + ipv4SrcAddr), src)] else []) ++
    (if flag flags natModifyIpDst then [(full m (ip + ipv4DstAddr), dst)] else [])

def natIpv4Changes (flags : BitVec 8) (pr : ParseResult) (ip : Nat) (src dst : BitVec 32) (m : Memory) :
    List (BitVec 32 × BitVec 32) :=
  if flag flags natL4Checksum && !pr.isTunneledIp then natIpv4HdrChanges flags ip src dst m else []

structure Ipv4Addressed (flags : BitVec 8) (pr : ParseResult) (ip t : Nat) (src dst : BitVec 32)
    (m m' : Memory) : Prop where
  edited : Edited (natCksum pr t) (fun i => ip + 10 ≤ i ∧ i < ip + 20)
    (natIpv4Changes flags pr ip src dst m) m m'
  hdrCksum : half m' (ip + 10) = cksumAfter (half m (ip + 10)) (natIpv4HdrChanges flags ip src dst m)
  srcAddr : full m' (ip + 12) = if flag flags natModifyIpSrc then src else full m (ip + 12)
  dstAddr : full m' (ip + 16) = if flag flags natModifyIpDst then dst else full m (ip + 16)

theorem natIpv4AddressesEdited (src dst : BitVec 32) (behind : ip + 20 ≤ t) :
    Ipv4Addressed flags pr ip t src dst m (natIpv4Addresses flags pr ip t src dst m) := by
  have bounds := natCksumBounds pr t
  simp only [natIpv4Addresses, ipv4SrcAddr, ipv4DstAddr]
  have address : ∀ (m : Memory) (modify : Bool) (field : Nat) (addr : BitVec 32), 12 ≤ field →
      field + 4 ≤ 20 →
      let m' := if modify then natIpv4Address (flag flags natL4Checksum) pr ip t field addr m else m
      Edited (natCksum pr t) (fun i => (ip + 10 ≤ i ∧ i < ip + 12) ∨ (ip + field ≤ i ∧ i < ip + field + 4))
        (if flag flags natL4Checksum && !pr.isTunneledIp then
          if modify then [(full m (ip + field), addr)] else [] else []) m m' ∧
      half m' (ip + 10) =
        cksumAfter (half m (ip + 10)) (if modify then [(full m (ip + field), addr)] else []) ∧
      full m' (ip + field) = if modify then addr else full m (ip + field) := by
    intro m modify field addr low high
    cases modify with
    | false =>
      simp only [Bool.false_eq_true, if_false, ite_self]
      exact ⟨⟨fun _ _ _ => rfl, rfl⟩, rfl, trivial⟩
    | true =>
      simp only [if_true]
      exact natIpv4AddressEdited addr (by omega) (by omega)
  obtain ⟨first, firstHdr, firstAddr⟩ := address m (flag flags natModifyIpSrc) 12 src (by omega) (by omega)
  generalize (if flag flags natModifyIpSrc then
    natIpv4Address (flag flags natL4Checksum) pr ip t 12 src m else m) = m1 at first firstHdr firstAddr
  obtain ⟨second, secondHdr, secondAddr⟩ :=
    address m1 (flag flags natModifyIpDst) 16 dst (by omega) (by omega)
  have other : full m1 (ip + 16) = full m (ip + 16) :=
    fullCongr fun i low high => first.elsewhere i (by omega) (by omega)
  rw [other] at second secondHdr secondAddr
  generalize (if flag flags natModifyIpDst then
    natIpv4Address (flag flags natL4Checksum) pr ip t 16 dst m1 else m1) = m2 at second secondHdr secondAddr
  have whole := first.then second
  refine ⟨⟨fun i out apart => whole.elsewhere i (by omega) apart, ?_⟩, ?_, ?_, secondAddr⟩
  · rw [whole.cksum]
    unfold natIpv4Changes natIpv4HdrChanges
    split <;> rfl
  · rw [secondHdr, firstHdr, ← cksumAfterAppend]
    rfl
  · rw [← firstAddr]
    exact fullCongr fun i low high => second.elsewhere i (by omega) (by omega)

end NatAddresses

section NatL4

variable {pr : ParseResult} {flags : BitVec 8} {args : NatL4Args} {t i len : Nat} {m m' : Memory}

def newPorts (flags : BitVec 8) (args : NatL4Args) (t : Nat) (m : Memory) : BitVec 32 :=
  (if flag flags natModifyL4Src then args.srcPort else half m t) ++
    (if flag flags natModifyL4Dst then args.dstPort else half m (t + 2))

def natPortsChanges (flags : BitVec 8) (args : NatL4Args) (t : Nat) (m : Memory) :
    List (BitVec 32 × BitVec 32) :=
  if flag flags natL4Checksum && flag flags (natModifyL4Src ||| natModifyL4Dst) then
    [(full m t, newPorts flags args t m)]
  else []

def natNumberChanges (checksum modify : Bool) (t number : Nat) (delta : BitVec 16) (m : Memory) :
    List (BitVec 32 × BitVec 32) :=
  if modify && checksum then
    [(full m (t + number), full m (t + number) + delta.signExtend 32)]
  else []

def natL4Changes (flags : BitVec 8) (pr : ParseResult) (args : NatL4Args) (t : Nat) (m : Memory) :
    List (BitVec 32 × BitVec 32) :=
  natPortsChanges flags args t m ++
    if pr.isTcp then
      natNumberChanges (flag flags natL4Checksum) (flag flags natModifySeqnum) t 4 args.seqNumDelta m ++
        natNumberChanges (flag flags natL4Checksum) (flag flags natModifyAcknum) t 8 args.ackNumDelta m
    else []

structure L4Edited (flags : BitVec 8) (pr : ParseResult) (args : NatL4Args) (t : Nat) (m m' : Memory) :
    Prop where
  edited : Edited (natCksum pr t) (fun i => t ≤ i ∧ i < t + if pr.isTcp then 12 else 4)
    (natL4Changes flags pr args t m) m m'
  srcPort : half m' t = if flag flags natModifyL4Src then args.srcPort else half m t
  dstPort : half m' (t + 2) = if flag flags natModifyL4Dst then args.dstPort else half m (t + 2)
  seqNum : pr.isTcp = true → full m' (t + 4) =
    if flag flags natModifySeqnum then full m (t + 4) + args.seqNumDelta.signExtend 32 else full m (t + 4)
  ackNum : pr.isTcp = true → full m' (t + 8) =
    if flag flags natModifyAcknum then full m (t + 8) + args.ackNumDelta.signExtend 32 else full m (t + 8)

theorem natPortsEdited :
    Edited (natCksum pr t) (fun i => t ≤ i ∧ i < t + 4) (natPortsChanges flags args t m) m
        (natPorts flags pr args t m) ∧
      half (natPorts flags pr args t m) t = (if flag flags natModifyL4Src then args.srcPort else half m t) ∧
      half (natPorts flags pr args t m) (t + 2) =
        if flag flags natModifyL4Dst then args.dstPort else half m (t + 2) := by
  have bounds := natCksumBounds pr t
  have put : ∀ i, i < t ∨ t + 4 ≤ i → putPorts (flag flags natModifyL4Src) (flag flags natModifyL4Dst)
      args.srcPort args.dstPort t m i = m i := fun i apart => putPortsElsewhere apart
  have src : half (putPorts (flag flags natModifyL4Src) (flag flags natModifyL4Dst) args.srcPort
      args.dstPort t m) t = if flag flags natModifyL4Src then args.srcPort else half m t := by
    simp only [putPorts, tcpDstPort]
    rw [halfCongr fun i low high => halfIfElsewhere (by omega), halfIf]
  have dst : half (putPorts (flag flags natModifyL4Src) (flag flags natModifyL4Dst) args.srcPort
      args.dstPort t m) (t + 2) = if flag flags natModifyL4Dst then args.dstPort else half m (t + 2) := by
    simp only [putPorts, tcpDstPort]
    rw [halfIf]
    congr 1
    exact halfCongr fun i low high => halfIfElsewhere (by omega)
  simp only [natPorts, natPortsChanges]
  generalize putPorts (flag flags natModifyL4Src) (flag flags natModifyL4Dst) args.srcPort args.dstPort
    t m = m1 at put src dst
  have ports : full m1 t = newPorts flags args t m := by rw [full, src, dst, newPorts]
  have kept : half m1 (natCksum pr t) = half m (natCksum pr t) :=
    halfCongr fun i low high => put i (by omega)
  split
  · refine ⟨⟨fun i out apart => ?_, ?_⟩, ?_, ?_⟩
    · rw [updateCksumElsewhere apart, put i (by omega)]
    · rw [updateCksumHalf, kept, ports]
      rfl
    · rw [← src]
      exact halfCongr fun i low high => updateCksumElsewhere (by omega)
    · rw [← dst]
      exact halfCongr fun i low high => updateCksumElsewhere (by omega)
  · exact ⟨⟨fun i out apart => put i (by omega), kept⟩, src, dst⟩

theorem addDeltaEdited {checksum modify : Bool} {number : Nat} {delta : BitVec 16} (low : 4 ≤ number)
    (high : number + 4 ≤ 12) :
    Edited (t + 16) (fun i => t + number ≤ i ∧ i < t + number + 4)
        (natNumberChanges checksum modify t number delta m) m
        (if modify then addDelta checksum t number delta m else m) ∧
      full (if modify then addDelta checksum t number delta m else m) (t + number) =
        if modify then full m (t + number) + delta.signExtend 32 else full m (t + number) := by
  cases modify with
  | false => exact ⟨⟨fun _ _ _ => rfl, rfl⟩, rfl⟩
  | true =>
    simp only [if_true, addDelta, fullPut, natNumberChanges, Bool.true_and, tcpChecksum]
    cases checksum with
    | false => exact ⟨⟨fun i out apart => putFullElsewhere (by omega),
        halfCongr fun i low high => putFullElsewhere (by omega)⟩, fullPut _ _ _⟩
    | true =>
      simp only [if_true]
      refine ⟨⟨fun i out apart => ?_, ?_⟩, ?_⟩
      · rw [updateCksumElsewhere apart, putFullElsewhere (by omega)]
      · rw [updateCksumHalf, halfCongr fun i low high => putFullElsewhere (by omega)]
        rfl
      · rw [fullCongr fun i low high => updateCksumElsewhere (by omega), fullPut]

def natCompletes (flags : BitVec 8) (pr : ParseResult) : Bool :=
  pr.isTcp || !(flag flags natModifySeqnum || flag flags natModifyAcknum)

theorem natL4Completes : (natL4 flags pr args t m).2 = natCompletes flags pr := by
  unfold natL4 natNumber natCompletes
  cases pr.isTcp <;> cases flag flags natModifySeqnum <;> cases flag flags natModifyAcknum <;> rfl

theorem natL4Edited : L4Edited flags pr args t m (natL4 flags pr args t m).1 := by
  obtain ⟨ports, src, dst⟩ := @natPortsEdited pr flags args t m
  by_cases tcp : pr.isTcp = true
  · have cs : natCksum pr t = t + 16 := by simp [natCksum, tcp, tcpChecksum]
    have whole : (natL4 flags pr args t m).1 =
        let m := natPorts flags pr args t m
        let m := if flag flags natModifySeqnum then
          addDelta (flag flags natL4Checksum) t tcpSequenceNumber args.seqNumDelta m else m
        if flag flags natModifyAcknum then
          addDelta (flag flags natL4Checksum) t tcpAcknowledgmentNumber args.ackNumDelta m else m := by
      unfold natL4 natNumber
      cases flag flags natModifySeqnum <;> cases flag flags natModifyAcknum <;> simp [tcp]
    rw [whole]
    dsimp only [tcpSequenceNumber, tcpAcknowledgmentNumber]
    rw [cs] at ports
    generalize natPorts flags pr args t m = m1 at ports src dst
    obtain ⟨second, seqNum⟩ := @addDeltaEdited t m1 (flag flags natL4Checksum)
      (flag flags natModifySeqnum) 4 args.seqNumDelta (by omega) (by omega)
    generalize (if flag flags natModifySeqnum then
      addDelta (flag flags natL4Checksum) t 4 args.seqNumDelta m1 else m1) = m2 at second seqNum
    obtain ⟨third, ackNum⟩ := @addDeltaEdited t m2 (flag flags natL4Checksum)
      (flag flags natModifyAcknum) 8 args.ackNumDelta (by omega) (by omega)
    have old4 : full m1 (t + 4) = full m (t + 4) :=
      fullCongr fun i low high => ports.elsewhere i (by omega) (by omega)
    have old8 : full m2 (t + 8) = full m (t + 8) := fullCongr fun i low high =>
      (second.elsewhere i (by omega) (by omega)).trans (ports.elsewhere i (by omega) (by omega))
    unfold natNumberChanges at second third
    rw [old4] at second seqNum
    rw [old8] at third ackNum
    generalize (if flag flags natModifyAcknum then
      addDelta (flag flags natL4Checksum) t 8 args.ackNumDelta m2 else m2) = m3 at third ackNum
    have all := (ports.then second).then third
    have numbers : ∀ a, t ≤ a → a + 2 ≤ t + 4 → half m3 a = half m1 a := fun a low high =>
      halfCongr fun i low' high' => (third.elsewhere i (by omega) (by omega)).trans
        (second.elsewhere i (by omega) (by omega))
    refine ⟨⟨fun i out apart => ?_, ?_⟩, ?_, ?_, fun _ => ?_, fun _ => ackNum⟩
    · rw [tcp, if_pos rfl] at out
      rw [cs] at apart
      exact all.elsewhere i (by omega) apart
    · rw [cs, all.cksum, natL4Changes, if_pos tcp, List.append_assoc]
      rfl
    · rw [numbers t (by omega) (by omega), src]
    · rw [numbers (t + 2) (by omega) (by omega), dst]
    · rw [← seqNum]
      exact fullCongr fun i low high => third.elsewhere i (by omega) (by omega)
  · have only : (natL4 flags pr args t m).1 = natPorts flags pr args t m := by
      rw [Bool.not_eq_true] at tcp
      unfold natL4 natNumber
      cases flag flags natModifySeqnum <;> cases flag flags natModifyAcknum <;> simp [tcp]
    rw [only]
    refine ⟨⟨fun i out apart => ?_, ?_⟩, src, dst, fun yes => absurd yes tcp, fun yes => absurd yes tcp⟩
    · rw [if_neg tcp] at out
      exact ports.elsewhere i out apart
    · rw [ports.cksum, natL4Changes, if_neg tcp, List.append_nil]

structure NatL4Kept (flags : BitVec 8) (pr : ParseResult) (args : NatL4Args) (t : Nat)
    (addresses : List (BitVec 32 × BitVec 32)) (m : Memory) : Prop where
  srcPort : flag flags natModifyL4Src = true → args.srcPort = half m t
  dstPort : flag flags natModifyL4Dst = true → args.dstPort = half m (t + 2)
  seqNum : pr.isTcp = true → flag flags natModifySeqnum = true → args.seqNumDelta = 0
  ackNum : pr.isTcp = true → flag flags natModifyAcknum = true → args.ackNumDelta = 0
  cksum : cksumAfter (half m (natCksum pr t)) (addresses ++ natL4Changes flags pr args t m) =
    half m (natCksum pr t)

theorem deltaZero {old : BitVec 32} {delta : BitVec 16} :
    old + delta.signExtend 32 = old ↔ delta = 0 := by
  constructor
  · intro same
    have zero : delta.signExtend 32 = 0 := by bv_omega
    have low := congrArg (fun v => v.setWidth 16) zero
    rwa [show (delta.signExtend 32).setWidth 16 = delta by
      apply BitVec.eq_of_getLsbD_eq
      intro i inside
      rw [BitVec.getLsbD_setWidth, BitVec.getLsbD_signExtend]
      have wide : i < 32 := by omega
      simp only [inside, wide, decide_true, Bool.true_and, if_true]] at low
  · rintro rfl
    simp

theorem natL4Kept {touched : Nat → Prop} {addresses : List (BitVec 32 × BitVec 32)} {m1 : Memory}
    (first : Edited (natCksum pr t) touched addresses m m1) (below : ∀ i, touched i → i < t)
    (second : L4Edited flags pr args t m1 m') (tcpRoom : pr.isTcp = true → t + 20 ≤ len)
    (udpRoom : t + 8 ≤ len) :
    (∀ i < len, t ≤ i → m' i = m i) ↔ NatL4Kept flags pr args t addresses m := by
  have bounds := natCksumBounds pr t
  have apart : ∀ i, t ≤ i → i < natCksum pr t ∨ natCksum pr t + 2 ≤ i → m1 i = m i :=
    fun i low out => first.elsewhere i (fun yes => by have := below i yes; omega) out
  have csRoom : natCksum pr t + 2 ≤ len := by
    by_cases tcp : pr.isTcp = true
    · have := tcpRoom tcp
      omega
    · unfold natCksum udpChecksum
      rw [if_neg tcp]
      omega
  have port : half m1 t = half m t := halfCongr fun i low high => apart i (by omega) (by omega)
  have port' : half m1 (t + 2) = half m (t + 2) :=
    halfCongr fun i low high => apart i (by omega) (by omega)
  have tcpCs : pr.isTcp = true → natCksum pr t = t + 16 := fun tcp => by
    simp [natCksum, tcp, tcpChecksum]
  have number : ∀ a, pr.isTcp = true → t ≤ a → a + 4 ≤ t + 12 → full m1 a = full m a :=
    fun a tcp low high => fullCongr fun i low' high' => by
      have := tcpCs tcp
      exact apart i (by omega) (by omega)
  have word : full m1 t = full m t := by rw [full, full, port, port']
  have changes : natL4Changes flags pr args t m1 = natL4Changes flags pr args t m := by
    unfold natL4Changes natPortsChanges newPorts natNumberChanges
    rw [port, port', word]
    by_cases tcp : pr.isTcp = true
    · rw [number (t + 4) tcp (by omega) (by omega), number (t + 8) tcp (by omega) (by omega)]
    · rw [if_neg tcp, if_neg tcp]
  have cksum : half m' (natCksum pr t) =
      cksumAfter (half m (natCksum pr t)) (addresses ++ natL4Changes flags pr args t m) := by
    rw [second.edited.cksum, first.cksum, changes, ← cksumAfterAppend]
  have srcPort := second.srcPort
  have dstPort := second.dstPort
  rw [port] at srcPort
  rw [port'] at dstPort
  constructor
  · intro same
    have halves : ∀ a, t ≤ a → a + 2 ≤ len → half m' a = half m a := fun a low inside =>
      halfCongr fun i low' high => same i (by omega) (by omega)
    have fulls : ∀ a, t ≤ a → a + 4 ≤ len → full m' a = full m a := fun a low inside =>
      fullCongr fun i low' high => same i (by omega) (by omega)
    refine ⟨fun set => ?_, fun set => ?_, fun tcp set => ?_, fun tcp set => ?_, ?_⟩
    · rw [if_pos set, halves t (by omega) (by omega)] at srcPort
      exact srcPort.symm
    · rw [if_pos set, halves (t + 2) (by omega) (by omega)] at dstPort
      exact dstPort.symm
    · have seqNum := second.seqNum tcp
      have room := tcpRoom tcp
      rw [if_pos set, number _ tcp (by omega) (by omega), fulls _ (by omega) (by omega)] at seqNum
      exact deltaZero.mp seqNum.symm
    · have ackNum := second.ackNum tcp
      have room := tcpRoom tcp
      rw [if_pos set, number _ tcp (by omega) (by omega), fulls _ (by omega) (by omega)] at ackNum
      exact deltaZero.mp ackNum.symm
    · rw [← cksum]
      exact halves _ (by omega) csRoom
  · intro kept i inside low
    have srcSame : half m' t = half m t := by
      rw [srcPort]
      split
      · next set => exact kept.srcPort set
      · rfl
    have dstSame : half m' (t + 2) = half m (t + 2) := by
      rw [dstPort]
      split
      · next set => exact kept.dstPort set
      · rfl
    by_cases inCs : natCksum pr t ≤ i ∧ i < natCksum pr t + 2
    · exact halfSame.mp (cksum.trans kept.cksum) i inCs.1 inCs.2
    · by_cases inSrc : i < t + 2
      · exact halfSame.mp srcSame i low inSrc
      · by_cases inDst : i < t + 4
        · exact halfSame.mp dstSame i (by omega) (by omega)
        · by_cases inNumbers : pr.isTcp = true ∧ i < t + 12
          · obtain ⟨tcp, high⟩ := inNumbers
            have seqSame : full m' (t + 4) = full m (t + 4) := by
              rw [second.seqNum tcp, number _ tcp (by omega) (by omega)]
              split
              · next set => exact deltaZero.mpr (kept.seqNum tcp set)
              · rfl
            have ackSame : full m' (t + 8) = full m (t + 8) := by
              rw [second.ackNum tcp, number _ tcp (by omega) (by omega)]
              split
              · next set => exact deltaZero.mpr (kept.ackNum tcp set)
              · rfl
            by_cases inSeq : i < t + 8
            · exact fullSame.mp seqSame i (by omega) (by omega)
            · exact fullSame.mp ackSame i (by omega) (by omega)
          · rw [second.edited.elsewhere i ?_ (by omega), apart i low (by omega)]
            split
            · next tcp => exact fun yes => inNumbers ⟨tcp, by omega⟩
            · omega

end NatL4

section Nat

variable {pr : ParseResult} {flags : BitVec 8} {args : NatL4Args} {w : Workspace} {len : Nat}

theorem parsedL4 (parsed : Parsed pr len) (l4 : (pr.isTcp || pr.isUdp) = true) :
    (pr.isTcp = true → pr.l4Offset.toNat + 20 ≤ len) ∧ pr.l4Offset.toNat + 8 ≤ len := by
  refine ⟨parsed.tcp, ?_⟩
  rcases (Bool.or_eq_true _ _).mp l4 with tcp | udp
  · have := parsed.tcp tcp
    omega
  · exact parsed.udp udp

theorem l4EditedElsewhere {t i : Nat} {m m' : Memory} (edited : L4Edited flags pr args t m m')
    (outside : i < t ∨ t + 20 ≤ i) : m' i = m i := by
  have bounds := natCksumBounds pr t
  refine edited.edited.elsewhere i ?_ (by omega)
  split <;> omega

theorem natIpv6Presented {src dst : Fin 4 → BitVec 32} (parsed : Parsed pr len) (presented : Presented len w) :
    Presented len (natIpv6 pr flags src dst args w).2 ↔
      ((pr.isTcp || pr.isUdp) = true → pr.isOuterIpv6 = true → natCompletes flags pr = false →
        NatL4Kept flags pr args pr.l4Offset.toNat (natIpv6Changes flags pr pr.l3Offset.toNat src dst w.seg)
          w.seg) := by
  unfold natIpv6
  by_cases l4 : (pr.isTcp || pr.isUdp) = true
  · by_cases v6 : pr.isOuterIpv6 = true
    · rw [if_neg (by simp [l4, v6])]
      dsimp only
      rw [natL4Completes]
      have behind := parsed.ipv6L4 v6 l4
      have low := pr.l4Offset.isLt
      obtain ⟨tcpRoom, udpRoom⟩ := parsedL4 parsed l4
      have modifyOffset : (pr.l3Offset + 8).toNat = pr.l3Offset.toNat + 8 := by
        rw [BitVec.toNat_add]
        exact Nat.mod_eq_of_lt (by simp only [BitVec.reduceToNat]; omega)
      rw [modifyOffset]
      generalize pr.l4Offset.toNat = t at *
      generalize pr.l3Offset.toNat = ip at *
      have first := @natIpv6AddressesEdited pr flags ip t w.seg src dst behind
      have second := @natL4Edited pr flags args t (natIpv6Addresses flags pr ip t src dst w.seg)
      have bounds := natCksumBounds pr t
      have kept := natL4Kept first (fun i inside => by omega) second tcpRoom udpRoom
      have below : ∀ i, i < ip + 8 ∨ (ip + 40 ≤ i ∧ i < t) ∨ t + 20 ≤ i →
          (natL4 flags pr args t (natIpv6Addresses flags pr ip t src dst w.seg)).1 i = w.seg i := by
        intro i outside
        rw [l4EditedElsewhere second (by omega), first.elsewhere i (by omega) (by omega)]
      simp only [l4, v6, forall_const]
      by_cases completes : natCompletes flags pr = true
      · rw [if_pos completes]
        refine iff_of_true ?_ fun no => absurd completes (by rw [no]; decide)
        refine (presentedModified presented).mpr fun i _ outside => below i ?_
        have size : ((((t : Int) - (ip + 8 : Nat) + tcpNoOptionSize) % 2 ^ 16).toNat) = t - (ip + 8) + 20 := by
          unfold tcpNoOptionSize
          omega
        omega
      · rw [if_neg completes, presentedModified presented]
        simp only [Bool.not_eq_true] at completes
        simp only [completes, forall_const, ipv6AddrSize]
        rw [← kept]
        constructor
        · intro same i inside low'
          exact same i inside (by omega)
        · intro same i inside outside
          by_cases inL4 : t ≤ i
          · exact same i inside inL4
          · exact below i (by omega)
    · rw [if_pos (.inr (by simpa using v6))]
      exact iff_of_true presented fun _ yes => absurd yes v6
  · rw [if_pos (.inl (by simpa using l4))]
    exact iff_of_true presented fun yes => absurd yes l4

structure NatIpv4Kept (flags : BitVec 8) (pr : ParseResult) (src dst : BitVec 32) (args : NatL4Args)
    (ip t written : Nat) (m : Memory) : Prop where
  hdrCksum : ∀ i, ip + 10 ≤ i → i < ip + 12 → ip + written ≤ i →
    putHalf m (ip + 10) (cksumAfter (half m (ip + 10)) (natIpv4HdrChanges flags ip src dst m)) i = m i
  srcAddr : flag flags natModifyIpSrc = true →
    ∀ i, ip + 12 ≤ i → i < ip + 16 → ip + written ≤ i → putFull m (ip + 12) src i = m i
  dstAddr : flag flags natModifyIpDst = true →
    ∀ i, ip + 16 ≤ i → i < ip + 20 → ip + written ≤ i → putFull m (ip + 16) dst i = m i
  l4 : NatL4Kept flags pr args t (natIpv4Changes flags pr ip src dst m) m

theorem natModifySize (behind : pr.l3Offset.toNat ≤ pr.l4Offset.toNat) :
    (pr.l4Offset - pr.l3Offset + BitVec.ofNat 8 tcpNoOptionSize).toNat =
      (pr.l4Offset.toNat - pr.l3Offset.toNat + 20) % 256 := by
  have low := pr.l4Offset.isLt
  have low' := pr.l3Offset.isLt
  simp only [BitVec.toNat_add, BitVec.toNat_sub, BitVec.toNat_ofNat, tcpNoOptionSize]
  omega

section Wrapped

variable {src dst : BitVec 32} {ip t k i : Nat} {m m1 m' : Memory}

theorem addressedByte (first : Ipv4Addressed flags pr ip t src dst m m1) :
    (ip + 10 ≤ i → i < ip + 12 → m1 i = putHalf m (ip + 10)
      (cksumAfter (half m (ip + 10)) (natIpv4HdrChanges flags ip src dst m)) i) ∧
    (ip + 12 ≤ i → i < ip + 16 →
      m1 i = if flag flags natModifyIpSrc then putFull m (ip + 12) src i else m i) ∧
    (ip + 16 ≤ i → i < ip + 20 →
      m1 i = if flag flags natModifyIpDst then putFull m (ip + 16) dst i else m i) := by
  refine ⟨fun low high => ?_, fun low high => ?_, fun low high => ?_⟩
  · exact halfSame.mp (first.hdrCksum.trans (halfPut _ _ _).symm) i low high
  · have value := first.srcAddr
    by_cases set : flag flags natModifyIpSrc = true
    · rw [if_pos set] at value ⊢
      exact fullSame.mp (value.trans (fullPut _ _ _).symm) i low high
    · rw [if_neg set] at value ⊢
      exact fullSame.mp value i low high
  · have value := first.dstAddr
    by_cases set : flag flags natModifyIpDst = true
    · rw [if_pos set] at value ⊢
      exact fullSame.mp (value.trans (fullPut _ _ _).symm) i low high
    · rw [if_neg set] at value ⊢
      exact fullSame.mp value i low high

theorem natIpv4Wrapped (first : Ipv4Addressed flags pr ip t src dst m m1) (second : L4Edited flags pr args t m1 m')
    (behind : ip + 20 ≤ t) (written : k < 20) (tcpRoom : pr.isTcp = true → t + 20 ≤ len)
    (udpRoom : t + 8 ≤ len) :
    (∀ i < len, i < ip ∨ ip + k ≤ i → m' i = m i) ↔ NatIpv4Kept flags pr src dst args ip t k m := by
  have bounds := natCksumBounds pr t
  have kept := natL4Kept first.edited (fun i inside => by omega) second tcpRoom udpRoom
  have ahead : ∀ i, i < t → m' i = m1 i := fun i inside => l4EditedElsewhere second (.inl inside)
  constructor
  · intro same
    refine ⟨fun i low high beyond => ?_, fun set i low high beyond => ?_,
      fun set i low high beyond => ?_, kept.mp fun i inside low => same i inside (.inr (by omega))⟩
    · rw [← (addressedByte first).1 low high, ← ahead i (by omega)]
      exact same i (by omega) (.inr beyond)
    · have value := (addressedByte first).2.1 low high
      rw [if_pos set] at value
      rw [← value, ← ahead i (by omega)]
      exact same i (by omega) (.inr beyond)
    · have value := (addressedByte first).2.2 low high
      rw [if_pos set] at value
      rw [← value, ← ahead i (by omega)]
      exact same i (by omega) (.inr beyond)
  · intro unchanged i inside outside
    by_cases inL4 : t ≤ i
    · exact kept.mpr unchanged.l4 i inside inL4
    · rw [ahead i (by omega)]
      by_cases far : i < ip + 10 ∨ ip + 20 ≤ i
      · exact first.edited.elsewhere i (by omega) (by omega)
      · by_cases inHdr : i < ip + 12
        · rw [(addressedByte first).1 (by omega) inHdr]
          exact unchanged.hdrCksum i (by omega) inHdr (by omega)
        · by_cases inSrc : i < ip + 16
          · rw [(addressedByte first).2.1 (by omega) inSrc]
            split
            · next set => exact unchanged.srcAddr set i (by omega) inSrc (by omega)
            · rfl
          · rw [(addressedByte first).2.2 (by omega) (by omega)]
            split
            · next set => exact unchanged.dstAddr set i (by omega) (by omega) (by omega)
            · rfl

end Wrapped

theorem natIpv4Presented {src dst : BitVec 32} (parsed : Parsed pr len) (presented : Presented len w) :
    Presented len (natIpv4 pr flags src dst args w).2 ↔
      ((pr.isTcp || pr.isUdp) = true → pr.isOuterIpv4 = true →
        256 ≤ pr.l4Offset.toNat - pr.l3Offset.toNat + 20 →
        NatIpv4Kept flags pr src dst args pr.l3Offset.toNat pr.l4Offset.toNat
          (pr.l4Offset.toNat - pr.l3Offset.toNat + 20 - 256) w.seg) := by
  unfold natIpv4
  by_cases l4 : (pr.isTcp || pr.isUdp) = true
  · by_cases v4 : pr.isOuterIpv4 = true
    · rw [if_neg (by simp [l4, v4])]
      dsimp only
      have behind := parsed.ipv4L4 v4 l4
      have low := pr.l4Offset.isLt
      obtain ⟨tcpRoom, udpRoom⟩ := parsedL4 parsed l4
      rw [natModifySize (by omega), presentedModified presented]
      simp only [l4, v4, forall_const]
      have first := @natIpv4AddressesEdited pr flags pr.l3Offset.toNat pr.l4Offset.toNat w.seg src dst behind
      have second := @natL4Edited pr flags args pr.l4Offset.toNat
        (natIpv4Addresses flags pr pr.l3Offset.toNat pr.l4Offset.toNat src dst w.seg)
      have bounds := natCksumBounds pr pr.l4Offset.toNat
      by_cases short : pr.l4Offset.toNat - pr.l3Offset.toNat + 20 < 256
      · refine iff_of_true (fun i _ outside => ?_) fun no => absurd no (by omega)
        rw [Nat.mod_eq_of_lt short] at outside
        rw [l4EditedElsewhere second (by omega), first.edited.elsewhere i (by omega) (by omega)]
      · -- the count has wrapped: fewer than 20 bytes of the header are written
        have written : (pr.l4Offset.toNat - pr.l3Offset.toNat + 20) % 256 =
            pr.l4Offset.toNat - pr.l3Offset.toNat + 20 - 256 := by omega
        rw [written, natIpv4Wrapped first second behind (by omega) tcpRoom udpRoom]
        exact ⟨fun kept _ => kept, fun kept => kept (by omega)⟩
    · rw [if_pos (.inr (by simpa using v4))]
      exact iff_of_true presented fun _ yes => absurd yes v4
  · rw [if_pos (.inl (by simpa using l4))]
    exact iff_of_true presented fun yes => absurd yes l4

end Nat

end Flexbuild.HeaderModification
