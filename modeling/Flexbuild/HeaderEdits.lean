import Flexbuild.HeaderIp

/-! What the edits of the IP and layer 4 headers touch, and what of it is written back. -/
namespace Flexbuild.HeaderModification
open ByteMemory (Memory Byte store storeOutside)

structure Parsed (pr : ParseResult) (len : Nat) : Prop where
  oneL4 : (pr.isTcp && pr.isUdp) = false
  ipv4 : pr.isOuterIpv4 = true → pr.l3Offset.toNat + 20 ≤ len
  ipv4L4 : pr.isOuterIpv4 = true → (pr.isTcp || pr.isUdp) = true →
    pr.l3Offset.toNat + 20 ≤ pr.l4Offset.toNat
  ipv6L4 : pr.isOuterIpv6 = true → (pr.isTcp || pr.isUdp) = true →
    pr.l3Offset.toNat + 40 ≤ pr.l4Offset.toNat
  tcp : pr.isTcp = true → pr.l4Offset.toNat + 20 ≤ len
  udp : pr.isUdp = true → pr.l4Offset.toNat + 8 ≤ len

section Always

variable {hw : Hardware} {pr : ParseResult} {flags : BitVec 8} {w : Workspace} {len : Nat}

theorem cksumCalcEdits (udp : pr.isTcp = false) :
    ∃ seg, l4UdpTcpCksumCalc hw pr true w = { w with seg := seg } ∧
      ∀ i, i < pr.l4Offset.toNat ∨ pr.l4Offset.toNat + 8 ≤ i → seg i = w.seg i := by
  simp only [l4UdpTcpCksumCalc, udp]
  split
  · exact ⟨w.seg, rfl, fun _ _ => rfl⟩
  · exact ⟨_, rfl, fun i outside => putHalfElsewhere (by simp [udpChecksum]; omega)⟩

theorem udpPresented {srcPort dstPort : BitVec 16} (parsed : Parsed pr len) (presented : Presented len w) :
    Presented len (l4UdpHeaderModification hw pr flags srcPort dstPort w).2 := by
  unfold l4UdpHeaderModification
  by_cases udp : pr.isUdp = false
  · rw [if_pos udp]
    exact presented
  · have noTcp : pr.isTcp = false := by
      have one := parsed.oneL4
      rw [Bool.not_eq_false] at udp
      rwa [udp, Bool.and_true] at one
    rw [if_neg udp]
    dsimp only
    have ports : ∀ i < len, i < pr.l4Offset.toNat ∨ pr.l4Offset.toNat + 8 ≤ i →
        putPorts (flag flags udpModifySrc) (flag flags udpModifyDst) srcPort dstPort
          pr.l4Offset.toNat w.seg i = w.seg i :=
      fun i _ outside => putPortsElsewhere (by omega)
    split
    · split
      · -- the header is written back before the parser sums it up, and once more behind it
        have first := (@presentedModified w len pr.l4Offset.toNat 8
          (putPorts _ _ srcPort dstPort pr.l4Offset.toNat w.seg) presented).mpr ports
        obtain ⟨seg, calculated, kept⟩ := @cksumCalcEdits hw pr
          ({ w with seg := putPorts (flag flags udpModifySrc) (flag flags udpModifyDst) srcPort
                          dstPort pr.l4Offset.toNat w.seg }.fdmaModify pr.l4Offset.toNat 8) noTcp
        rw [calculated]
        exact (presentedModified first).mpr fun i _ outside => kept i outside
      · refine (presentedModified presented).mpr fun i inside outside => ?_
        rw [updateCksumElsewhere (by unfold udpChecksum; omega)]
        exact ports i inside outside
    · exact (presentedModified presented).mpr ports

theorem ipv6FieldsElsewhere {args : Ipv6Args} {ip i : Nat} {m : Memory} (outside : i < ip ∨ ip + 40 ≤ i) :
    ipv6Fields flags args ip m i = m i := by
  have address : ∀ (m : Memory) (a : Nat) (addr : Fin 16 → Byte), ip ≤ a → a + 16 ≤ ip + 40 →
      store m a (List.ofFn addr) i = m i := by
    intro m a addr low high
    exact storeOutside (by rw [List.length_ofFn]; omega)
  have word : ∀ (m : Memory) (v : BitVec 32), putFull m ip v i = m i :=
    fun m v => putFullElsewhere (by omega)
  have limit : ∀ (m : Memory) (v : Byte), putByte m (ip + 7) v i = m i :=
    fun m v => putByteElsewhere (by omega)
  simp only [ipv6Fields]
  rw [apply_ite (fun m : Memory => m i), address _ (ip + 24) _ (by omega) (by omega), ite_self,
    apply_ite (fun m : Memory => m i), address _ (ip + 8) _ (by omega) (by omega), ite_self,
    apply_ite (fun m : Memory => m i), word, ite_self, apply_ite (fun m : Memory => m i), word,
    ite_self, apply_ite (fun m : Memory => m i), limit, ite_self]

theorem ipv6CksumPresented {ip cs : Nat} {oldSum : BitVec 16} (presented : Presented len w) :
    Presented len (ipv6L4Cksum hw ip cs oldSum w) := by
  unfold ipv6L4Cksum
  exact (presentedModified presented).mpr fun i _ outside => putHalfElsewhere outside

theorem ipv6Presented {args : Ipv6Args} (presented : Presented len w) :
    Presented len (ipv6HeaderModification hw pr flags args w).2 := by
  have header : Presented len ({ w with seg := ipv6Fields flags args pr.l3Offset.toNat w.seg }.fdmaModify
      pr.l3Offset.toNat 40) :=
    (presentedModified presented).mpr fun i _ outside => ipv6FieldsElsewhere outside
  unfold ipv6HeaderModification
  split
  · dsimp only
    generalize decide (flags &&& ipv6L4Checksum &&& _ ≠ 0) = l4Update
    cases l4Update with
    | false => exact header
    | true =>
      rw [if_pos rfl]
      split
      · split
        · exact ipv6CksumPresented header
        · exact header
      · split
        · exact ipv6CksumPresented header
        · exact header
  · exact presented

end Always

section Ipv4

variable {flags : BitVec 8} {args : Ipv4Args} {ip i len : Nat} {m : Memory}

structure Ipv4Edited (flags : BitVec 8) (args : Ipv4Args) (ip : Nat) (m seg : Memory) : Prop where
  hdrCksum : half seg (ip + 10) = 0
  ttl : seg (ip + 8) = if flag flags ipv4ModifyTtl then m (ip + 8) - 1 else m (ip + 8)
  tos : seg (ip + 1) = if flag flags ipv4ModifyTos then args.tos else m (ip + 1)
  id : half seg (ip + 4) = if flag flags ipv4ModifyId then args.id else half m (ip + 4)
  srcAddr : full seg (ip + 12) = if flag flags ipv4ModifySrc then args.srcAddr else full m (ip + 12)
  dstAddr : full seg (ip + 16) = if flag flags ipv4ModifyDst then args.dstAddr else full m (ip + 16)
  others : ∀ i, i < ip + 1 ∨ i = ip + 2 ∨ i = ip + 3 ∨ i = ip + 6 ∨ i = ip + 7 ∨ i = ip + 9 ∨
    ip + 20 ≤ i → seg i = m i

theorem ipv4FieldsEdited : Ipv4Edited flags args ip m (ipv4Fields flags args ip m).1 := by
  unfold ipv4Fields
  dsimp only
  have e0 : ∀ i, i < ip + 10 ∨ ip + 12 ≤ i → putHalf m (ip + 10) 0 i = m i :=
    fun i apart => putHalfElsewhere (by omega)
  have v0 := halfPut m (ip + 10) 0
  generalize putHalf m (ip + 10) 0 = m0 at e0 v0
  have e1 : ∀ i, i ≠ ip + 8 →
      (if flag flags ipv4ModifyTtl then putByte m0 (ip + 8) (m0 (ip + 8) - 1) else m0) i = m0 i :=
    fun i apart => byteIfElsewhere apart
  have v1 := @byteIf m0 (ip + 8) (flag flags ipv4ModifyTtl = true) _ (m0 (ip + 8) - 1)
  generalize (if flag flags ipv4ModifyTtl then putByte m0 (ip + 8) (m0 (ip + 8) - 1) else m0) = m1
    at e1 v1
  have e2 : ∀ i, i ≠ ip + 1 →
      (if flag flags ipv4ModifyTos then putByte m1 (ip + 1) args.tos else m1) i = m1 i :=
    fun i apart => byteIfElsewhere apart
  have v2 := @byteIf m1 (ip + 1) (flag flags ipv4ModifyTos = true) _ args.tos
  generalize (if flag flags ipv4ModifyTos then putByte m1 (ip + 1) args.tos else m1) = m2 at e2 v2
  have e3 : ∀ i, i < ip + 4 ∨ ip + 6 ≤ i →
      (if flag flags ipv4ModifyId then putHalf m2 (ip + 4) args.id else m2) i = m2 i :=
    fun i apart => halfIfElsewhere (by omega)
  have v3 := @halfIf m2 (ip + 4) (flag flags ipv4ModifyId = true) _ args.id
  generalize (if flag flags ipv4ModifyId then putHalf m2 (ip + 4) args.id else m2) = m3 at e3 v3
  have e4 : ∀ i, i < ip + 12 ∨ ip + 16 ≤ i →
      (if flag flags ipv4ModifySrc then putFull m3 (ip + 12) args.srcAddr else m3) i = m3 i :=
    fun i apart => fullIfElsewhere (by omega)
  have v4 := @fullIf m3 (ip + 12) (flag flags ipv4ModifySrc = true) _ args.srcAddr
  generalize (if flag flags ipv4ModifySrc then putFull m3 (ip + 12) args.srcAddr else m3) = m4 at e4 v4
  have e5 : ∀ i, i < ip + 16 ∨ ip + 20 ≤ i →
      (if flag flags ipv4ModifyDst then putFull m4 (ip + 16) args.dstAddr else m4) i = m4 i :=
    fun i apart => fullIfElsewhere (by omega)
  have v5 := @fullIf m4 (ip + 16) (flag flags ipv4ModifyDst = true) _ args.dstAddr
  generalize (if flag flags ipv4ModifyDst then putFull m4 (ip + 16) args.dstAddr else m4) = m5 at e5 v5
  refine ⟨?_, ?_, ?_, ?_, ?_, ?_, ?_⟩
  · rw [← v0]
    refine halfCongr fun i low high => ?_
    rw [e5 i (by omega), e4 i (by omega), e3 i (by omega), e2 i (by omega), e1 i (by omega)]
  · rw [e5 _ (by omega), e4 _ (by omega), e3 _ (by omega), e2 _ (by omega), v1, e0 _ (by omega)]
  · rw [e5 _ (by omega), e4 _ (by omega), e3 _ (by omega), v2, e1 _ (by omega), e0 _ (by omega)]
  · rw [← show half m2 (ip + 4) = half m (ip + 4) from halfCongr fun i low high => by
      rw [e2 i (by omega), e1 i (by omega), e0 i (by omega)], ← v3]
    exact halfCongr fun i low high => by rw [e5 i (by omega), e4 i (by omega)]
  · rw [← show full m3 (ip + 12) = full m (ip + 12) from fullCongr fun i low high => by
      rw [e3 i (by omega), e2 i (by omega), e1 i (by omega), e0 i (by omega)], ← v4]
    exact fullCongr fun i low high => e5 i (by omega)
  · rw [← show full m4 (ip + 16) = full m (ip + 16) from fullCongr fun i low high => by
      rw [e4 i (by omega), e3 i (by omega), e2 i (by omega), e1 i (by omega), e0 i (by omega)]]
    exact v5
  · intro i other
    rw [e5 i (by omega), e4 i (by omega), e3 i (by omega), e2 i (by omega), e1 i (by omega),
      e0 i (by omega)]

theorem ipv4FieldsElsewhere (outside : i < ip ∨ ip + 20 ≤ i) : (ipv4Fields flags args ip m).1 i = m i :=
  ipv4FieldsEdited.others i (by omega)

structure Ipv4Kept (flags : BitVec 8) (args : Ipv4Args) (ip : Nat) (m : Memory) : Prop where
  hdrCksum : half m (ip + 10) = 0
  ttl : flag flags ipv4ModifyTtl = false
  tos : flag flags ipv4ModifyTos = true → args.tos = m (ip + 1)
  id : flag flags ipv4ModifyId = true → args.id = half m (ip + 4)
  srcAddr : flag flags ipv4ModifySrc = true → args.srcAddr = full m (ip + 12)
  dstAddr : flag flags ipv4ModifyDst = true → args.dstAddr = full m (ip + 16)

theorem ipv4FieldsKept (room : ip + 20 ≤ len) :
    (∀ i < len, (ipv4Fields flags args ip m).1 i = m i) ↔ Ipv4Kept flags args ip m := by
  have edited := @ipv4FieldsEdited flags args ip m
  generalize (ipv4Fields flags args ip m).1 = seg at edited
  constructor
  · intro same
    have halves : ∀ a, a + 2 ≤ len → half seg a = half m a := fun a inside =>
      halfCongr fun i _ high => same i (by omega)
    have fulls : ∀ a, a + 4 ≤ len → full seg a = full m a := fun a inside =>
      fullCongr fun i _ high => same i (by omega)
    refine ⟨?_, ?_, fun set => ?_, fun set => ?_, fun set => ?_, fun set => ?_⟩
    · rw [← halves (ip + 10) (by omega)]
      exact edited.hdrCksum
    · by_contra set
      have ttl := edited.ttl
      rw [if_pos (by simpa using set), same (ip + 8) (by omega)] at ttl
      bv_omega
    · have tos := edited.tos
      rwa [if_pos set, same (ip + 1) (by omega), eq_comm] at tos
    · have id := edited.id
      rwa [if_pos set, halves (ip + 4) (by omega), eq_comm] at id
    · have src := edited.srcAddr
      rwa [if_pos set, fulls (ip + 12) (by omega), eq_comm] at src
    · have dst := edited.dstAddr
      rwa [if_pos set, fulls (ip + 16) (by omega), eq_comm] at dst
  · intro kept i _
    have hdrCksum : half seg (ip + 10) = half m (ip + 10) := edited.hdrCksum.trans kept.hdrCksum.symm
    have ttl : seg (ip + 8) = m (ip + 8) := by
      rw [edited.ttl, if_neg (by simp [kept.ttl])]
    have tos : seg (ip + 1) = m (ip + 1) := by
      rw [edited.tos]
      split
      · next set => exact kept.tos set
      · rfl
    have id : half seg (ip + 4) = half m (ip + 4) := by
      rw [edited.id]
      split
      · next set => exact kept.id set
      · rfl
    have src : full seg (ip + 12) = full m (ip + 12) := by
      rw [edited.srcAddr]
      split
      · next set => exact kept.srcAddr set
      · rfl
    have dst : full seg (ip + 16) = full m (ip + 16) := by
      rw [edited.dstAddr]
      split
      · next set => exact kept.dstAddr set
      · rfl
    by_cases other : i < ip + 1 ∨ i = ip + 2 ∨ i = ip + 3 ∨ i = ip + 6 ∨ i = ip + 7 ∨ i = ip + 9 ∨
        ip + 20 ≤ i
    · exact edited.others i other
    · obtain rfl | rfl | inId | inCksum | inSrc | inDst : i = ip + 1 ∨ i = ip + 8 ∨
          (ip + 4 ≤ i ∧ i < ip + 4 + 2) ∨ (ip + 10 ≤ i ∧ i < ip + 10 + 2) ∨
          (ip + 12 ≤ i ∧ i < ip + 12 + 4) ∨ (ip + 16 ≤ i ∧ i < ip + 16 + 4) := by omega
      · exact tos
      · exact ttl
      · exact halfSame.mp id i inId.1 inId.2
      · exact halfSame.mp hdrCksum i inCksum.1 inCksum.2
      · exact fullSame.mp src i inSrc.1 inSrc.2
      · exact fullSame.mp dst i inDst.1 inDst.2

variable {hw : Hardware} {pr : ParseResult} {w : Workspace}

theorem ipCksumPresented (presented : Presented len w) : Presented len (ipCksumCalculate hw ip w) := by
  unfold ipCksumCalculate
  exact (presentedModified presented).mpr fun i _ outside => putHalfElsewhere outside

theorem ipv4L4Presented {l4 field end_ : Nat} {cksum : BitVec 16} (presented : Presented len w)
    (behind : ip + 20 ≤ l4) (low : l4 < 256) (covered : field + 2 ≤ end_) (short : end_ ≤ 20) :
    Presented len ({ w with seg := putHalf (ipv4Fields flags args ip w.seg).1 (l4 + field) cksum }.fdmaModify
      ip (((l4 : Int) - ip + end_) % 2 ^ 16).toNat) := by
  have size : (((l4 : Int) - ip + end_) % 2 ^ 16).toNat = l4 - ip + end_ := by omega
  refine (presentedModified presented).mpr fun i _ outside => ?_
  rw [size] at outside
  rw [putHalfElsewhere (by omega)]
  exact ipv4FieldsElsewhere (by omega)

theorem ipv4Presented (parsed : Parsed pr len) (presented : Presented len w) :
    Presented len (ipv4HeaderModification hw pr flags args w).2 ↔
      (pr.isOuterIpv4 = true → (flag flags ipv4L4Checksum &&
          (flag flags ipv4ModifySrc || flag flags ipv4ModifyDst)) = true →
        pr.isUdp = false → pr.isTcp = false → Ipv4Kept flags args pr.l3Offset.toNat w.seg) := by
  have header : Presented len ({ w with seg := (ipv4Fields flags args pr.l3Offset.toNat w.seg).1 }.fdmaModify
      pr.l3Offset.toNat 20) :=
    (presentedModified presented).mpr fun i _ outside => ipv4FieldsElsewhere outside
  have l4Update : (ipv4Fields flags args pr.l3Offset.toNat w.seg).2.2 = (flag flags ipv4L4Checksum &&
      (flag flags ipv4ModifySrc || flag flags ipv4ModifyDst)) := rfl
  have low := pr.l4Offset.isLt
  unfold ipv4HeaderModification
  by_cases v4 : pr.isOuterIpv4 = true
  · rw [if_pos v4]
    dsimp only
    rw [l4Update]
    by_cases update : (flag flags ipv4L4Checksum &&
        (flag flags ipv4ModifySrc || flag flags ipv4ModifyDst)) = true
    · rw [if_pos update]
      by_cases udp : pr.isUdp = true
      · rw [if_pos udp]
        have behind := parsed.ipv4L4 v4 (by rw [udp, Bool.or_true])
        refine iff_of_true ?_ fun _ _ noUdp => absurd udp (by rw [noUdp]; decide)
        split
        · exact ipCksumPresented (ipv4L4Presented presented behind low (by decide) (by decide))
        · exact ipCksumPresented header
      · rw [if_neg udp]
        by_cases tcp : pr.isTcp = true
        · rw [if_pos tcp]
          have behind := parsed.ipv4L4 v4 (by rw [tcp, Bool.true_or])
          refine iff_of_true ?_ fun _ _ _ noTcp => absurd tcp (by rw [noTcp]; decide)
          exact ipCksumPresented (ipv4L4Presented presented behind low (by decide) (by decide))
        · -- neither of them: the header stays in the segment
          rw [if_neg tcp]
          have kept := @ipv4FieldsKept flags args _ _ w.seg (parsed.ipv4 v4)
          constructor
          · intro again _ _ _ _
            refine kept.mp fun i inside => ?_
            exact (again i inside).trans (presented i inside).symm
          · intro unchanged i inside
            have same := kept.mpr (unchanged v4 update (by simpa using udp) (by simpa using tcp))
            exact (same i inside).trans (presented i inside)
    · rw [if_neg update]
      exact iff_of_true (ipCksumPresented header) fun _ yes => absurd yes update
  · rw [if_neg v4]
    exact iff_of_true presented fun yes => absurd yes v4

end Ipv4

section Tcp

variable {pr : ParseResult} {flags : BitVec 8} {args : TcpArgs} {w : Workspace}
  {checksum : Bool} {t optionsSize fuel stop len p q q' : Nat} {mss : BitVec 16} {m : Memory} {s s' : Walk}

theorem meetsInside (meets : MeetsMss m stop p q) : p ≤ q ∧ q < stop := by
  induction meets with
  | here inside _ => exact ⟨Nat.le_refl _, inside⟩
  | noOperation _ _ _ ih => exact ⟨by omega, ih.2⟩
  | other _ _ _ ih => exact ⟨by omega, ih.2⟩

theorem meetsOnce (meets : MeetsMss m stop p q) (again : MeetsMss m stop p q') : q' = q := by
  induction meets with
  | here _ kind => exact ((mssHere kind).mp again).2
  | noOperation inside kind _ ih => exact ih ((mssBehindNoOperation inside kind).mp again)
  | other inside kind _ ih => exact ih ((mssBehindOther inside kind).mp again)

theorem walkEnds (ended : walkOptions checksum t optionsSize mss fuel s = some s')
    (looking : s.mssFound = false) (same : ∀ i, t + 20 ≤ i → s.seg i = m i)
    (options : t + 20 ≤ s.optionsPtr) :
    ((∀ q, ¬ MeetsMss m (t + optionsSize) s.optionsPtr q) ∧ s'.mssFound = false ∧ s'.seg = s.seg ∧
      s'.modifySize = s.modifySize) ∨
    ∃ q, t + 20 ≤ q ∧ MeetsMss m (t + optionsSize) s.optionsPtr q ∧ s'.modifySize = optionsSize ∧
      (∀ i, i < q + 2 ∨ q + 4 ≤ i → i < t + 16 ∨ t + 18 ≤ i → s'.seg i = s.seg i) ∧
      half s'.seg (q + 2) = mss := by
  induction fuel generalizing s with
  | zero => cases ended
  | succ fuel ih =>
    have kindSame := same s.optionsPtr options
    by_cases on : s.seg s.optionsPtr ≠ 0 ∧ s.mssFound = false ∧ s.optionsPtr < t + optionsSize
    · rw [walkStep on] at ended
      obtain ⟨zero, -, inside⟩ := on
      by_cases one : s.seg s.optionsPtr = 1
      · rw [bodyNoOperation (s := { s with reads := s.optionsPtr :: s.reads }) one] at ended
        have rest := ih ended looking same (by simp only; omega)
        simp only [mssBehindNoOperation inside (kindSame.symm.trans one)]
        exact rest
      · by_cases two : s.seg s.optionsPtr = 2
        · have body := @bodyMss checksum t optionsSize mss
            { s with reads := s.optionsPtr :: s.reads } two options
          obtain ⟨fuel, rfl⟩ : ∃ rest, fuel = rest + 1 := by
            cases fuel with
            | zero => cases ended
            | succ rest => exact ⟨rest, rfl⟩
          rw [walkFound body.mssFound] at ended
          cases ended
          refine .inr ⟨s.optionsPtr, options, .here inside (kindSame.symm.trans two), body.modifySize,
            fun i apart cksum => ?_, ?_⟩
          · change (optionBody _ _ _ _ _).seg i = _
            rw [body.seg]
            exact replaceMssElsewhere (s := { s with reads := s.optionsPtr :: s.reads }) apart cksum
          · change half (optionBody _ _ _ _ _).seg _ = _
            rw [body.seg]
            exact replacedMss (s := { s with reads := s.optionsPtr :: s.reads }) options
        · rw [bodyOther (s := { s with reads := s.optionsPtr :: s.reads }) ⟨one, two⟩] at ended
          have rest := ih ended looking same (by simp only; omega)
          simp only [same (s.optionsPtr + 1) (by omega)] at rest
          rw [kindSame] at zero one two
          by_cases length : s.optionsPtr + 1 < t + optionsSize
          · simp only [mssBehindOther length ⟨zero, one, two⟩]
            exact rest
          · -- the length byte stands at `l5_ptr`: the loop ends there or never
            have none_ : ∀ q, ¬ MeetsMss m (t + optionsSize) s.optionsPtr q := by
              intro q meets
              cases meets with
              | here _ kind => exact two kind
              | noOperation _ kind _ => exact one kind
              | other inside _ _ => exact length inside
            rcases rest with ⟨-, rest⟩ | ⟨q, -, meets, -⟩
            · exact .inl ⟨none_, rest⟩
            · have bounds := meetsInside meets
              have still : s.optionsPtr + (m (s.optionsPtr + 1)).toNat = s.optionsPtr := by omega
              rw [still] at meets
              exact absurd meets (none_ q)
    · rw [walkOptions] at ended
      dsimp only at ended
      rw [if_neg on] at ended
      cases ended
      refine .inl ⟨fun q meets => on ⟨fun zero => ?_, looking, ?_⟩, looking, rfl, rfl⟩
      · exact noMssAtEnd (kindSame.symm.trans zero) meets
      · exact (meetsInside meets).1.trans_lt (meetsInside meets).2

def optionsEnd (m : Memory) (t : Nat) : Nat :=
  t + (m (t + tcpDataOffsetReserved) >>> tcpDataOffsetShift).toNat

def MssKept (len t : Nat) (mss : BitVec 16) (m : Memory) : Prop :=
  ∀ q, MeetsMss m (optionsEnd m t) (t + tcpNoOptionSize) q →
    ∀ i, q + 2 ≤ i → i < q + 4 → i < len → optionsEnd m t ≤ i → putHalf m (q + 2) mss i = m i

theorem tcpPresented {call : TcpCall} (presented : Presented len w)
    (returned : l4TcpHeaderModification fuel pr flags args w = some call) :
    Presented len call.workspace ↔
      (pr.isTcp = true → flag flags tcpModifyMss = true → pr.isTcpOptions = true →
        MssKept len pr.l4Offset.toNat args.mss w.seg) := by
  have fields : ∀ i, i < pr.l4Offset.toNat ∨ pr.l4Offset.toNat + 20 ≤ i →
      tcpFields flags args pr.l4Offset.toNat w.seg i = w.seg i :=
    fun i outside => tcpFieldsElsewhere (by omega) (by omega)
  have plain : Presented len ({ w with seg := tcpFields flags args pr.l4Offset.toNat w.seg }.fdmaModify
      pr.l4Offset.toNat tcpNoOptionSize) :=
    (presentedModified presented).mpr fun i _ outside => fields i outside
  by_cases tcp : pr.isTcp = true
  · by_cases modifiesMss : flag flags tcpModifyMss = true
    · by_cases options : pr.isTcpOptions = true
      · rw [l4TcpWalk pr flags args w tcp options modifiesMss] at returned
        obtain ⟨s', ended, rfl⟩ := Option.map_eq_some_iff.mp returned
        simp only [tcp, modifiesMss, options, forall_const]
        generalize pr.l4Offset.toNat = t at *
        have size : t + (w.seg (t + tcpDataOffsetReserved) >>> tcpDataOffsetShift).toNat =
          optionsEnd w.seg t := rfl
        rcases walkEnds (m := w.seg) ended rfl (fun i => optionsKept flags args w i) (Nat.le_refl _) with
          ⟨none_, -, seg, modifySize⟩ | ⟨q, behind, meets, modifySize, elsewhere, replaced⟩
        · rw [seg, modifySize]
          exact iff_of_true plain fun q meets => absurd meets (none_ q)
        · rw [size] at meets
          have bounds := meetsInside meets
          rw [modifySize, presentedModified presented, size]
          constructor
          · intro kept q' again i low high inside beyond
            obtain rfl := meetsOnce meets again
            rw [← kept i inside (.inr beyond)]
            exact halfSame.mp ((halfPut _ _ _).trans replaced.symm) i low high
          · intro kept i inside outside
            by_cases value : q + 2 ≤ i ∧ i < q + 4
            · rw [← kept q meets i value.1 value.2 inside (by omega)]
              exact halfSame.mp (replaced.trans (halfPut _ _ _).symm) i value.1 value.2
            · rw [elsewhere i (by omega) (by omega)]
              exact fields i (by omega)
      · rw [Bool.not_eq_true] at options
        simp only [l4TcpHeaderModification, tcp, modifiesMss, options, Bool.true_eq_false, if_false,
          if_true, Option.some.injEq] at returned
        subst returned
        exact iff_of_true plain fun _ _ yes => absurd yes (by rw [options]; decide)
    · rw [Bool.not_eq_true] at modifiesMss
      simp only [l4TcpHeaderModification, tcp, modifiesMss, Bool.true_eq_false, if_false,
        if_true, Option.some.injEq] at returned
      subst returned
      exact iff_of_true plain fun _ yes => absurd yes (by rw [modifiesMss]; decide)
  · rw [Bool.not_eq_true] at tcp
    simp only [l4TcpHeaderModification, tcp, if_true, Option.some.injEq] at returned
    subst returned
    exact iff_of_true presented fun yes => absurd yes (by rw [tcp]; decide)

end Tcp

end Flexbuild.HeaderModification
