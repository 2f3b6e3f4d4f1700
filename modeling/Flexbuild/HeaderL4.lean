import Flexbuild.HeaderSegment

/-! Modification of the UDP and TCP headers (`l4.c`). The loop over the TCP options is given its
number of iterations, as an option of length zero keeps it where it is; it notes the bytes it reads
and writes. -/
namespace Flexbuild.HeaderModification
open ByteMemory (Memory)

def tcpL4Checksum : BitVec 8 := 0x01
def tcpModifySrc : BitVec 8 := 0x02
def tcpModifyDst : BitVec 8 := 0x04
def tcpModifySeqnum : BitVec 8 := 0x08
def tcpModifyAcknum : BitVec 8 := 0x10
def tcpModifyMss : BitVec 8 := 0x20

def tcpNoOptionSize : Nat := 20
def tcpDataOffsetShift : Nat := 2

def tcpDstPort : Nat := 2
def tcpSequenceNumber : Nat := 4
def tcpAcknowledgmentNumber : Nat := 8
def tcpDataOffsetReserved : Nat := 12
def tcpChecksum : Nat := 16

structure TcpArgs where
  srcPort : BitVec 16
  dstPort : BitVec 16
  seqNumDelta : BitVec 16
  ackNumDelta : BitVec 16
  mss : BitVec 16
  deriving DecidableEq, Repr

def putPorts (src dst : Bool) (srcPort dstPort : BitVec 16) (t : Nat) (m : Memory) : Memory :=
  let m := if src then putHalf m t srcPort else m
  if dst then putHalf m (t + tcpDstPort) dstPort else m

-- `+= delta` on a number of the header, with or without the update of the checksum.
def addDelta (checksum : Bool) (t number : Nat) (delta : BitVec 16) (m : Memory) : Memory :=
  let oldHeader := full m (t + number)
  let m := putFull m (t + number) (oldHeader + delta.signExtend 32)
  if checksum then updateCksum m (t + tcpChecksum) oldHeader (full m (t + number)) else m

-- The ports and the numbers, in both branches of `L4_TCP_MODIFY_MODE_L4_CHECKSUM`.
def tcpFields (flags : BitVec 8) (args : TcpArgs) (t : Nat) (m : Memory) : Memory :=
  let checksum := flag flags tcpL4Checksum
  let oldHeader := full m t
  let m := putPorts (flag flags tcpModifySrc) (flag flags tcpModifyDst) args.srcPort args.dstPort t m
  let m :=
    if checksum && flag flags (tcpModifyDst ||| tcpModifySrc) then
      updateCksum m (t + tcpChecksum) oldHeader (full m t)
    else m
  let m :=
    if flag flags tcpModifySeqnum then addDelta checksum t tcpSequenceNumber args.seqNumDelta m else m
  if flag flags tcpModifyAcknum then addDelta checksum t tcpAcknowledgmentNumber args.ackNumDelta m
  else m

-- `options_ptr`, the segment, and the addresses of the bytes read and written, the latest first.
structure Walk where
  optionsPtr : Nat
  mssFound : Bool
  modifySize : Nat
  seg : Memory
  reads : List Nat
  writes : List Nat

def replaceMss (checksum : Bool) (t optionsSize : Nat) (mss : BitVec 16) (s : Walk) : Walk :=
  let p := s.optionsPtr
  let oldMss := half s.seg (p + 2)
  let seg := putHalf s.seg (p + 2) mss
  let s := { s with mssFound := true, modifySize := optionsSize, seg := seg
                    writes := (p + 3) :: (p + 2) :: s.writes }
  if checksum then
    { s with seg := updateCksum seg (t + tcpChecksum) (oldMss.setWidth 32) ((half seg (p + 2)).setWidth 32)
             reads := (p + 3) :: (p + 2) :: s.reads
             writes := (t + tcpChecksum + 1) :: (t + tcpChecksum) :: s.writes }
  else s

def advance (s : Walk) : Walk :=
  let p := s.optionsPtr
  if s.seg p ≠ 1 then
    { s with optionsPtr := p + (s.seg (p + 1)).toNat, reads := (p + 1) :: s.reads }
  else { s with optionsPtr := p + 1 }

def optionBody (checksum : Bool) (t optionsSize : Nat) (mss : BitVec 16) (s : Walk) : Walk :=
  advance (if s.seg s.optionsPtr = 2 then replaceMss checksum t optionsSize mss s else s)

-- The test of the loop reads the option before it compares the pointer with `l5_ptr`.
def walkOptions (checksum : Bool) (t optionsSize : Nat) (mss : BitVec 16) : Nat → Walk → Option Walk
  | 0, _ => none
  | fuel + 1, s =>
      let s := { s with reads := s.optionsPtr :: s.reads }
      if s.seg s.optionsPtr ≠ 0 ∧ s.mssFound = false ∧ s.optionsPtr < t + optionsSize then
        walkOptions checksum t optionsSize mss fuel (optionBody checksum t optionsSize mss s)
      else some s

structure TcpCall where
  status : Status
  workspace : Workspace
  walk : Option Walk

def l4TcpHeaderModification (fuel : Nat) (pr : ParseResult) (flags : BitVec 8) (args : TcpArgs)
    (w : Workspace) : Option TcpCall :=
  let t := pr.l4Offset.toNat
  if pr.isTcp = false then some ⟨.noTcpFound, w, none⟩
  else
    let seg := tcpFields flags args t w.seg
    let w := { w with seg := seg }
    if flag flags tcpModifyMss = false then
      some ⟨.success, w.fdmaModify t tcpNoOptionSize, none⟩
    else if pr.isTcpOptions = false then
      some ⟨.noTcpMssFound, w.fdmaModify t tcpNoOptionSize, none⟩
    else
      let optionsSize := (seg (t + tcpDataOffsetReserved) >>> tcpDataOffsetShift).toNat
      match walkOptions (flag flags tcpL4Checksum) t optionsSize args.mss fuel
          ⟨t + tcpNoOptionSize, false, tcpNoOptionSize, seg, [], []⟩ with
      | none => none
      | some s =>
          some ⟨if s.mssFound then .success else .noTcpMssFound,
            { w with seg := s.seg }.fdmaModify t s.modifySize, some s⟩

def udpModifySrc : BitVec 8 := 0x02
def udpModifyDst : BitVec 8 := 0x04
def udpL4Checksum : BitVec 8 := 0x01
def udpChecksum : Nat := 6

structure Hardware where
  frameChecksum : Memory → Nat → Nat → BitVec 16
  generateChecksum : Memory → ParseResult → BitVec 32 × BitVec 16

-- The caller does not look at the status; the FDMA is updated unless the flag says not to.
def l4UdpTcpCksumCalc (hw : Hardware) (pr : ParseResult) (dontUpdateFdma : Bool) (w : Workspace) :
    Workspace :=
  let (hwStatus, l4Checksum) := hw.generateChecksum w.frame pr
  if ¬ (hwStatus = 0 ∨ (0x4000 : BitVec 32).toInt ≤ hwStatus.toInt) then w
  else
    let cs := pr.l4Offset.toNat + if pr.isTcp then tcpChecksum else udpChecksum
    let w := { w with seg := putHalf w.seg cs l4Checksum }
    if dontUpdateFdma then w else w.fdmaModify cs 2

def l4UdpHeaderModification (hw : Hardware) (pr : ParseResult) (flags : BitVec 8)
    (srcPort dstPort : BitVec 16) (w : Workspace) : Status × Workspace :=
  let u := pr.l4Offset.toNat
  let oldHeader := full w.seg u
  if pr.isUdp = false then (.noUdpFound, w)
  else
    let seg := putPorts (flag flags udpModifySrc) (flag flags udpModifyDst) srcPort dstPort u w.seg
    let w := { w with seg := seg }
    let w :=
      if flag flags udpL4Checksum then
        if half seg (u + udpChecksum) = 0 then l4UdpTcpCksumCalc hw pr true (w.fdmaModify u 8)
        else { w with seg := updateCksum seg (u + udpChecksum) oldHeader (full seg u) }
      else w
    (.success, w.fdmaModify u 8)

def tcpHeaderEnd (m : Memory) (t : Nat) : Nat :=
  t + 4 * (m (t + tcpDataOffsetReserved) >>> 4).toNat

-- By the rules of the TCP options, an option of kind 2 stands at `q`.
inductive MeetsMss (m : Memory) (stop : Nat) : Nat → Nat → Prop where
  | here {p : Nat} (inside : p < stop) (kind : m p = 2) : MeetsMss m stop p p
  | noOperation {p q : Nat} (inside : p < stop) (kind : m p = 1) (rest : MeetsMss m stop (p + 1) q) :
      MeetsMss m stop p q
  | other {p q : Nat} (inside : p + 1 < stop) (kind : m p ≠ 0 ∧ m p ≠ 1 ∧ m p ≠ 2)
      (rest : MeetsMss m stop (p + (m (p + 1)).toNat) q) : MeetsMss m stop p q

inductive Orderly (m : Memory) (stop : Nat) : Nat → Prop where
  | endOfList {p : Nat} (inside : p < stop) (kind : m p = 0) : Orderly m stop p
  | mss {p : Nat} (inside : p + 4 ≤ stop) (kind : m p = 2) (next : p + (m (p + 1)).toNat < stop) :
      Orderly m stop p
  | noOperation {p : Nat} (inside : p < stop) (kind : m p = 1) (rest : Orderly m stop (p + 1)) :
      Orderly m stop p
  | other {p : Nat} (inside : p + 1 < stop) (kind : m p ≠ 0 ∧ m p ≠ 1 ∧ m p ≠ 2)
      (rest : Orderly m stop (p + (m (p + 1)).toNat)) : Orderly m stop p

section Fields

variable {flags : BitVec 8} {args : TcpArgs} {t number i : Nat} {m : Memory}

theorem putPortsElsewhere {src dst : Bool} {srcPort dstPort : BitVec 16}
    (apart : i < t ∨ t + 4 ≤ i) : putPorts src dst srcPort dstPort t m i = m i := by
  simp only [putPorts, tcpDstPort]
  split
  · rw [putHalfElsewhere (by omega)]
    split
    · exact putHalfElsewhere (by omega)
    · rfl
  · split
    · exact putHalfElsewhere (by omega)
    · rfl

theorem addDeltaElsewhere {checksum : Bool} {delta : BitVec 16}
    (number_ : i < t + number ∨ t + number + 4 ≤ i)
    (cksum : i < t + tcpChecksum ∨ t + tcpChecksum + 2 ≤ i) :
    addDelta checksum t number delta m i = m i := by
  simp only [addDelta]
  split
  · rw [updateCksumElsewhere cksum, putFullElsewhere number_]
  · exact putFullElsewhere number_

theorem tcpFieldsElsewhere (apart : i < t ∨ t + 12 ≤ i) (cksum : i < t + 16 ∨ t + 18 ≤ i) :
    tcpFields flags args t m i = m i := by
  have ports : ∀ m : Memory, putPorts (flag flags tcpModifySrc) (flag flags tcpModifyDst)
      args.srcPort args.dstPort t m i = m i := fun _ => putPortsElsewhere (by omega)
  have seqnum : ∀ (c : Bool) (m : Memory),
      addDelta c t tcpSequenceNumber args.seqNumDelta m i = m i := fun _ _ =>
    addDeltaElsewhere (by unfold tcpSequenceNumber; omega) cksum
  have acknum : ∀ (c : Bool) (m : Memory),
      addDelta c t tcpAcknowledgmentNumber args.ackNumDelta m i = m i := fun _ _ =>
    addDeltaElsewhere (by unfold tcpAcknowledgmentNumber; omega) cksum
  have updated : ∀ (m : Memory) (v v' : BitVec 32), updateCksum m (t + tcpChecksum) v v' i = m i :=
    fun _ _ _ => updateCksumElsewhere cksum
  simp only [tcpFields]
  split <;> split <;> split <;> simp only [acknum, seqnum, updated, ports]

end Fields

section Rules

variable {m : Memory} {stop p q : Nat}

theorem noMssAtEnd (kind : m p = 0) : ¬ MeetsMss m stop p q := by
  intro meets
  cases meets with
  | here _ two => exact absurd (kind.symm.trans two) (by decide)
  | noOperation _ one _ => exact absurd (kind.symm.trans one) (by decide)
  | other _ others _ => exact others.1 kind

theorem mssHere (kind : m p = 2) : MeetsMss m stop p q ↔ p < stop ∧ q = p := by
  constructor
  · intro meets
    cases meets with
    | here inside _ => exact ⟨inside, rfl⟩
    | noOperation _ one _ => exact absurd (kind.symm.trans one) (by decide)
    | other _ others _ => exact absurd kind others.2.2
  · rintro ⟨inside, rfl⟩
    exact .here inside kind

theorem mssBehindNoOperation (inside : p < stop) (kind : m p = 1) :
    MeetsMss m stop p q ↔ MeetsMss m stop (p + 1) q := by
  constructor
  · intro meets
    cases meets with
    | here _ two => exact absurd (kind.symm.trans two) (by decide)
    | noOperation _ _ rest => exact rest
    | other _ others _ => exact absurd kind others.2.1
  · exact .noOperation inside kind

theorem mssBehindOther (inside : p + 1 < stop) (kind : m p ≠ 0 ∧ m p ≠ 1 ∧ m p ≠ 2) :
    MeetsMss m stop p q ↔ MeetsMss m stop (p + (m (p + 1)).toNat) q := by
  constructor
  · intro meets
    cases meets with
    | here _ two => exact absurd two kind.2.2
    | noOperation _ one _ => exact absurd one kind.2.1
    | other _ _ rest => exact rest
  · exact .other inside kind

end Rules

section Loop

variable {checksum : Bool} {t optionsSize fuel fuel' stop : Nat} {mss : BitVec 16}
  {m : Memory} {s s' : Walk}

theorem walkMore (more : fuel ≤ fuel')
    (ended : walkOptions checksum t optionsSize mss fuel s = some s') :
    walkOptions checksum t optionsSize mss fuel' s = some s' := by
  induction fuel generalizing fuel' s with
  | zero => cases ended
  | succ fuel ih =>
    obtain ⟨rest, rfl⟩ : ∃ rest, fuel' = rest + 1 := ⟨fuel' - 1, by omega⟩
    rw [walkOptions] at ended ⊢
    dsimp only at ended ⊢
    split at ended
    · next on =>
      rw [if_pos on]
      exact ih (by omega) ended
    · next off =>
      rw [if_neg off]
      exact ended

theorem bodyNoOperation (kind : s.seg s.optionsPtr = 1) :
    optionBody checksum t optionsSize mss s = { s with optionsPtr := s.optionsPtr + 1 } := by
  have notMss : s.seg s.optionsPtr ≠ 2 := by rw [kind]; decide
  rw [optionBody, if_neg notMss, advance, if_neg (not_not.mpr kind)]

theorem bodyOther (kind : s.seg s.optionsPtr ≠ 1 ∧ s.seg s.optionsPtr ≠ 2) :
    optionBody checksum t optionsSize mss s =
      { s with optionsPtr := s.optionsPtr + (s.seg (s.optionsPtr + 1)).toNat
               reads := (s.optionsPtr + 1) :: s.reads } := by
  rw [optionBody, if_neg kind.2, advance, if_pos kind.1]

theorem replaceMssParts : (replaceMss checksum t optionsSize mss s).optionsPtr = s.optionsPtr ∧
    (replaceMss checksum t optionsSize mss s).mssFound = true ∧
    (replaceMss checksum t optionsSize mss s).modifySize = optionsSize ∧
    (∀ a ∈ (replaceMss checksum t optionsSize mss s).reads,
      a ∈ s.reads ∨ a = s.optionsPtr + 2 ∨ a = s.optionsPtr + 3) ∧
    (∀ a, a ∈ (replaceMss checksum t optionsSize mss s).writes →
      a ∈ s.writes ∨ a = s.optionsPtr + 2 ∨ a = s.optionsPtr + 3 ∨ a = t + 16 ∨ a = t + 17) ∧
    s.optionsPtr + 3 ∈ (replaceMss checksum t optionsSize mss s).writes := by
  cases checksum with
  | false =>
    refine ⟨rfl, rfl, rfl, fun a mem => .inl mem, fun a mem => ?_, List.mem_cons_self⟩
    simp only [replaceMss, Bool.false_eq_true, if_false, List.mem_cons] at mem
    tauto
  | true =>
    refine ⟨rfl, rfl, rfl, fun a mem => ?_, fun a mem => ?_, ?_⟩
    · simp only [replaceMss, if_true, List.mem_cons] at mem
      tauto
    · simp only [replaceMss, if_true, List.mem_cons, tcpChecksum] at mem
      tauto
    · exact List.mem_cons_of_mem _ (List.mem_cons_of_mem _ List.mem_cons_self)

theorem replaceMssElsewhere {i : Nat}
    (apart : i < s.optionsPtr + 2 ∨ s.optionsPtr + 4 ≤ i) (cksum : i < t + 16 ∨ t + 18 ≤ i) :
    (replaceMss checksum t optionsSize mss s).seg i = s.seg i := by
  cases checksum with
  | false => exact putHalfElsewhere (by omega)
  | true =>
    have updated : (replaceMss true t optionsSize mss s).seg i =
        putHalf s.seg (s.optionsPtr + 2) mss i := updateCksumElsewhere cksum
    rw [updated, putHalfElsewhere (by omega)]

structure Replaced (checksum : Bool) (t optionsSize : Nat) (mss : BitVec 16) (s s' : Walk) : Prop where
  optionsPtr : s'.optionsPtr = s.optionsPtr + (s.seg (s.optionsPtr + 1)).toNat
  mssFound : s'.mssFound = true
  modifySize : s'.modifySize = optionsSize
  seg : s'.seg = (replaceMss checksum t optionsSize mss s).seg
  reads : ∀ a ∈ s'.reads, a ∈ s.reads ∨ s.optionsPtr < a ∧ a < s.optionsPtr + 4
  writes : ∀ a ∈ s'.writes, a ∈ s.writes ∨ s.optionsPtr < a ∧ a < s.optionsPtr + 4 ∨
    a = t + 16 ∨ a = t + 17
  last : s.optionsPtr + 3 ∈ s'.writes

theorem bodyMss (kind : s.seg s.optionsPtr = 2) (options : t + 20 ≤ s.optionsPtr) :
    Replaced checksum t optionsSize mss s (optionBody checksum t optionsSize mss s) := by
  obtain ⟨ptr, found, size, reads, writes, last⟩ := @replaceMssParts checksum t optionsSize mss s
  have kind' : (replaceMss checksum t optionsSize mss s).seg s.optionsPtr ≠ 1 := by
    rw [replaceMssElsewhere (.inl (by omega)) (by omega), kind]
    decide
  have length : (replaceMss checksum t optionsSize mss s).seg (s.optionsPtr + 1) =
      s.seg (s.optionsPtr + 1) := replaceMssElsewhere (.inl (by omega)) (by omega)
  rw [optionBody, if_pos kind, advance, ptr, if_pos kind', length]
  refine ⟨rfl, found, size, rfl, ?_, ?_, last⟩
  · intro a mem
    rcases List.mem_cons.mp mem with here | mem
    · exact .inr ⟨by omega, by omega⟩
    · rcases reads a mem with before | here
      · exact .inl before
      · exact .inr ⟨by omega, by omega⟩
  · intro a mem
    rcases writes a mem with before | here | here | cksum
    · exact .inl before
    · exact .inr (.inl ⟨by omega, by omega⟩)
    · exact .inr (.inl ⟨by omega, by omega⟩)
    · exact .inr (.inr cksum)

theorem replacedMss (options : t + 20 ≤ s.optionsPtr) :
    half (replaceMss checksum t optionsSize mss s).seg (s.optionsPtr + 2) = mss := by
  cases checksum with
  | false => exact halfPut s.seg (s.optionsPtr + 2) mss
  | true =>
    have same : half (replaceMss true t optionsSize mss s).seg (s.optionsPtr + 2) =
        half (putHalf s.seg (s.optionsPtr + 2) mss) (s.optionsPtr + 2) :=
      halfCongr fun i low _ => updateCksumElsewhere (.inr (by unfold tcpChecksum; omega))
    rw [same, halfPut]

theorem bodyGrows : s.reads ⊆ (optionBody checksum t optionsSize mss s).reads ∧
    s.writes ⊆ (optionBody checksum t optionsSize mss s).writes := by
  have advanced : ∀ s : Walk, s.reads ⊆ (advance s).reads ∧ s.writes ⊆ (advance s).writes := by
    intro s
    unfold advance
    dsimp only
    split
    · exact ⟨List.subset_cons_self _ _, List.Subset.refl _⟩
    · exact ⟨List.Subset.refl _, List.Subset.refl _⟩
  have replaced : s.reads ⊆ (replaceMss checksum t optionsSize mss s).reads ∧
      s.writes ⊆ (replaceMss checksum t optionsSize mss s).writes := by
    cases checksum with
    | false => exact ⟨List.Subset.refl _, fun a mem => by simp [replaceMss, mem]⟩
    | true => exact ⟨fun a mem => by simp [replaceMss, mem], fun a mem => by simp [replaceMss, mem]⟩
  unfold optionBody
  split
  · exact ⟨List.Subset.trans replaced.1 (advanced _).1, List.Subset.trans replaced.2 (advanced _).2⟩
  · exact advanced s

theorem walkGrows (ended : walkOptions checksum t optionsSize mss fuel s = some s') :
    s.optionsPtr ∈ s'.reads ∧ s.reads ⊆ s'.reads ∧ s.writes ⊆ s'.writes := by
  induction fuel generalizing s with
  | zero => cases ended
  | succ fuel ih =>
    rw [walkOptions] at ended
    dsimp only at ended
    split at ended
    · obtain ⟨-, reads, writes⟩ := ih ended
      obtain ⟨reads', writes'⟩ := @bodyGrows checksum t optionsSize mss
        { s with reads := s.optionsPtr :: s.reads }
      exact ⟨reads (reads' List.mem_cons_self),
        fun a mem => reads (reads' (List.mem_cons_of_mem _ mem)), List.Subset.trans writes' writes⟩
    · cases ended
      exact ⟨List.mem_cons_self, List.subset_cons_self _ _, List.Subset.refl _⟩

structure Walked (m : Memory) (stop t : Nat) (mss : BitVec 16) (p : Nat) (s s' : Walk) : Prop where
  reads : ∀ a ∈ s'.reads, a ∈ s.reads ∨ a < stop
  writes : ∀ a ∈ s'.writes, a ∈ s.writes ∨ t ≤ a ∧ a < stop
  found : s'.mssFound = true ↔ ∃ q, MeetsMss m stop p q
  replaced : ∀ q, MeetsMss m stop p q → half s'.seg (q + 2) = mss
  kept : ∀ i, i < t ∨ stop ≤ i → s'.seg i = s.seg i

theorem walkStep (on : s.seg s.optionsPtr ≠ 0 ∧ s.mssFound = false ∧ s.optionsPtr < t + optionsSize) :
    walkOptions checksum t optionsSize mss (fuel + 1) s = walkOptions checksum t optionsSize mss fuel
      (optionBody checksum t optionsSize mss { s with reads := s.optionsPtr :: s.reads }) := by
  rw [walkOptions]
  exact if_pos on

theorem walkFound (found : s.mssFound = true) :
    walkOptions checksum t optionsSize mss (fuel + 1) s =
      some { s with reads := s.optionsPtr :: s.reads } := by
  rw [walkOptions]
  exact if_neg fun on => by simp [found] at on

theorem walkEnd (kind : s.seg s.optionsPtr = 0) :
    walkOptions checksum t optionsSize mss (fuel + 1) s =
      some { s with reads := s.optionsPtr :: s.reads } := by
  rw [walkOptions]
  exact if_neg fun on => on.1 kind

theorem orderlyWalks {p : Nat} (orderly : Orderly m stop p) (start : s.optionsPtr = p)
    (looking : s.mssFound = false) (same : ∀ i, t + 20 ≤ i → s.seg i = m i) (options : t + 20 ≤ p)
    (covered : stop ≤ t + optionsSize) :
    ∃ fuel s', walkOptions checksum t optionsSize mss fuel s = some s' ∧
      Walked m stop t mss p s s' := by
  induction orderly generalizing s with
  | @endOfList p inside kind =>
    have kind' : s.seg s.optionsPtr = 0 := by rw [start, same p options, kind]
    refine ⟨1, _, walkEnd kind', ?_, fun a mem => .inl mem, ?_, ?_, fun i _ => rfl⟩
    · intro a mem
      rcases List.mem_cons.mp mem with here | before
      · exact .inr (by omega)
      · exact .inl before
    · rw [looking]
      exact ⟨fun no => absurd no (by decide), fun ⟨q, meets⟩ => absurd meets (noMssAtEnd kind)⟩
    · intro q meets
      exact absurd meets (noMssAtEnd kind)
  | @mss p inside kind next =>
    have kind' : s.seg s.optionsPtr = 2 := by rw [start, same p options, kind]
    have on : s.seg s.optionsPtr ≠ 0 ∧ s.mssFound = false ∧ s.optionsPtr < t + optionsSize := by
      refine ⟨?_, looking, by omega⟩
      rw [kind']
      decide
    have body := @bodyMss checksum t optionsSize mss { s with reads := s.optionsPtr :: s.reads }
      kind' (by rw [start]; exact options)
    refine ⟨2, _, (walkStep on).trans (walkFound body.mssFound), ?_, ?_, ?_, ?_, ?_⟩
    · intro a mem
      rcases List.mem_cons.mp mem with here | mem
      · refine .inr ?_
        rw [here, body.optionsPtr]
        simpa only [start, same (p + 1) (by omega)] using next
      · rcases body.reads a mem with before | here
        · rcases List.mem_cons.mp before with here | before
          · exact .inr (by omega)
          · exact .inl before
        · exact .inr (by simp only at here; omega)
    · intro a mem
      rcases body.writes a mem with before | here | cksum
      · exact .inl before
      · exact .inr (by simp only at here; omega)
      · exact .inr (by omega)
    · exact ⟨fun _ => ⟨p, .here (by omega) kind⟩, fun _ => body.mssFound⟩
    · intro q meets
      obtain ⟨-, rfl⟩ := (mssHere kind).mp meets
      change half (optionBody _ _ _ _ _).seg _ = _
      rw [body.seg, ← start]
      exact replacedMss (s := { s with reads := s.optionsPtr :: s.reads }) (by rw [start]; exact options)
    · intro i outside
      change (optionBody _ _ _ _ _).seg i = _
      rw [body.seg, replaceMssElsewhere (by simp only; omega) (by omega)]
  | @noOperation p inside kind rest ih =>
    have kind' : s.seg s.optionsPtr = 1 := by rw [start, same p options, kind]
    have on : s.seg s.optionsPtr ≠ 0 ∧ s.mssFound = false ∧ s.optionsPtr < t + optionsSize := by
      refine ⟨?_, looking, by omega⟩
      rw [kind']
      decide
    obtain ⟨fuel, s', ended, walked⟩ := @ih
      { s with reads := s.optionsPtr :: s.reads, optionsPtr := s.optionsPtr + 1 }
      (by rw [start]) looking same (by omega)
    refine ⟨fuel + 1, s', ?_, ?_, walked.writes, ?_, ?_, walked.kept⟩
    · rw [walkStep on, bodyNoOperation (s := { s with reads := s.optionsPtr :: s.reads }) kind']
      exact ended
    · intro a mem
      rcases walked.reads a mem with before | below
      · rcases List.mem_cons.mp before with here | before
        · exact .inr (by omega)
        · exact .inl before
      · exact .inr below
    · simp only [mssBehindNoOperation inside kind]
      exact walked.found
    · simp only [mssBehindNoOperation inside kind]
      exact walked.replaced
  | @other p inside kind rest ih =>
    have kind' : s.seg s.optionsPtr ≠ 0 ∧ s.seg s.optionsPtr ≠ 1 ∧ s.seg s.optionsPtr ≠ 2 := by
      rw [start, same p options]
      exact kind
    have on : s.seg s.optionsPtr ≠ 0 ∧ s.mssFound = false ∧ s.optionsPtr < t + optionsSize :=
      ⟨kind'.1, looking, by omega⟩
    obtain ⟨fuel, s', ended, walked⟩ := @ih
      { s with optionsPtr := s.optionsPtr + (s.seg (s.optionsPtr + 1)).toNat
               reads := (s.optionsPtr + 1) :: s.optionsPtr :: s.reads }
      (by rw [start, same (p + 1) (by omega)]) looking same (by omega)
    refine ⟨fuel + 1, s', ?_, ?_, walked.writes, ?_, ?_, walked.kept⟩
    · rw [walkStep on, bodyOther (s := { s with reads := s.optionsPtr :: s.reads }) kind'.2]
      exact ended
    · intro a mem
      rcases walked.reads a mem with before | below
      · rcases List.mem_cons.mp before with here | before
        · exact .inr (by omega)
        · rcases List.mem_cons.mp before with here | before
          · exact .inr (by omega)
          · exact .inl before
      · exact .inr below
    · simp only [mssBehindOther inside kind]
      exact walked.found
    · simp only [mssBehindOther inside kind]
      exact walked.replaced

theorem walksOrderly (ended : walkOptions checksum t optionsSize mss fuel s = some s')
    (looking : s.mssFound = false) (same : ∀ i, t + 20 ≤ i → s.seg i = m i)
    (options : t + 20 ≤ s.optionsPtr) (covered : stop ≤ t + optionsSize)
    (reads : ∀ a ∈ s'.reads, a < stop) (writes : ∀ a ∈ s'.writes, a < stop) :
    Orderly m stop s.optionsPtr := by
  induction fuel generalizing s with
  | zero => cases ended
  | succ fuel ih =>
    have inside : s.optionsPtr < stop := reads _ (walkGrows ended).1
    have kindSame := same s.optionsPtr options
    by_cases zero : s.seg s.optionsPtr = 0
    · exact .endOfList inside (kindSame.symm.trans zero)
    · rw [walkStep ⟨zero, looking, by omega⟩] at ended
      have grown := walkGrows ended
      by_cases one : s.seg s.optionsPtr = 1
      · rw [bodyNoOperation (s := { s with reads := s.optionsPtr :: s.reads }) one] at ended
        exact .noOperation inside (kindSame.symm.trans one)
          (ih ended looking same (by simp only; omega))
      · by_cases two : s.seg s.optionsPtr = 2
        · have body := @bodyMss checksum t optionsSize mss
            { s with reads := s.optionsPtr :: s.reads } two options
          have last := writes _ (grown.2.2 body.last)
          have next := reads _ grown.1
          rw [body.optionsPtr] at next
          simp only at last next
          rw [same (s.optionsPtr + 1) (by omega)] at next
          exact .mss (by omega) (kindSame.symm.trans two) next
        · rw [bodyOther (s := { s with reads := s.optionsPtr :: s.reads }) ⟨one, two⟩] at ended grown
          have length := reads _ (grown.2.1 List.mem_cons_self)
          simp only at length
          have rest := ih ended looking same (by simp only; omega)
          simp only [same (s.optionsPtr + 1) (by omega)] at rest
          rw [kindSame] at zero one two
          exact .other length ⟨zero, one, two⟩ rest

theorem emptyOptionStays (kind : s.seg s.optionsPtr ≠ 0 ∧ s.seg s.optionsPtr ≠ 1 ∧ s.seg s.optionsPtr ≠ 2)
    (length : s.seg (s.optionsPtr + 1) = 0) (looking : s.mssFound = false)
    (inside : s.optionsPtr < t + optionsSize) :
    walkOptions checksum t optionsSize mss fuel s = none := by
  induction fuel generalizing s with
  | zero => rfl
  | succ fuel ih =>
    rw [walkStep ⟨kind.1, looking, inside⟩,
      bodyOther (s := { s with reads := s.optionsPtr :: s.reads }) kind.2]
    have stays : s.optionsPtr + (s.seg (s.optionsPtr + 1)).toNat = s.optionsPtr := by
      rw [length]
      rfl
    simp only [stays]
    exact ih kind length looking inside

end Loop

def tcpParsed : ParseResult := ⟨true, false, true, true, false, false, 0, 0⟩

def mssOnly : TcpArgs := ⟨0, 0, 0, 0, 1400⟩

def header (dataOffset : BitVec 8) (options : List (BitVec 8)) : Workspace :=
  let seg : Memory := fun i => if i = tcpDataOffsetReserved then dataOffset else options.getD (i - 20) 0
  ⟨seg, seg⟩

def ordinaryHeader : Workspace := header 0x70 [2, 4, 5, 180, 1, 1, 1, 0]

def loneMss : Workspace := header 0x60 [2, 4, 5, 180]

def emptyOption : Workspace := header 0x60 [3, 0, 0, 0]

structure MssWalk (w : Workspace) (t : Nat) (mss : BitVec 16) (call : TcpCall) : Prop where
  walked : ∃ s, call.walk = some s
  reads : ∀ s ∈ call.walk, ∀ a ∈ s.reads, a < tcpHeaderEnd w.seg t
  writes : ∀ s ∈ call.walk, ∀ a ∈ s.writes, t ≤ a ∧ a < tcpHeaderEnd w.seg t
  kept : ∀ i, i < t ∨ tcpHeaderEnd w.seg t ≤ i → call.workspace.seg i = w.seg i
  found : call.status = .success ↔ ∃ q, MeetsMss w.seg (tcpHeaderEnd w.seg t) (t + tcpNoOptionSize) q
  replaced : ∀ q, MeetsMss w.seg (tcpHeaderEnd w.seg t) (t + tcpNoOptionSize) q →
    half call.workspace.seg (q + 2) = mss

section Calls

variable (pr : ParseResult) (flags : BitVec 8) (args : TcpArgs) (w : Workspace)

theorem headerEndCovered (m : Memory) (t : Nat) :
    tcpHeaderEnd m t ≤ t + (m (t + tcpDataOffsetReserved) >>> tcpDataOffsetShift).toNat := by
  unfold tcpHeaderEnd tcpDataOffsetShift
  rw [BitVec.toNat_ushiftRight, BitVec.toNat_ushiftRight, Nat.shiftRight_eq_div_pow,
    Nat.shiftRight_eq_div_pow]
  omega

theorem optionsKept {t : Nat} (i : Nat) (behind : t + 20 ≤ i) : tcpFields flags args t w.seg i = w.seg i :=
  tcpFieldsElsewhere (by omega) (by omega)

theorem dataOffsetKept (t : Nat) :
    tcpFields flags args t w.seg (t + tcpDataOffsetReserved) = w.seg (t + tcpDataOffsetReserved) := by
  unfold tcpDataOffsetReserved
  exact tcpFieldsElsewhere (by omega) (by omega)

theorem l4TcpWalk (tcp : pr.isTcp = true) (options : pr.isTcpOptions = true)
    (modifiesMss : flag flags tcpModifyMss = true) (fuel : Nat) :
    l4TcpHeaderModification fuel pr flags args w =
      (walkOptions (flag flags tcpL4Checksum) pr.l4Offset.toNat
        (w.seg (pr.l4Offset.toNat + tcpDataOffsetReserved) >>> tcpDataOffsetShift).toNat args.mss fuel
        ⟨pr.l4Offset.toNat + tcpNoOptionSize, false, tcpNoOptionSize,
          tcpFields flags args pr.l4Offset.toNat w.seg, [], []⟩).map fun s =>
        ⟨if s.mssFound then .success else .noTcpMssFound,
          { w with seg := s.seg }.fdmaModify pr.l4Offset.toNat s.modifySize, some s⟩ := by
  simp only [l4TcpHeaderModification, tcp, options, modifiesMss, dataOffsetKept, Bool.true_eq_false,
    if_false]
  split
  · next none_ =>
    rw [none_]
    rfl
  · next s some_ =>
    rw [some_]
    rfl

theorem tcpMssWalk (tcp : pr.isTcp = true) (options : pr.isTcpOptions = true)
    (modifiesMss : flag flags tcpModifyMss = true) :
    ((∃ fuel, (l4TcpHeaderModification fuel pr flags args w).isSome) ∧
      ∀ fuel call, l4TcpHeaderModification fuel pr flags args w = some call →
        MssWalk w pr.l4Offset.toNat args.mss call) ↔
    Orderly w.seg (tcpHeaderEnd w.seg pr.l4Offset.toNat) (pr.l4Offset.toNat + tcpNoOptionSize) := by
  simp only [l4TcpWalk pr flags args w tcp options modifiesMss]
  generalize pr.l4Offset.toNat = t
  have covered := headerEndCovered w.seg t
  have same := fun i => optionsKept flags args w (t := t) i
  constructor
  · rintro ⟨⟨fuel, ended⟩, every⟩
    obtain ⟨call, given⟩ := Option.isSome_iff_exists.mp ended
    obtain ⟨s, walked, rfl⟩ := Option.map_eq_some_iff.mp given
    have good := every fuel _ given
    exact walksOrderly walked rfl same (Nat.le_refl _) covered (good.reads s rfl)
      fun a mem => (good.writes s rfl a mem).2
  · intro orderly
    obtain ⟨fuel, s, ended, walked⟩ := @orderlyWalks (flag flags tcpL4Checksum) t
      (w.seg (t + tcpDataOffsetReserved) >>> tcpDataOffsetShift).toNat _ args.mss w.seg
      ⟨t + tcpNoOptionSize, false, tcpNoOptionSize, tcpFields flags args t w.seg, [], []⟩ _
      orderly rfl rfl same (Nat.le_refl _) covered
    have header : t + 20 < tcpHeaderEnd w.seg t := by
      cases orderly with
      | endOfList inside _ => exact inside
      | mss inside _ _ => unfold tcpNoOptionSize at inside; omega
      | noOperation inside _ _ => exact inside
      | other inside _ _ => unfold tcpNoOptionSize at inside; omega
    refine ⟨⟨fuel, by rw [ended]; rfl⟩, ?_⟩
    intro fuel' call given
    obtain ⟨s', ended', rfl⟩ := Option.map_eq_some_iff.mp given
    have one : s' = s := by
      have first := walkMore (Nat.le_max_left fuel fuel') ended
      have second := walkMore (Nat.le_max_right fuel fuel') ended'
      exact Option.some.inj (second.symm.trans first)
    subst one
    refine ⟨⟨s', rfl⟩, ?_, ?_, ?_, ?_, walked.replaced⟩
    · intro _ here a mem
      obtain rfl := Option.some.inj here
      rcases walked.reads a mem with none_ | below
      · cases none_
      · exact below
    · intro _ here a mem
      obtain rfl := Option.some.inj here
      rcases walked.writes a mem with none_ | inside
      · cases none_
      · exact inside
    · intro i outside
      change s'.seg i = w.seg i
      rw [walked.kept i outside]
      exact tcpFieldsElsewhere (by omega) (by omega)
    · rw [← walked.found]
      cases s'.mssFound with
      | true => exact ⟨fun _ => rfl, fun _ => rfl⟩
      | false => exact ⟨fun no => (nomatch no), fun no => (nomatch no)⟩

end Calls

theorem tcpMssWalkOrdinary :
    (∃ fuel, (l4TcpHeaderModification fuel tcpParsed tcpModifyMss mssOnly ordinaryHeader).isSome) ∧
      ∀ fuel call, l4TcpHeaderModification fuel tcpParsed tcpModifyMss mssOnly ordinaryHeader = some call →
        MssWalk ordinaryHeader 0 1400 call :=
  (tcpMssWalk tcpParsed tcpModifyMss mssOnly ordinaryHeader rfl rfl rfl).mpr
    (.mss (by decide) (by decide) (by decide))

theorem tcpMssWalkFails :
    (∀ fuel, l4TcpHeaderModification fuel tcpParsed tcpModifyMss mssOnly emptyOption = none) ∧
      ∃ call, l4TcpHeaderModification 2 tcpParsed tcpModifyMss mssOnly loneMss = some call ∧
        ¬ MssWalk loneMss 0 1400 call := by
  constructor
  · intro fuel
    rw [l4TcpWalk tcpParsed tcpModifyMss mssOnly emptyOption rfl rfl rfl]
    rw [emptyOptionStays (by decide) (by decide) rfl (by decide)]
    rfl
  · refine Exists.intro _ (And.intro rfl fun good => ?_)
    exact absurd (good.reads _ rfl 24 (by decide)) (by decide)

end Flexbuild.HeaderModification
