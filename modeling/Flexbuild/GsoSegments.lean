import Flexbuild.GsoHeaders

/-! All segments of a frame. Between two calls the context keeps the payload that remains
behind the headers of the segment before, and each call emits the next part of the payload
behind headers that are right for it. -/
namespace Flexbuild.TcpSegmentation
open ByteMemory (Byte)
open Fields

def urgentSet (pr : ParseResult) (frame : List Byte) : Prop :=
  byteAt frame (pr.l4Offset.toNat + tcpFlags) &&& urgFlag ≠ 0

def urgentOf (pr : ParseResult) (frame : List Byte) : Nat := (halfAt frame (pr.l4Offset.toNat + urgentPointer)).toNat

structure Headers (pr : ParseResult) (frame : List Byte) (mss : BitVec 16) (k : Nat) (finPsh : Byte) (size : Nat)
    (l : List Byte) : Prop where
  shaped : Shaped pr frame mss k finPsh l
  length : LengthRight pr size l
  urgent : urgentSet pr frame → UrgentRight pr mss (urgentOf pr frame) k l

structure Settled (pr : ParseResult) (segLength mss : BitVec 16) (frame : List Byte) (ctx : TcpGsoContext) : Prop where
  ip : ctx.ipOffset = pr.outerIpOffset
  tcp : ctx.tcpOffset = pr.l4Offset
  largest : ctx.mss = mss
  presented : ctx.segLength = segLength
  headers : ctx.headersSize.toNat = headersOf pr frame
  split : ctx.splitSize.toNat = headersOf pr frame + mss.toNat
  saved : (ctx.internalFlags &&& (tcpGsoFinBit ||| tcpGsoPshBit)).setWidth 8 =
    byteAt frame (pr.l4Offset.toNat + tcpFlags) &&& (finFlag ||| pshFlag)

structure Between (pr : ParseResult) (segLength mss : BitVec 16) (frame : List Byte) (k : Nat) (ctx : TcpGsoContext) :
    Prop extends Settled pr segLength mss frame ctx where
  later : ctx.firstSeg = false
  ipv4 : ctx.ipv4 = pr.outerIpv4
  remaining : ∃ header, header.length = headersOf pr frame ∧
    ctx.remFrame = header ++ frame.drop (headersOf pr frame + (k + 1) * mss.toNat) ∧ Shaped pr frame mss k 0 header ∧
    LengthRight pr (headersOf pr frame + mss.toNat) header ∧
    (urgentSet pr frame → Pending pr mss (urgentOf pr frame) (k + 1) header ctx.urgent)

section
variable {pr : ParseResult} {outside : Outside} {headersSize segLength mss : BitVec 16} {frame l l' cut : List Byte}
  {k size : Nat} {finPsh : Byte} {ctx : TcpGsoContext}

theorem Headers.congr (right : Headers pr frame mss k finPsh size l) (fits : TcpFrame pr segLength mss frame)
    (long : headersOf pr frame ≤ l'.length)
    (same : ∀ j < headersOf pr frame, ¬ Scratch pr j → byteAt l' j = byteAt l j) :
    Headers pr frame mss k finPsh size l' :=
  ⟨right.shaped.congr fits long same, right.length.congr fits same, fun set => (right.urgent set).congr fits same⟩

theorem Headers.done (right : Headers pr frame mss k finPsh size l) (fits : TcpFrame pr segLength mss frame)
    (headers : headersSize.toNat = headersOf pr frame) (longCut : headersOf pr frame ≤ cut.length)
    (front : ∀ j < pr.outerIpOffset.toNat, byteAt cut j = byteAt l j) :
    let out := segmentDone pr outside headersSize cut l pr.outerIpOffset.toNat pr.l4Offset.toNat
    Headers pr frame mss k finPsh size out ∧ out.length = cut.length ∧
      out.drop (headersOf pr frame) = cut.drop (headersOf pr frame) := by
  intro out
  have tcp := fits.tcp
  have apart := fits.apart
  have long := right.shaped.long
  have length : out.length = cut.length := segmentDoneLength
  refine ⟨right.congr fits (length ▸ longCut) fun j below plain => ?_, length, ?_⟩
  · exact segmentDoneBytes (by omega) (by omega) (by omega) rfl rfl front (by omega) plain
  · have drop := @segmentDoneDrop pr outside headersSize cut l pr.outerIpOffset.toNat pr.l4Offset.toNat
      (by omega) (by omega)
    rwa [headers] at drop

theorem Headers.identified (right : Headers pr frame mss k finPsh size l) (fits : TcpFrame pr segLength mss frame)
    (v : BitVec 16) : Headers pr frame mss k finPsh size
      (if pr.outerIpv4 then setHalf l (pr.outerIpOffset.toNat + ipv4Id) v else l) := by
  split
  · rename_i v4
    refine right.congr fits (by rw [setHalfLength]; exact right.shaped.long) fun j _ plain => byteOutside ?_
    unfold Scratch at plain
    simp only [v4, true_and] at plain
    change j < pr.outerIpOffset.toNat + 4 ∨ pr.outerIpOffset.toNat + 4 + 2 ≤ j
    omega
  · exact right

theorem identifiedOutside (v4 : Bool) (v : BitVec 16) {j : Nat}
    (outside : j < pr.outerIpOffset.toNat + 4 ∨ pr.outerIpOffset.toNat + 6 ≤ j) :
    byteAt (if v4 then setHalf l (pr.outerIpOffset.toNat + ipv4Id) v else l) j = byteAt l j := by
  split
  · exact byteOutside outside
  · rfl

theorem identifiedLength (v4 : Bool) (v : BitVec 16) :
    (if v4 then setHalf l (pr.outerIpOffset.toNat + ipv4Id) v else l).length = l.length := by
  split
  · exact setHalfLength _ _ _
  · rfl

theorem Shaped.complete {urgent : BitVec 16} (shaped : Shaped pr frame mss k finPsh l) (length : LengthRight pr size l)
    (fits : TcpFrame pr segLength mss frame)
    (pending : urgentSet pr frame → Pending pr mss (urgentOf pr frame) k l urgent) :
    let r := urgentCalculation l pr.l4Offset.toNat mss urgent
    Headers pr frame mss k finPsh size r.1 ∧
      (urgentSet pr frame → Pending pr mss (urgentOf pr frame) (k + 1) r.1 (urgent - r.2)) := by
  intro r
  have tcp := fits.tcp
  have long := shaped.long
  exact ⟨⟨shaped.urgentPart fits, length.urgentPart fits, fun set =>
    ((pending set).step (by omega) fits.positive).1⟩, fun set => ((pending set).step (by omega) fits.positive).2⟩

def emission (pr : ParseResult) (outside : Outside) (ctx : TcpGsoContext) (l : List Byte) :
    SegStatus × List Byte × TcpGsoContext :=
  let r := urgentCalculation l pr.l4Offset.toNat ctx.mss ctx.urgent
  (.inProcess, segmentDone pr outside ctx.headersSize (ctx.remFrame.take ctx.splitSize.toNat)
    (if pr.outerIpv4 then setHalf r.1 (pr.outerIpOffset.toNat + ipv4Id) (outside.random.setWidth 16) else r.1)
    pr.outerIpOffset.toNat pr.l4Offset.toNat,
    { ctx with
      firstSeg := false
      ipv4 := pr.outerIpv4
      urgent := ctx.urgent - r.2
      remFrame := r.1.take ctx.headersSize.toNat ++ ctx.remFrame.drop ctx.splitSize.toNat })

theorem emissionRight (settled : Settled pr segLength mss frame ctx) (fits : TcpFrame pr segLength mss frame)
    (behind : ctx.remFrame.drop (headersOf pr frame) = frame.drop (headersOf pr frame + k * mss.toNat))
    (full : headersOf pr frame + mss.toNat ≤ ctx.remFrame.length)
    (shaped : Shaped pr frame mss k 0 l) (length : LengthRight pr (headersOf pr frame + mss.toNat) l)
    (pending : urgentSet pr frame → Pending pr mss (urgentOf pr frame) k l ctx.urgent)
    (front : ∀ j < pr.outerIpOffset.toNat, byteAt ctx.remFrame j = byteAt l j) :
    let r := emission pr outside ctx l
    r.1 = .inProcess ∧ Headers pr frame mss k 0 r.2.1.length r.2.1 ∧
      r.2.1.drop (headersOf pr frame) = (frame.drop (headersOf pr frame + k * mss.toNat)).take mss.toNat ∧
      Between pr segLength mss frame k r.2.2 := by
  intro r
  obtain ⟨ip, tcp, rfl, presented, headers, split, saved⟩ := settled
  have room := fits.tcp
  have apart := fits.apart
  have cutLength : (ctx.remFrame.take ctx.splitSize.toNat).length = headersOf pr frame + ctx.mss.toNat := by
    rw [List.length_take]
    omega
  obtain ⟨right, left⟩ := shaped.complete length fits pending
  have run : r = emission pr outside ctx l := rfl
  unfold emission at run
  have same (j : Nat) (below : j < pr.outerIpOffset.toNat) : byteAt (ctx.remFrame.take ctx.splitSize.toNat) j =
      byteAt (urgentCalculation l pr.l4Offset.toNat ctx.mss ctx.urgent).1 j := by
    rw [urgentOutside (by omega) (by omega), byteTake (by omega)]
    exact front j below
  generalize urgentCalculation l pr.l4Offset.toNat ctx.mss ctx.urgent = e at *
  have long := right.shaped.long
  have identified := right.identified fits (outside.random.setWidth 16)
  obtain ⟨done, size, payload⟩ := @Headers.done pr outside ctx.headersSize segLength ctx.mss frame _
    (ctx.remFrame.take ctx.splitSize.toNat) k _ 0 identified fits headers (by omega)
    fun j below => (same j below).trans (identifiedOutside _ _ (by omega)).symm
  rw [run]
  refine ⟨rfl, ?_, ?_, ⟨ip, tcp, rfl, presented, headers, split, saved⟩, rfl, rfl, e.1.take (headersOf pr frame),
    ?_, ?_, ?_, ?_, ?_⟩
  · simp only
    rw [size, cutLength]
    exact done
  · refine payload.trans ?_
    rw [List.drop_take, behind, split, Nat.add_sub_cancel_left]
  · rw [List.length_take]
    exact Nat.min_eq_left long
  · simp only
    rw [headers, split, ← List.drop_drop, behind, List.drop_drop, Nat.succ_mul, Nat.add_assoc]
  · exact right.shaped.congr fits (by rw [List.length_take]; exact Nat.le_of_eq (Nat.min_eq_left long).symm)
      fun j below _ => byteTake below
  · exact right.length.congr fits fun j below _ => byteTake below
  · exact fun set => (left set).congr (by rw [byteTake (by unfold tcpFlags; omega)])
      (halfCongr fun j _ high => byteTake (by unfold urgentPointer at high; omega))

theorem Between.front (between : Between pr segLength mss frame k ctx) : ∃ header : List Byte,
    Shaped pr frame mss k 0 header ∧ LengthRight pr (headersOf pr frame + mss.toNat) header ∧
    (urgentSet pr frame → Pending pr mss (urgentOf pr frame) (k + 1) header ctx.urgent) ∧
    ctx.remFrame.length = headersOf pr frame + (frame.length - (headersOf pr frame + (k + 1) * mss.toNat)) ∧
    ctx.remFrame.drop (headersOf pr frame) = frame.drop (headersOf pr frame + (k + 1) * mss.toNat) ∧
    ∀ j < headersOf pr frame, byteAt ctx.remFrame j = byteAt header j := by
  obtain ⟨settled, later, ipv4, header, long, remaining, shaped, length, pending⟩ := between
  refine ⟨header, shaped, length, pending, ?_, ?_, fun j below => ?_⟩
  · rw [remaining, List.length_append, List.length_drop, long]
  · rw [remaining, ← long, List.drop_left]
  · rw [remaining, byteAppend (by omega)]

theorem Between.next (between : Between pr segLength mss frame k ctx) (fits : TcpFrame pr segLength mss frame)
    (more : headersOf pr frame + (k + 2) * mss.toNat < frame.length) :
    let r := tcpGsoSplitSegment pr outside ctx
    r.1 = .inProcess ∧ Headers pr frame mss (k + 1) 0 r.2.1.length r.2.1 ∧
      r.2.1.drop (headersOf pr frame) = (frame.drop (headersOf pr frame + (k + 1) * mss.toNat)).take mss.toNat ∧
      Between pr segLength mss frame (k + 1) r.2.2 := by
  have settled := between.toSettled
  have split := settled.split
  have room := fits.tcp
  have apart := fits.apart
  have seen := fits.presented
  have after : (k + 2) * mss.toNat = (k + 1) * mss.toNat + mss.toNat := Nat.succ_mul _ _
  obtain ⟨header, shaped, length, pending, size, behind, front⟩ := between.front
  have cut : fdmaSplitFrame ctx.remFrame ctx.splitSize.toNat =
      some (ctx.remFrame.take ctx.splitSize.toNat, ctx.remFrame.drop ctx.splitSize.toNat) := if_neg (by omega)
  have run : tcpGsoSplitSegment pr outside ctx = emission pr outside ctx
      (addSequence ((ctx.remFrame.take ctx.splitSize.toNat).take ctx.segLength.toNat) pr.l4Offset.toNat mss) := by
    rw [tcpGsoSplitSegment, cut]
    simp only [between.later, settled.ip, settled.tcp, settled.largest, between.ipv4, Bool.false_eq_true, if_false,
      emission]
  have seenSegment (j : Nat) (below : j < headersOf pr frame) : byteAt ((ctx.remFrame.take ctx.splitSize.toNat).take
      ctx.segLength.toNat) j = byteAt ctx.remFrame j := by
    rw [settled.presented, byteTake (by omega), byteTake (by omega)]
  have longFirst : headersOf pr frame ≤ ((ctx.remFrame.take ctx.splitSize.toNat).take ctx.segLength.toNat).length := by
    rw [List.length_take, List.length_take, settled.presented]
    omega
  generalize (ctx.remFrame.take ctx.splitSize.toNat).take ctx.segLength.toNat = l at *
  have segment (j : Nat) (below : j < headersOf pr frame) : byteAt l j = byteAt header j :=
    (seenSegment j below).trans (front j below)
  rw [run]
  refine emissionRight settled fits behind (by omega)
    ((shaped.congr fits longFirst fun j below _ => segment j below).addSequence fits)
    ((length.congr fits fun j below _ => segment j below).addSequence fits) (fun set => (pending set).congr
      (by rw [addSequenceOutside (by unfold tcpFlags; omega), segment _ (by unfold tcpFlags; omega)])
      ((halfCongr fun j low _ => addSequenceOutside (by unfold urgentPointer at low; omega)).trans
        (halfCongr fun j _ high => segment j (by unfold urgentPointer at high; omega)))) ?_
  intro j below
  rw [addSequenceOutside (by omega)]
  exact (seenSegment j (by omega)).symm

def lastHeaders (ctx : TcpGsoContext) (l : List Byte) : List Byte :=
  let length := BitVec.ofNat 16 ctx.remFrame.length - ctx.ipOffset.setWidth 16
  let l := setLength ctx.ipv4 l ctx.ipOffset.toNat length
  let saved := (ctx.internalFlags &&& (tcpGsoFinBit ||| tcpGsoPshBit)).setWidth 8
  addSequence (setByte l (ctx.tcpOffset.toNat + tcpFlags) (byteAt l (ctx.tcpOffset.toNat + tcpFlags) ||| saved))
    ctx.tcpOffset.toNat ctx.mss

theorem lastRun (settled : Settled pr segLength mss frame ctx)
    (short : ctx.remFrame.length ≤ headersOf pr frame + mss.toNat) :
    tcpGsoSplitSegment pr outside ctx = (.done, segmentDone pr outside ctx.headersSize ctx.remFrame
      (urgentCalculation (lastHeaders ctx (ctx.remFrame.take segLength.toNat)) pr.l4Offset.toNat mss ctx.urgent).1
      pr.outerIpOffset.toNat pr.l4Offset.toNat, ctx) := by
  have none : fdmaSplitFrame ctx.remFrame ctx.splitSize.toNat = none := if_pos (by rw [settled.split]; exact short)
  rw [tcpGsoSplitSegment, none]
  simp only [settled.ip, settled.tcp, settled.largest, settled.presented, lastHeaders]

theorem lastShaped (settled : Settled pr segLength mss frame ctx) (fits : TcpFrame pr segLength mss frame)
    (kind : ctx.ipv4 = pr.outerIpv4 ∨ ctx.ipv4 = false) (shaped : Shaped pr frame mss k 0 l) :
    Shaped pr frame mss (k + 1) (byteAt frame (pr.l4Offset.toNat + tcpFlags) &&& (finFlag ||| pshFlag))
      (lastHeaders ctx l) := by
  obtain ⟨ip, tcp, rfl, -, -, -, saved⟩ := settled
  have both (v : BitVec 16) : Shaped pr frame ctx.mss k 0 (setLength ctx.ipv4 l pr.outerIpOffset.toNat v) := by
    rcases kind with same | other
    · rw [same]
      exact shaped.setLength fits v
    · cases v4 : pr.outerIpv4 with
      | false =>
        rw [other, ← v4]
        exact shaped.setLength fits v
      | true =>
        refine shaped.congr fits (by rw [setLengthLength]; exact shaped.long) fun j _ plain => setLengthOutside ?_
        unfold Scratch at plain
        simp only [v4, true_and] at plain
        rw [other, if_neg Bool.false_ne_true]
        omega
  unfold lastHeaders
  simp only [saved, ip, tcp]
  exact ((both _).setFlags fits (by rw [BitVec.and_assoc, BitVec.and_self])).addSequence fits

theorem lastLength (settled : Settled pr segLength mss frame ctx) (fits : TcpFrame pr segLength mss frame)
    (kind : ctx.ipv4 = pr.outerIpv4) (long : headersOf pr frame ≤ l.length)
    (above : headersOf pr frame ≤ ctx.remFrame.length) (small : ctx.remFrame.length < 2 ^ 16) :
    LengthRight pr ctx.remFrame.length (lastHeaders ctx l) := by
  have apart := fits.apart
  have tcp := fits.tcp
  obtain ⟨ip, tcpOffset, rfl, -, -, -, -⟩ := settled
  have value : (BitVec.ofNat 16 ctx.remFrame.length - pr.outerIpOffset.setWidth 16).toNat =
      ctx.remFrame.length - pr.outerIpOffset.toNat := by
    rw [BitVec.toNat_sub, BitVec.toNat_ofNat, BitVec.toNat_setWidth]
    omega
  unfold lastHeaders
  simp only [ip, tcpOffset, kind]
  refine LengthRight.addSequence ?_ fits
  refine (congrArg _ (lengthCongr fun j below => ?_)).trans (setLengthRight fits long value above)
  exact byteOutside (.inl (by unfold tcpFlags; omega))

theorem lastOutside (settled : Settled pr segLength mss frame ctx) {j : Nat}
    (length : if ctx.ipv4 then j < pr.outerIpOffset.toNat + 2 ∨ pr.outerIpOffset.toNat + 4 ≤ j
      else j < pr.outerIpOffset.toNat + 4 ∨ pr.outerIpOffset.toNat + 6 ≤ j)
    (sequence : j < pr.l4Offset.toNat + 4 ∨ pr.l4Offset.toNat + 8 ≤ j) (flags : j ≠ pr.l4Offset.toNat + 13) :
    byteAt (lastHeaders ctx l) j = byteAt l j := by
  obtain ⟨ip, tcpOffset, -, -, -, -, -⟩ := settled
  unfold lastHeaders
  simp only [ip, tcpOffset]
  rw [addSequenceOutside sequence, setByte, byteOutside, setLengthOutside length]
  change _ ∨ pr.l4Offset.toNat + 13 + 1 ≤ j
  unfold tcpFlags
  omega

theorem lastFront (settled : Settled pr segLength mss frame ctx) (fits : TcpFrame pr segLength mss frame) {j : Nat}
    (below : j < pr.outerIpOffset.toNat) : byteAt (lastHeaders ctx l) j = byteAt l j := by
  have apart := fits.apart
  exact lastOutside settled (by split <;> omega) (by omega) (by omega)

theorem lastUrgent (settled : Settled pr segLength mss frame ctx) (fits : TcpFrame pr segLength mss frame)
    (long : headersOf pr frame ≤ l.length) :
    byteAt (lastHeaders ctx l) (pr.l4Offset.toNat + tcpFlags) &&& urgFlag =
      byteAt l (pr.l4Offset.toNat + tcpFlags) &&& urgFlag ∧
    halfAt (lastHeaders ctx l) (pr.l4Offset.toNat + urgentPointer) = halfAt l (pr.l4Offset.toNat + urgentPointer) := by
  have apart := fits.apart
  have tcp := fits.tcp
  constructor
  · obtain ⟨ip, tcpOffset, -, -, -, -, saved⟩ := settled
    unfold lastHeaders
    simp only [ip, tcpOffset, saved]
    rw [addSequenceOutside (by unfold tcpFlags; omega),
      setByteRead (by rw [setLengthLength]; unfold tcpFlags; omega),
      setLengthOutside (by split <;> unfold tcpFlags <;> omega), BitVec.and_or_distrib_right, BitVec.and_assoc]
    exact (congrArg _ BitVec.and_zero).trans BitVec.or_zero
  · refine halfCongr fun j low high => lastOutside settled ?_ ?_ ?_
    · unfold urgentPointer at low
      split <;> omega
    · unfold urgentPointer at low
      omega
    · unfold urgentPointer at low
      omega

theorem Between.last (between : Between pr segLength mss frame k ctx) (fits : TcpFrame pr segLength mss frame)
    (some : headersOf pr frame + (k + 1) * mss.toNat < frame.length)
    (last : frame.length ≤ headersOf pr frame + (k + 2) * mss.toNat) :
    let r := tcpGsoSplitSegment pr outside ctx
    r.1 = .done ∧ Headers pr frame mss (k + 1) (byteAt frame (pr.l4Offset.toNat + tcpFlags) &&& (finFlag ||| pshFlag))
        r.2.1.length r.2.1 ∧
      r.2.1.drop (headersOf pr frame) = frame.drop (headersOf pr frame + (k + 1) * mss.toNat) := by
  have settled := between.toSettled
  have room := fits.tcp
  have apart := fits.apart
  have seen := fits.presented
  have small := fits.small
  have after : (k + 2) * mss.toNat = (k + 1) * mss.toNat + mss.toNat := Nat.succ_mul _ _
  obtain ⟨header, shaped, length, pending, size, behind, front⟩ := between.front
  have seenSegment (j : Nat) (below : j < headersOf pr frame) :
      byteAt (ctx.remFrame.take segLength.toNat) j = byteAt ctx.remFrame j := byteTake (by omega)
  have longFirst : headersOf pr frame ≤ (ctx.remFrame.take segLength.toNat).length := by
    rw [List.length_take]
    omega
  rw [lastRun settled (by omega)]
  generalize ctx.remFrame.take segLength.toNat = l at *
  have segment (j : Nat) (below : j < headersOf pr frame) : byteAt l j = byteAt header j :=
    (seenSegment j below).trans (front j below)
  have here := shaped.congr fits longFirst fun j below _ => segment j below
  have counted := lastShaped settled fits (.inl between.ipv4) here
  have right := lastLength settled fits between.ipv4 longFirst (by omega) (by omega)
  obtain ⟨done, -⟩ := counted.complete right fits fun set => (pending set).congr
    ((lastUrgent settled fits longFirst).1.trans (by rw [segment _ (by unfold tcpFlags; omega)]))
    ((lastUrgent settled fits longFirst).2.trans
      (halfCongr fun j _ high => segment j (by unfold urgentPointer at high; omega)))
  obtain ⟨emitted, same, payload⟩ := @Headers.done pr outside ctx.headersSize segLength mss frame _ ctx.remFrame _ _ _ done
    fits settled.headers (by omega) fun j below => by
      rw [urgentOutside (by omega) (by omega)]
      exact (seenSegment j (by omega)).symm.trans (lastFront settled fits below).symm
  exact ⟨rfl, same ▸ emitted, payload.trans behind⟩

end

end Flexbuild.TcpSegmentation
