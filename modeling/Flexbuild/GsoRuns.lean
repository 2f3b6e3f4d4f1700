import Flexbuild.GsoSegments

/-! Whole runs. The first call strips the flags of the last segment from the headers and
starts the run, and the calls after it go on from one context to the next. The segments are
the frame exactly when it does not fit into one of them and has no empty urgent pointer. -/
namespace Flexbuild.TcpSegmentation
open ByteMemory (Byte)
open Fields

def payloadOf (pr : ParseResult) (frame : List Byte) : Nat := frame.length - headersOf pr frame

def segmentsOf (pr : ParseResult) (mss : BitVec 16) (frame : List Byte) : Nat :=
  (payloadOf pr frame + mss.toNat - 1) / mss.toNat

structure Lossless (pr : ParseResult) (mss : BitVec 16) (frame : List Byte) (emitted : Nat → SegStatus × List Byte) :
    Prop where
  statuses : ∀ k < segmentsOf pr mss frame,
    (emitted k).1 = if k + 1 < segmentsOf pr mss frame then .inProcess else .done
  payload : ((List.range (segmentsOf pr mss frame)).flatMap fun k => (emitted k).2.drop (headersOf pr frame)) =
    frame.drop (headersOf pr frame)
  sizes : ∀ k, k + 1 < segmentsOf pr mss frame →
    ((emitted k).2.drop (headersOf pr frame)).length = mss.toNat
  headers : ∀ k < segmentsOf pr mss frame, Headers pr frame mss k
    (if k + 1 = segmentsOf pr mss frame then byteAt frame (pr.l4Offset.toNat + tcpFlags) &&& (finFlag ||| pshFlag) else 0)
    (emitted k).2.length (emitted k).2

theorem flagsTaken (flags : Byte) :
    let r := takeFlag pshFlag tcpGsoPshBit (takeFlag finFlag tcpGsoFinBit (0, flags))
    (r.1 &&& (tcpGsoFinBit ||| tcpGsoPshBit)).setWidth 8 = flags &&& (finFlag ||| pshFlag) ∧
    r.2 &&& (finFlag ||| pshFlag) = 0 ∧ r.2 &&& otherFlags = flags &&& otherFlags ∧
    r.2 &&& urgFlag = flags &&& urgFlag ∧ (r.1 = 0 → r.2 = flags) := by
  revert flags
  decide

theorem partsJoined {α : Type} (l : List α) (m c : Nat) :
    ((List.range c).flatMap fun k => (l.drop (k * m)).take m) = l.take (c * m) := by
  induction c with
  | zero => simp
  | succ c ih => rw [List.range_succ, List.flatMap_append, ih, List.flatMap_singleton, Nat.succ_mul, List.take_add]

section
variable {pr : ParseResult} {outside : Outside} {segLength mss : BitVec 16} {frame : List Byte}
  {old ctx : TcpGsoContext}

structure Started (pr : ParseResult) (segLength mss : BitVec 16) (frame : List Byte) (ctx : TcpGsoContext) :
    Prop extends Settled pr segLength mss frame ctx where
  first : ctx.firstSeg = true
  ipv4 : ctx.ipv4 = false
  size : ctx.remFrame.length = frame.length
  behind : ctx.remFrame.drop (headersOf pr frame) = frame.drop (headersOf pr frame)
  front : ∀ j, j ≠ pr.l4Offset.toNat + tcpFlags → byteAt ctx.remFrame j = byteAt frame j
  shaped : Shaped pr frame mss 0 0 ctx.remFrame
  urg : byteAt ctx.remFrame (pr.l4Offset.toNat + tcpFlags) &&& urgFlag =
    byteAt frame (pr.l4Offset.toNat + tcpFlags) &&& urgFlag
  urgent : urgentSet pr frame → ctx.urgent.toNat = urgentOf pr frame

theorem strippedFrame (fits : TcpFrame pr segLength mss frame) {saved : BitVec 32} {cleared : Byte}
    (same : saved = 0 → cleared = byteAt frame (pr.l4Offset.toNat + tcpFlags)) :
    let stripped := if saved ≠ 0 then fdmaModifyDefaultSegmentData frame
      (setByte (frame.take segLength.toNat) (pr.l4Offset.toNat + tcpFlags) cleared) (pr.l4Offset.toNat + tcpFlags) 1
      else frame
    stripped.length = frame.length ∧ stripped.drop (headersOf pr frame) = frame.drop (headersOf pr frame) ∧
      (∀ j, j ≠ pr.l4Offset.toNat + tcpFlags → byteAt stripped j = byteAt frame j) ∧
      byteAt stripped (pr.l4Offset.toNat + tcpFlags) = cleared := by
  intro stripped
  have tcp := fits.tcp
  have seen := fits.presented
  have payload := fits.payload
  have flagsBelow : pr.l4Offset.toNat + tcpFlags + 1 ≤ headersOf pr frame := by
    unfold tcpFlags
    omega
  by_cases none : saved = 0
  · have here : stripped = frame := if_neg (not_not.mpr none)
    rw [here]
    exact ⟨rfl, rfl, fun _ _ => rfl, (same none).symm⟩
  · have here : stripped = fdmaModifyDefaultSegmentData frame
        (setByte (frame.take segLength.toNat) (pr.l4Offset.toNat + tcpFlags) cleared) (pr.l4Offset.toNat + tcpFlags) 1 :=
      if_pos none
    rw [here]
    refine ⟨modifyLength, modifyDrop flagsBelow, fun j differ => modifyOutside (by omega), ?_⟩
    have room : pr.l4Offset.toNat + tcpFlags < (frame.take segLength.toNat).length := by
      rw [List.length_take]
      omega
    rw [modifyInside (Nat.le_refl _) (Nat.lt_succ_self _) (by rw [setByteLength]; exact room) (by omega)]
    exact setByteRead room

theorem headersExact (fits : TcpFrame pr segLength mss frame) {b : Byte}
    (same : b = byteAt frame (pr.l4Offset.toNat + dataOffsetReserved)) :
    (pr.l4Offset.setWidth 16 + ((b &&& tcpDataOffsetMask) >>> 2).setWidth 16 : BitVec 16).toNat = headersOf pr frame ∧
    (pr.l4Offset.setWidth 16 + ((b &&& tcpDataOffsetMask) >>> 2).setWidth 16 + mss : BitVec 16).toNat =
      headersOf pr frame + mss.toNat := by
  have small := fits.small
  have first : (pr.l4Offset.setWidth 16 + ((b &&& tcpDataOffsetMask) >>> 2).setWidth 16 : BitVec 16).toNat =
      headersOf pr frame := by
    rw [BitVec.toNat_add, BitVec.toNat_setWidth, BitVec.toNat_setWidth, same]
    unfold headersOf at small ⊢
    omega
  exact ⟨first, by rw [BitVec.toNat_add, first]; omega⟩

theorem firstCall (fits : TcpFrame pr segLength mss frame) (stored : outside.depleted = false ∧ outside.fdError = false) :
    ∃ ctx, tcpGsoGenerateSeg pr outside frame segLength (tcpGsoContextInit mss old) =
      tcpGsoSplitSegment pr outside ctx ∧ Started pr segLength mss frame ctx := by
  have tcp := fits.tcp
  have seen := fits.presented
  have payload := fits.payload
  have byte (j : Nat) (below : j < headersOf pr frame) : byteAt (frame.take segLength.toNat) j = byteAt frame j :=
    byteTake (by omega)
  have flags := byte (pr.l4Offset.toNat + tcpFlags) (by unfold tcpFlags; omega)
  have pointer : halfAt (frame.take segLength.toNat) (pr.l4Offset.toNat + urgentPointer) =
      halfAt frame (pr.l4Offset.toNat + urgentPointer) :=
    halfCongr fun j _ high => byte j (by unfold urgentPointer at high; omega)
  obtain ⟨saved, clear, others, urg, same⟩ := flagsTaken (byteAt frame (pr.l4Offset.toNat + tcpFlags))
  unfold tcpGsoGenerateSeg
  rw [if_neg (by simp [tcpGsoContextInit])]
  simp only [tcpGsoContextInit, flags, pointer, fits.unset, stored.1, stored.2, ne_eq, not_true_eq_false, if_false,
    Bool.false_eq_true]
  generalize takeFlag pshFlag tcpGsoPshBit (takeFlag finFlag tcpGsoFinBit
    (0, byteAt frame (pr.l4Offset.toNat + tcpFlags))) = taken at *
  obtain ⟨size, behind, front, here⟩ := strippedFrame fits same
  obtain ⟨headers, split⟩ := @headersExact pr segLength mss frame fits
    (byteAt (setByte (frame.take segLength.toNat) (pr.l4Offset.toNat + tcpFlags) taken.2)
      (pr.l4Offset.toNat + dataOffsetReserved)) (by
      rw [setByte, byteOutside (.inl (by unfold dataOffsetReserved tcpFlags; omega)),
        byte _ (by unfold dataOffsetReserved; omega)])
  refine ⟨_, rfl, ⟨rfl, rfl, rfl, rfl, headers, split, saved⟩, rfl, rfl, size, behind, front, ?_, ?_, fun set => ?_⟩
  · refine ⟨size ▸ Nat.le_of_lt payload, fun j below plain => front j fun here => plain ?_, ?_, ?_, ?_⟩
    · rw [here]
      exact .inr (.inr (.inr (.inr (.inl rfl))))
    · rw [Nat.zero_mul]
      refine (fullCongr fun j _ high => front j ?_).trans (BitVec.add_zero _).symm
      unfold sequenceNumber at high
      unfold tcpFlags
      omega
    · exact (congrArg (· &&& otherFlags) here).trans others
    · exact (congrArg (· &&& (finFlag ||| pshFlag)) here).trans clear
  · exact (congrArg (· &&& urgFlag) here).trans urg
  · exact congrArg BitVec.toNat (if_pos set)

def firstHeaders (pr : ParseResult) (ctx : TcpGsoContext) : List Byte :=
  setLength pr.outerIpv4 ((ctx.remFrame.take ctx.splitSize.toNat).take ctx.segLength.toNat) pr.outerIpOffset.toNat
    (ctx.splitSize - pr.outerIpOffset.setWidth 16)

theorem Started.run (started : Started pr segLength mss frame ctx)
    (more : headersOf pr frame + mss.toNat < frame.length) :
    tcpGsoSplitSegment pr outside ctx = emission pr outside ctx (firstHeaders pr ctx) := by
  have size := started.size
  have split := started.split
  have cut : fdmaSplitFrame ctx.remFrame ctx.splitSize.toNat =
      some (ctx.remFrame.take ctx.splitSize.toNat, ctx.remFrame.drop ctx.splitSize.toNat) := if_neg (by omega)
  rw [tcpGsoSplitSegment, cut]
  simp only [started.first, if_true, emission, firstHeaders]

theorem Started.behindIp (started : Started pr segLength mss frame ctx) (fits : TcpFrame pr segLength mss frame) {j : Nat}
    (below : j < headersOf pr frame) (outside : if pr.outerIpv4 then
        j < pr.outerIpOffset.toNat + 2 ∨ pr.outerIpOffset.toNat + 4 ≤ j
      else j < pr.outerIpOffset.toNat + 4 ∨ pr.outerIpOffset.toNat + 6 ≤ j) :
    byteAt (firstHeaders pr ctx) j = byteAt ctx.remFrame j := by
  have split := started.split
  have seen := fits.presented
  unfold firstHeaders
  rw [setLengthOutside outside, started.presented, byteTake (by omega), byteTake (by omega)]

theorem Started.tcpHeader (started : Started pr segLength mss frame ctx) (fits : TcpFrame pr segLength mss frame) :
    byteAt (firstHeaders pr ctx) (pr.l4Offset.toNat + tcpFlags) = byteAt ctx.remFrame (pr.l4Offset.toNat + tcpFlags) ∧
      halfAt (firstHeaders pr ctx) (pr.l4Offset.toNat + urgentPointer) =
        halfAt frame (pr.l4Offset.toNat + urgentPointer) := by
  have tcp := fits.tcp
  have apart := fits.apart
  constructor
  · exact started.behindIp fits (by unfold tcpFlags; omega) (by split <;> omega)
  · refine halfCongr fun j low high => ?_
    unfold urgentPointer at low high
    rw [started.behindIp fits (by omega) (by split <;> omega)]
    exact started.front j (by unfold tcpFlags; omega)

theorem Started.firstRight (started : Started pr segLength mss frame ctx) (fits : TcpFrame pr segLength mss frame)
    (more : headersOf pr frame + mss.toNat < frame.length) :
    Shaped pr frame mss 0 0 (firstHeaders pr ctx) ∧
      LengthRight pr (headersOf pr frame + mss.toNat) (firstHeaders pr ctx) := by
  have size := started.size
  have split := started.split
  have tcp := fits.tcp
  have apart := fits.apart
  have seen := fits.presented
  have small := fits.small
  have long : headersOf pr frame ≤
      ((ctx.remFrame.take ctx.splitSize.toNat).take ctx.segLength.toNat).length := by
    rw [List.length_take, List.length_take, started.presented]
    omega
  have value : (ctx.splitSize - pr.outerIpOffset.setWidth 16).toNat =
      headersOf pr frame + mss.toNat - pr.outerIpOffset.toNat := by
    rw [BitVec.toNat_sub, BitVec.toNat_setWidth, split]
    omega
  have same : Shaped pr frame mss 0 0 ((ctx.remFrame.take ctx.splitSize.toNat).take ctx.segLength.toNat) :=
    started.shaped.congr fits long fun j below _ => by
      rw [started.presented, byteTake (by omega), byteTake (by omega)]
  exact ⟨same.setLength fits _, setLengthRight fits long value (Nat.le_add_right _ _)⟩

theorem Started.next (started : Started pr segLength mss frame ctx) (fits : TcpFrame pr segLength mss frame)
    (more : headersOf pr frame + mss.toNat < frame.length) (some : urgentSet pr frame → urgentOf pr frame ≠ 0) :
    let r := tcpGsoSplitSegment pr outside ctx
    r.1 = .inProcess ∧ Headers pr frame mss 0 0 r.2.1.length r.2.1 ∧
      r.2.1.drop (headersOf pr frame) = (frame.drop (headersOf pr frame + 0 * mss.toNat)).take mss.toNat ∧
      Between pr segLength mss frame 0 r.2.2 := by
  obtain ⟨shaped, length⟩ := started.firstRight fits more
  obtain ⟨flags, pointer⟩ := started.tcpHeader fits
  have size := started.size
  have split := started.split
  have tcp := fits.tcp
  have apart := fits.apart
  rw [started.run more]
  refine emissionRight started.toSettled fits ?_ (by omega) shaped length (fun set => ⟨?_, ?_⟩) fun j below => ?_
  · rw [Nat.zero_mul]
    exact started.behind
  · rw [Nat.zero_mul]
    exact started.urgent set
  · rw [pointer, if_neg, flags, started.urg]
    · exact set
    · exact fun zero => some set (congrArg BitVec.toNat zero)
  · exact (started.behindIp fits (by omega) (by split <;> omega)).symm

theorem Started.single (started : Started pr segLength mss frame ctx) (fits : TcpFrame pr segLength mss frame)
    (whole : frame.length ≤ headersOf pr frame + mss.toNat) :
    fullAt (tcpGsoSplitSegment pr outside ctx).2.1 (pr.l4Offset.toNat + sequenceNumber) =
      fullAt frame (pr.l4Offset.toNat + sequenceNumber) + BitVec.ofNat 32 (1 * mss.toNat) := by
  have settled := started.toSettled
  have size := started.size
  have tcp := fits.tcp
  have apart := fits.apart
  have seen := fits.presented
  have payload := fits.payload
  have long : headersOf pr frame ≤ (ctx.remFrame.take segLength.toNat).length := by
    rw [List.length_take]
    omega
  have shaped : Shaped pr frame mss 0 0 (ctx.remFrame.take segLength.toNat) :=
    started.shaped.congr fits long fun j below _ => byteTake (by omega)
  have counted := @Shaped.urgentPart pr segLength mss ctx.urgent frame _ 1 _
    (lastShaped settled fits (.inr started.ipv4) shaped) fits
  rw [lastRun settled (by omega)]
  refine (Shaped.congr counted fits ?_ fun j below plain => ?_).sequence
  · rw [segmentDoneLength]
    omega
  · have longCounted := counted.long
    refine segmentDoneBytes (by rw [settled.headers]; omega) (by rw [settled.headers]; exact longCounted)
      (by rw [settled.headers]; omega) rfl rfl (fun i less => ?_) (by rw [settled.headers]; exact below) plain
    rw [urgentOutside (by omega) (by omega), lastFront settled fits less, byteTake (by omega)]

theorem Started.urgentKept (started : Started pr segLength mss frame ctx) (fits : TcpFrame pr segLength mss frame)
    (more : headersOf pr frame + mss.toNat < frame.length) (set : urgentSet pr frame) (none : urgentOf pr frame = 0) :
    byteAt (tcpGsoSplitSegment pr outside ctx).2.1 (pr.l4Offset.toNat + tcpFlags) &&& urgFlag ≠ 0 := by
  obtain ⟨shaped, -⟩ := started.firstRight fits more
  obtain ⟨flags, pointer⟩ := started.tcpHeader fits
  have settled := started.toSettled
  have size := started.size
  have split := started.split
  have tcp := fits.tcp
  have apart := fits.apart
  have long := shaped.long
  have zero : halfAt (firstHeaders pr ctx) (pr.l4Offset.toNat + urgentPointer) = 0 := by
    rw [pointer]
    exact BitVec.eq_of_toNat_eq none
  have same : urgentCalculation (firstHeaders pr ctx) pr.l4Offset.toNat ctx.mss ctx.urgent = (firstHeaders pr ctx, 0) :=
    if_neg (not_not.mpr zero)
  rw [started.run more]
  unfold emission
  simp only [same]
  rw [segmentDoneBytes (by rw [settled.headers]; omega) (by rw [identifiedLength, settled.headers]; exact long)
    (by rw [settled.headers, List.length_take]; omega) rfl rfl (fun j below => ?_)
    (by rw [settled.headers]; unfold tcpFlags; omega) (by unfold Scratch tcpFlags; omega),
    identifiedOutside _ _ (by omega), flags, started.urg]
  · exact set
  · rw [identifiedOutside _ _ (by omega), started.behindIp fits (by omega) (by split <;> omega), byteTake (by omega)]

theorem countIff (fits : TcpFrame pr segLength mss frame) (k : Nat) :
    k < segmentsOf pr mss frame ↔ headersOf pr frame + k * mss.toNat < frame.length := by
  have payload := fits.payload
  have positive := fits.positive
  rw [segmentsOf, payloadOf, ← Nat.succ_le_iff, Nat.le_div_iff_mul_le positive, Nat.succ_mul]
  omega

theorem laterCall (later : ctx.firstSeg = false) (given : List Byte) (length : BitVec 16) :
    tcpGsoGenerateSeg pr outside given length ctx = tcpGsoSplitSegment pr outside ctx := if_pos later

variable {calls : Calls}

structure Emits (pr : ParseResult) (mss : BitVec 16) (frame : List Byte) (k : Nat) (r : SegStatus × List Byte) : Prop where
  status : r.1 = if k + 1 < segmentsOf pr mss frame then .inProcess else .done
  headers : Headers pr frame mss k
    (if k + 1 = segmentsOf pr mss frame then byteAt frame (pr.l4Offset.toNat + tcpFlags) &&& (finFlag ||| pshFlag) else 0)
    r.2.length r.2
  part : r.2.drop (headersOf pr frame) = ((frame.drop (headersOf pr frame)).drop (k * mss.toNat)).take mss.toNat

theorem runBetween (fits : TcpFrame pr segLength mss frame) (given : calls.frames 0 = frame)
    (length : calls.segLengths 0 = segLength)
    (stored : (calls.outside 0).depleted = false ∧ (calls.outside 0).fdError = false)
    (some : urgentSet pr frame → urgentOf pr frame ≠ 0) {k : Nat} (more : k + 1 < segmentsOf pr mss frame) :
    Between pr segLength mss frame k (contextAt pr mss old calls (k + 1)) ∧
      Emits pr mss frame k (emitted pr mss old calls k) := by
  induction k with
  | zero =>
    have room := (countIff fits 1).mp more
    rw [Nat.one_mul] at room
    obtain ⟨ctx, run, started⟩ := @firstCall pr (calls.outside 0) segLength mss frame old fits stored
    obtain ⟨status, headers, part, between⟩ := @Started.next pr (calls.outside 0) segLength mss frame ctx started fits
      room some
    rw [← given, ← length] at run
    rw [← run] at status headers part between
    refine ⟨between, status.trans (if_pos more).symm, ?_, ?_⟩
    · rw [if_neg (by omega)]
      exact headers
    · rw [Nat.zero_mul, List.drop_zero]
      rw [Nat.zero_mul, Nat.add_zero] at part
      exact part
  | succ k ih =>
    have room := (countIff fits (k + 2)).mp more
    obtain ⟨before, -⟩ := ih (by omega)
    obtain ⟨status, headers, part, between⟩ := @Between.next pr (calls.outside (k + 1)) segLength mss frame k _
      before fits room
    rw [← laterCall before.later (calls.frames (k + 1)) (calls.segLengths (k + 1))] at status headers part between
    refine ⟨between, status.trans (if_pos more).symm, ?_, ?_⟩
    · rw [if_neg (by omega)]
      exact headers
    · rw [List.drop_drop]
      exact part

theorem runLast (fits : TcpFrame pr segLength mss frame) (given : calls.frames 0 = frame)
    (length : calls.segLengths 0 = segLength)
    (stored : (calls.outside 0).depleted = false ∧ (calls.outside 0).fdError = false)
    (some : urgentSet pr frame → urgentOf pr frame ≠ 0) {k : Nat} (last : k + 2 = segmentsOf pr mss frame) :
    Emits pr mss frame (k + 1) (emitted pr mss old calls (k + 1)) := by
  obtain ⟨before, -⟩ := @runBetween pr segLength mss frame old calls fits given length stored some k (by omega)
  have room := (countIff fits (k + 1)).mp (by omega)
  have past := mt (countIff fits (k + 2)).mpr (by omega)
  obtain ⟨status, headers, part⟩ := @Between.last pr (calls.outside (k + 1)) segLength mss frame k _ before fits room
    (by omega)
  rw [← laterCall before.later (calls.frames (k + 1)) (calls.segLengths (k + 1))] at status headers part
  refine ⟨status.trans (if_neg (by omega)).symm, ?_, ?_⟩
  · rw [if_pos last]
    exact headers
  · rw [List.drop_drop]
    refine part.trans (List.take_of_length_le ?_).symm
    have after : (k + 2) * mss.toNat = (k + 1) * mss.toNat + mss.toNat := Nat.succ_mul _ _
    rw [List.length_drop]
    omega

theorem emitsLossless (fits : TcpFrame pr segLength mss frame) {r : Nat → SegStatus × List Byte}
    (each : ∀ k < segmentsOf pr mss frame, Emits pr mss frame k (r k)) : Lossless pr mss frame r := by
  have positive := fits.positive
  refine ⟨fun k less => (each k less).status, ?_, fun k more => ?_, fun k less => (each k less).headers⟩
  · have parts : ((List.range (segmentsOf pr mss frame)).flatMap fun k => (r k).2.drop (headersOf pr frame)) =
        (List.range (segmentsOf pr mss frame)).flatMap fun k =>
          ((frame.drop (headersOf pr frame)).drop (k * mss.toNat)).take mss.toNat :=
      congrArg List.flatten (List.map_congr_left fun k member => (each k (List.mem_range.mp member)).part)
    have past := mt (countIff fits (segmentsOf pr mss frame)).mpr (Nat.lt_irrefl _)
    rw [parts, partsJoined, List.take_of_length_le]
    rw [List.length_drop]
    omega
  · have room := (countIff fits (k + 1)).mp more
    rw [(each k (by omega)).part, List.length_take, List.length_drop, List.length_drop]
    rw [Nat.succ_mul] at room
    omega

end

theorem segmentsLossless {pr : ParseResult} {segLength mss : BitVec 16} {frame : List Byte} (old : TcpGsoContext)
    {calls : Calls} (fits : TcpFrame pr segLength mss frame) (given : calls.frames 0 = frame)
    (length : calls.segLengths 0 = segLength)
    (stored : (calls.outside 0).depleted = false ∧ (calls.outside 0).fdError = false) :
    Lossless pr mss frame (emitted pr mss old calls) ↔
      mss.toNat < payloadOf pr frame ∧ (urgentSet pr frame → urgentOf pr frame ≠ 0) := by
  have payload := fits.payload
  have positive := fits.positive
  have first : 0 < segmentsOf pr mss frame := (countIff fits 0).mpr (by omega)
  obtain ⟨ctx, run, started⟩ := @firstCall pr (calls.outside 0) segLength mss frame old fits stored
  rw [← given, ← length] at run
  constructor
  · intro lossless
    have headers := lossless.headers 0 first
    have many : mss.toNat < payloadOf pr frame := by
      by_contra single
      unfold payloadOf at single
      have sequence := headers.shaped.sequence
      change fullAt (tcpGsoGenerateSeg pr (calls.outside 0) (calls.frames 0) (calls.segLengths 0)
        (tcpGsoContextInit mss old)).2.1 _ = _ at sequence
      rw [run, started.single fits (by omega), BitVec.add_right_inj, ← BitVec.toNat_inj, BitVec.toNat_ofNat,
        BitVec.toNat_ofNat] at sequence
      have := mss.isLt
      omega
    refine ⟨many, fun set zero => ?_⟩
    unfold payloadOf at many
    have flag := (headers.urgent set).flag
    change byteAt (tcpGsoGenerateSeg pr (calls.outside 0) (calls.frames 0) (calls.segLengths 0)
      (tcpGsoContextInit mss old)).2.1 _ &&& urgFlag ≠ 0 ↔ _ at flag
    rw [run, zero] at flag
    exact Nat.not_lt_zero _ (flag.mp (started.urgentKept fits (by omega) set zero))
  · rintro ⟨many, some⟩
    unfold payloadOf at many
    refine emitsLossless fits fun k less => ?_
    by_cases more : k + 1 < segmentsOf pr mss frame
    · exact (runBetween fits given length stored some more).2
    · cases k with
      | zero =>
        have two : 1 < segmentsOf pr mss frame := (countIff fits 1).mpr (by omega)
        omega
      | succ k => exact runLast fits given length stored some (by omega)

def exampleParse : ParseResult := ⟨0, 20, true⟩

def exampleFrame : List Byte := setByte (setByte (List.replicate 43 0) 32 0x50) 33 0x19

def exampleContext : TcpGsoContext := ⟨[], 0, 0, 0, 0, 0, 0, false, 0, 0, false⟩

def exampleCalls : Calls := ⟨fun _ => exampleFrame, fun _ => 43, fun _ => ⟨fun _ => (0, 0), 0, false, false⟩⟩

theorem exampleFits {mss : BitVec 16} (positive : 0 < mss.toNat) (small : mss.toNat < 65000) :
    TcpFrame exampleParse 43 mss exampleFrame :=
  ⟨by decide, by decide, by decide, by decide, by decide, positive,
    by rw [show headersOf exampleParse exampleFrame = 40 by decide]; omega⟩

theorem segmentsLosslessExample : Lossless exampleParse 2 exampleFrame (emitted exampleParse 2 exampleContext exampleCalls) :=
  (segmentsLossless exampleContext (exampleFits (by decide) (by decide)) rfl rfl ⟨rfl, rfl⟩).mpr
    ⟨by decide, fun set => absurd set (by unfold urgentSet; decide)⟩

theorem sequenceAdvanced : TcpFrame exampleParse 43 1460 exampleFrame ∧
    ¬ Lossless exampleParse 1460 exampleFrame (emitted exampleParse 1460 exampleContext exampleCalls) := by
  refine ⟨exampleFits (by decide) (by decide), fun lossless => ?_⟩
  have sequence := (lossless.headers 0 (by decide)).shaped.sequence
  exact absurd sequence (by decide)

end Flexbuild.TcpSegmentation
