import Flexbuild.GsoModel

/-! The headers of a segment. What one call edits in them, field by field, and what the
edits leave alone. -/
namespace Flexbuild.TcpSegmentation
open ByteMemory (Byte)
open Fields

def headersOf (pr : ParseResult) (frame : List Byte) : Nat :=
  pr.l4Offset.toNat +
    ((byteAt frame (pr.l4Offset.toNat + dataOffsetReserved) &&& tcpDataOffsetMask) >>> 2).toNat

structure TcpFrame (pr : ParseResult) (segLength mss : BitVec 16) (frame : List Byte) : Prop where
  ip : pr.outerIpOffset.toNat + (if pr.outerIpv4 then 20 else 40) ≤ pr.l4Offset.toNat
  tcp : pr.l4Offset.toNat + 20 ≤ headersOf pr frame
  payload : headersOf pr frame < frame.length
  presented : headersOf pr frame ≤ segLength.toNat
  unset : byteAt frame (pr.l4Offset.toNat + tcpFlags) &&& (rstFlag ||| synFlag) = 0
  positive : 0 < mss.toNat
  small : headersOf pr frame + mss.toNat < 2 ^ 16

def Scratch (pr : ParseResult) (j : Nat) : Prop :=
  let ip := pr.outerIpOffset.toNat
  let tcp := pr.l4Offset.toNat
  (pr.outerIpv4 = true ∧ (ip + 4 ≤ j ∧ j < ip + 6 ∨ ip + 10 ≤ j ∧ j < ip + 12)) ∨ (tcp + 16 ≤ j ∧ j < tcp + 18)

def Edited (pr : ParseResult) (j : Nat) : Prop :=
  let ip := pr.outerIpOffset.toNat
  let tcp := pr.l4Offset.toNat
  Scratch pr j ∨ (pr.outerIpv4 = true ∧ ip + 2 ≤ j ∧ j < ip + 4) ∨ (pr.outerIpv4 = false ∧ ip + 4 ≤ j ∧ j < ip + 6) ∨
    (tcp + 4 ≤ j ∧ j < tcp + 8) ∨ j = tcp + 13 ∨ (tcp + 18 ≤ j ∧ j < tcp + 20)

def lengthField (pr : ParseResult) (l : List Byte) : BitVec 16 :=
  if pr.outerIpv4 then halfAt l (pr.outerIpOffset.toNat + totalLength)
  else halfAt l (pr.outerIpOffset.toNat + payloadLength)

def rightLength (pr : ParseResult) (size : Nat) : Nat :=
  size - pr.outerIpOffset.toNat - (if pr.outerIpv4 then 0 else 40)

def otherFlags : Byte := ~~~(finFlag ||| pshFlag ||| urgFlag)

def LengthRight (pr : ParseResult) (size : Nat) (l : List Byte) : Prop :=
  (lengthField pr l).toNat = rightLength pr size

structure Shaped (pr : ParseResult) (frame : List Byte) (mss : BitVec 16) (k : Nat) (finPsh : Byte)
    (l : List Byte) : Prop where
  long : headersOf pr frame ≤ l.length
  kept : ∀ j < headersOf pr frame, ¬ Edited pr j → byteAt l j = byteAt frame j
  sequence : fullAt l (pr.l4Offset.toNat + sequenceNumber) =
    fullAt frame (pr.l4Offset.toNat + sequenceNumber) + BitVec.ofNat 32 (k * mss.toNat)
  flags : byteAt l (pr.l4Offset.toNat + tcpFlags) &&& otherFlags =
    byteAt frame (pr.l4Offset.toNat + tcpFlags) &&& otherFlags
  finPsh : byteAt l (pr.l4Offset.toNat + tcpFlags) &&& (finFlag ||| pshFlag) = finPsh

structure UrgentRight (pr : ParseResult) (mss : BitVec 16) (u k : Nat) (l : List Byte) : Prop where
  flag : byteAt l (pr.l4Offset.toNat + tcpFlags) &&& urgFlag ≠ 0 ↔ k * mss.toNat < u
  pointer : (halfAt l (pr.l4Offset.toNat + urgentPointer)).toNat = min mss.toNat (u - k * mss.toNat)

structure Pending (pr : ParseResult) (mss : BitVec 16) (u k : Nat) (l : List Byte) (urgent : BitVec 16) : Prop where
  left : urgent.toNat = u - k * mss.toNat
  flag : if halfAt l (pr.l4Offset.toNat + urgentPointer) = 0 then
      u ≤ k * mss.toNat ∧ byteAt l (pr.l4Offset.toNat + tcpFlags) &&& urgFlag = 0
    else byteAt l (pr.l4Offset.toNat + tcpFlags) &&& urgFlag ≠ 0

section
variable {frame segment : List Byte} {offset size j : Nat}

theorem modifyLength : (fdmaModifyDefaultSegmentData frame segment offset size).length = frame.length :=
  overwriteLength _ _ _

theorem modifyInside (low : offset ≤ j) (high : j < offset + size) (room : offset + size ≤ segment.length)
    (roomFrame : offset + size ≤ frame.length) :
    byteAt (fdmaModifyDefaultSegmentData frame segment offset size) j = byteAt segment j := by
  obtain ⟨i, rfl⟩ := Nat.exists_eq_add_of_le low
  rw [fdmaModifyDefaultSegmentData, byteInside (by simp; omega) (by omega), byteTake (by omega), byteDrop]

theorem modifyOutside (outside : j < offset ∨ offset + size ≤ j) :
    byteAt (fdmaModifyDefaultSegmentData frame segment offset size) j = byteAt frame j := by
  refine byteOutside ?_
  simp only [List.length_take, List.length_drop]
  omega

theorem modifyDrop {n : Nat} (below : offset + size ≤ n) :
    (fdmaModifyDefaultSegmentData frame segment offset size).drop n = frame.drop n := by
  refine dropOverwritten ?_
  simp only [List.length_take, List.length_drop]
  omega

end

section
variable {pr : ParseResult} {outside : Outside} {headersSize segLength mss urgent : BitVec 16} {frame segment l l' : List Byte}
  {ip tcp k u size : Nat} {finPsh : Byte}

theorem segmentDoneLength : (segmentDone pr outside headersSize frame segment ip tcp).length = frame.length := by
  unfold segmentDone
  simp only
  split <;> rw [modifyLength, modifyLength]

theorem segmentDoneDrop (le : ip ≤ headersSize.toNat) (room : pr.l4Offset.toNat + 18 ≤ headersSize.toNat) :
    (segmentDone pr outside headersSize frame segment ip tcp).drop headersSize.toNat = frame.drop headersSize.toNat := by
  have inside : pr.l4Offset.toNat + tcpChecksum + 2 ≤ headersSize.toNat := room
  unfold segmentDone
  simp only
  split
  · rw [modifyDrop (by omega), modifyDrop (by omega)]
  · rw [modifyDrop (by omega), modifyDrop (by omega)]

theorem segmentDoneBytes (le : ip ≤ headersSize.toNat)
    (long : headersSize.toNat ≤ segment.length) (longFrame : headersSize.toNat ≤ frame.length)
    (ipHere : ip = pr.outerIpOffset.toNat) (tcpHere : tcp = pr.l4Offset.toNat)
    (front : ∀ j < ip, byteAt frame j = byteAt segment j) {j : Nat} (below : j < headersSize.toNat)
    (outsideScratch : ¬ Scratch pr j) :
    byteAt (segmentDone pr outside headersSize frame segment ip tcp) j = byteAt segment j := by
  unfold Scratch at outsideScratch
  simp only [← ipHere, ← tcpHere] at outsideScratch
  have once : byteAt (fdmaModifyDefaultSegmentData frame segment ip (headersSize.toNat - ip)) j = byteAt segment j := by
    rcases Nat.lt_or_ge j ip with less | more
    · rw [modifyOutside (.inl less)]
      exact front j less
    · exact modifyInside more (by omega) (by omega) (by omega)
  unfold segmentDone
  simp only
  split
  · rename_i v4
    have apart : ¬ (ip + 10 ≤ j ∧ j < ip + 12) ∧ ¬ (tcp + 16 ≤ j ∧ j < tcp + 18) := by
      constructor
      · exact fun inside => outsideScratch (.inl ⟨v4, .inr inside⟩)
      · exact fun inside => outsideScratch (.inr inside)
    rcases Nat.lt_or_ge j ip with less | more
    · rw [modifyOutside (.inl less)]
      exact once
    · rw [modifyInside more (by omega) (by simp; omega) (by rw [modifyLength]; omega)]
      rw [setHalf, byteOutside (by change j < ip + 10 ∨ ip + 10 + 2 ≤ j; omega)]
      rw [setHalf, byteOutside (by change j < tcp + 16 ∨ tcp + 16 + 2 ≤ j; omega)]
  · have apart : ¬ (tcp + 16 ≤ j ∧ j < tcp + 18) := fun inside => outsideScratch (.inr inside)
    rw [modifyOutside (by rw [← tcpHere]; change j < tcp + 16 ∨ tcp + 16 + 2 ≤ j; omega)]
    exact once

theorem TcpFrame.apart (fits : TcpFrame pr segLength mss frame) :
    pr.outerIpOffset.toNat + 20 ≤ pr.l4Offset.toNat := by
  have ip := fits.ip
  split at ip <;> omega

theorem Shaped.congr (shaped : Shaped pr frame mss k finPsh l) (fits : TcpFrame pr segLength mss frame)
    (long : headersOf pr frame ≤ l'.length)
    (same : ∀ j < headersOf pr frame, ¬ Scratch pr j → byteAt l' j = byteAt l j) : Shaped pr frame mss k finPsh l' := by
  have tcp := fits.tcp
  have apart := fits.apart
  unfold Scratch at same
  simp only at same
  have flags : byteAt l' (pr.l4Offset.toNat + tcpFlags) = byteAt l (pr.l4Offset.toNat + tcpFlags) :=
    same _ (by unfold tcpFlags; omega) (by unfold tcpFlags; omega)
  refine ⟨long, fun j below plain => ?_, ?_, ?_, ?_⟩
  · rw [same j below fun scratch => plain (.inl scratch)]
    exact shaped.kept j below plain
  · rw [fullCongr fun i low high => same i (by unfold sequenceNumber at *; omega) (by unfold sequenceNumber at *; omega)]
    exact shaped.sequence
  · rw [flags]
    exact shaped.flags
  · rw [flags]
    exact shaped.finPsh

theorem LengthRight.congr (right : LengthRight pr size l) (fits : TcpFrame pr segLength mss frame)
    (same : ∀ j < headersOf pr frame, ¬ Scratch pr j → byteAt l' j = byteAt l j) : LengthRight pr size l' := by
  have tcp := fits.tcp
  have apart := fits.apart
  unfold Scratch at same
  simp only at same
  refine Eq.trans (congrArg _ ?_) right
  unfold lengthField
  split
  · refine halfCongr fun i low high => same i ?_ ?_ <;> unfold totalLength at * <;> omega
  · rename_i v6
    unfold payloadLength
    refine halfCongr fun i low high => same i (by omega) ?_
    rintro (⟨v4, -⟩ | tail)
    · exact v6 v4
    · omega

theorem UrgentRight.congr (right : UrgentRight pr mss u k l) (fits : TcpFrame pr segLength mss frame)
    (same : ∀ j < headersOf pr frame, ¬ Scratch pr j → byteAt l' j = byteAt l j) : UrgentRight pr mss u k l' := by
  have tcp := fits.tcp
  have apart := fits.apart
  unfold Scratch at same
  simp only at same
  obtain ⟨flag, pointer⟩ := right
  constructor
  · rw [same _ (by unfold tcpFlags; omega) (by unfold tcpFlags; omega)]
    exact flag
  · rw [halfCongr fun i low high => same i (by unfold urgentPointer at *; omega) (by unfold urgentPointer at *; omega)]
    exact pointer

theorem Pending.congr (pending : Pending pr mss u k l urgent)
    (flags : byteAt l' (pr.l4Offset.toNat + tcpFlags) &&& urgFlag = byteAt l (pr.l4Offset.toNat + tcpFlags) &&& urgFlag)
    (pointer : halfAt l' (pr.l4Offset.toNat + urgentPointer) = halfAt l (pr.l4Offset.toNat + urgentPointer)) :
    Pending pr mss u k l' urgent := by
  obtain ⟨left, flag⟩ := pending
  refine ⟨left, ?_⟩
  rw [flags, pointer]
  exact flag

theorem addSequenceOutside {j : Nat} (outside : j < tcp + 4 ∨ tcp + 8 ≤ j) :
    byteAt (addSequence l tcp mss) j = byteAt l j := by
  refine byteOutside ?_
  change _ ∨ tcp + 4 + 4 ≤ j
  exact outside.imp id fun above => by omega

theorem Shaped.addSequence (shaped : Shaped pr frame mss k finPsh l) (fits : TcpFrame pr segLength mss frame) :
    Shaped pr frame mss (k + 1) finPsh (addSequence l pr.l4Offset.toNat mss) := by
  have tcp := fits.tcp
  have long := shaped.long
  have flags : byteAt (TcpSegmentation.addSequence l pr.l4Offset.toNat mss) (pr.l4Offset.toNat + tcpFlags) =
      byteAt l (pr.l4Offset.toNat + tcpFlags) := addSequenceOutside (by unfold tcpFlags; omega)
  refine ⟨by simpa [TcpSegmentation.addSequence] using long, fun j below plain => ?_, ?_, ?_, ?_⟩
  · rw [addSequenceOutside (by unfold Edited at plain; simp only at plain; omega)]
    exact shaped.kept j below plain
  · rw [TcpSegmentation.addSequence, setFullRead (by unfold sequenceNumber; omega), shaped.sequence, BitVec.add_assoc]
    refine congrArg _ (BitVec.eq_of_toNat_eq ?_)
    simp only [BitVec.toNat_add, BitVec.toNat_ofNat, BitVec.toNat_setWidth]
    rw [Nat.succ_mul]
    omega
  · rw [flags]
    exact shaped.flags
  · rw [flags]
    exact shaped.finPsh

theorem setLengthOutside {v4 : Bool} {v : BitVec 16} {j : Nat}
    (outside : if v4 then j < ip + 2 ∨ ip + 4 ≤ j else j < ip + 4 ∨ ip + 6 ≤ j) :
    byteAt (setLength v4 l ip v) j = byteAt l j := by
  unfold setLength totalLength payloadLength
  split
  · rename_i yes
    rw [if_pos yes] at outside
    exact byteOutside (by change _ ∨ ip + 2 + 2 ≤ j; omega)
  · rename_i no
    rw [if_neg no] at outside
    exact byteOutside (by change _ ∨ ip + 4 + 2 ≤ j; omega)

theorem setLengthLength (v4 : Bool) (l : List Byte) (ip : Nat) (v : BitVec 16) : (setLength v4 l ip v).length = l.length := by
  unfold setLength
  split <;> exact setHalfLength _ _ _

theorem Shaped.setLength (shaped : Shaped pr frame mss k finPsh l) (fits : TcpFrame pr segLength mss frame)
    (v : BitVec 16) : Shaped pr frame mss k finPsh (setLength pr.outerIpv4 l pr.outerIpOffset.toNat v) := by
  have apart := fits.apart
  have tcp := fits.tcp
  have behind {j : Nat} (above : pr.outerIpOffset.toNat + 20 ≤ j) :
      byteAt (TcpSegmentation.setLength pr.outerIpv4 l pr.outerIpOffset.toNat v) j = byteAt l j :=
    setLengthOutside (by split <;> omega)
  have flags := @behind (pr.l4Offset.toNat + tcpFlags) (by omega)
  refine ⟨by rw [setLengthLength]; exact shaped.long, fun j below plain => ?_, ?_, ?_, ?_⟩
  · rw [setLengthOutside]
    · exact shaped.kept j below plain
    · unfold Edited Scratch at plain
      cases v4 : pr.outerIpv4 with
      | true =>
        rw [if_pos rfl]
        simp only [v4, true_and] at plain
        omega
      | false =>
        rw [if_neg Bool.false_ne_true]
        simp only [v4, true_and] at plain
        omega
  · rw [fullCongr fun i low high => behind (by omega)]
    exact shaped.sequence
  · rw [flags]
    exact shaped.flags
  · rw [flags]
    exact shaped.finPsh

theorem setLengthRight (fits : TcpFrame pr segLength mss frame) (long : headersOf pr frame ≤ l.length)
    {v : BitVec 16} (value : v.toNat = size - pr.outerIpOffset.toNat) (above : headersOf pr frame ≤ size) :
    LengthRight pr size (setLength pr.outerIpv4 l pr.outerIpOffset.toNat v) := by
  have ip := fits.ip
  have tcp := fits.tcp
  unfold LengthRight lengthField rightLength TcpSegmentation.setLength
  split
  · rename_i v4
    rw [setHalfRead (by unfold totalLength; omega)]
    exact value
  · rename_i v6
    rw [if_neg v6] at ip
    rw [setHalfRead (by unfold payloadLength; omega), BitVec.toNat_sub, value]
    have small := v.isLt
    change (2 ^ 16 - 40 + (size - pr.outerIpOffset.toNat)) % 2 ^ 16 = _
    omega

theorem Shaped.setFlags (shaped : Shaped pr frame mss k 0 l) (fits : TcpFrame pr segLength mss frame) {saved : Byte}
    (part : saved &&& (finFlag ||| pshFlag) = saved) : Shaped pr frame mss k saved (setByte l (pr.l4Offset.toNat + tcpFlags)
      (byteAt l (pr.l4Offset.toNat + tcpFlags) ||| saved)) := by
  have tcp := fits.tcp
  have long := shaped.long
  have other : saved &&& otherFlags = 0#8 := by
    rw [← part, BitVec.and_assoc]
    exact BitVec.and_zero
  have same {j : Nat} (differ : j ≠ pr.l4Offset.toNat + tcpFlags) : byteAt (setByte l (pr.l4Offset.toNat + tcpFlags)
      (byteAt l (pr.l4Offset.toNat + tcpFlags) ||| saved)) j = byteAt l j :=
    byteOutside (by rw [List.length_singleton]; omega)
  have here := @setByteRead l (pr.l4Offset.toNat + tcpFlags) (byteAt l (pr.l4Offset.toNat + tcpFlags) ||| saved)
    (by unfold tcpFlags; omega)
  refine ⟨by rw [setByteLength]; exact long, fun j below plain => ?_, ?_, ?_, ?_⟩
  · rw [same fun here => plain (by rw [here]; exact .inr (.inr (.inr (.inr (.inl rfl)))))]
    exact shaped.kept j below plain
  · rw [fullCongr fun i low high => same (by unfold sequenceNumber tcpFlags at *; omega)]
    exact shaped.sequence
  · rw [here, BitVec.and_or_distrib_right, other, BitVec.or_zero]
    exact shaped.flags
  · rw [here, BitVec.and_or_distrib_right, shaped.finPsh, part]
    exact BitVec.zero_or

theorem urgentCases (room : tcp + 20 ≤ l.length) :
    let r := urgentCalculation l tcp mss urgent
    (halfAt l (tcp + urgentPointer) = 0 ∧ r = (l, 0)) ∨
    (halfAt l (tcp + urgentPointer) ≠ 0 ∧ minimum mss urgent ≠ 0 ∧ r.2 = minimum mss urgent ∧
      r.1 = setHalf l (tcp + urgentPointer) (minimum mss urgent)) ∨
    (halfAt l (tcp + urgentPointer) ≠ 0 ∧ minimum mss urgent = 0 ∧ r.2 = 0 ∧
      halfAt r.1 (tcp + urgentPointer) = 0 ∧ byteAt r.1 (tcp + tcpFlags) = byteAt l (tcp + tcpFlags) &&& ~~~urgFlag) := by
  intro r
  by_cases zero : halfAt l (tcp + urgentPointer) = 0
  · exact .inl ⟨zero, if_neg (not_not.mpr zero)⟩
  · by_cases none : minimum mss urgent = 0
    · have value : r = (setByte (setHalf l (tcp + urgentPointer) (minimum mss urgent)) (tcp + tcpFlags)
          (byteAt (setHalf l (tcp + urgentPointer) (minimum mss urgent)) (tcp + tcpFlags) &&& ~~~urgFlag), 0) :=
        (if_pos zero).trans (if_neg (not_not.mpr none))
      refine .inr (.inr ⟨zero, none, by rw [value], ?_, ?_⟩)
      · rw [value, setByte, halfOutside (.inr (by unfold tcpFlags urgentPointer; simp))]
        exact (setHalfRead (by unfold urgentPointer; omega)).trans none
      · rw [value, setByteRead (by rw [setHalfLength]; unfold tcpFlags; omega), setHalf,
          byteOutside (.inl (by unfold tcpFlags urgentPointer; omega))]
    · have value : r = (setHalf l (tcp + urgentPointer) (minimum mss urgent), minimum mss urgent) :=
        (if_pos zero).trans (if_pos none)
      exact .inr (.inl ⟨zero, none, by rw [value], by rw [value]⟩)

theorem urgentOutside {j : Nat} (flags : j ≠ tcp + 13) (pointer : j < tcp + 18 ∨ tcp + 20 ≤ j) :
    byteAt (urgentCalculation l tcp mss urgent).1 j = byteAt l j := by
  have first : byteAt (setHalf l (tcp + urgentPointer) (minimum mss urgent)) j = byteAt l j :=
    byteOutside (by change j < tcp + 18 ∨ tcp + 18 + 2 ≤ j; omega)
  unfold urgentCalculation
  split
  · simp only
    split
    · exact first
    · exact (byteOutside (by change j < tcp + 13 ∨ tcp + 13 + 1 ≤ j; omega)).trans first
  · rfl

theorem urgentLength : (urgentCalculation l tcp mss urgent).1.length = l.length := by
  unfold urgentCalculation
  split
  · simp only
    split <;> simp
  · rfl

theorem urgentFlags (room : tcp + 20 ≤ l.length) : byteAt (urgentCalculation l tcp mss urgent).1 (tcp + tcpFlags) &&&
    ~~~urgFlag = byteAt l (tcp + tcpFlags) &&& ~~~urgFlag := by
  obtain ⟨-, same⟩ | ⟨-, -, -, same⟩ | ⟨-, -, -, -, same⟩ := @urgentCases mss urgent l tcp room
  · rw [same]
  · rw [same, setHalf, byteOutside (.inl (by unfold tcpFlags urgentPointer; omega))]
  · rw [same, BitVec.and_assoc]
    rfl

theorem Shaped.urgentPart (shaped : Shaped pr frame mss k finPsh l) (fits : TcpFrame pr segLength mss frame) :
    Shaped pr frame mss k finPsh (urgentCalculation l pr.l4Offset.toNat mss urgent).1 := by
  have tcp := fits.tcp
  have long := shaped.long
  have flags := @urgentFlags mss urgent l pr.l4Offset.toNat (by omega)
  have part {m : Byte} (within : ~~~urgFlag &&& m = m) :
      byteAt (urgentCalculation l pr.l4Offset.toNat mss urgent).1 (pr.l4Offset.toNat + tcpFlags) &&& m =
        byteAt l (pr.l4Offset.toNat + tcpFlags) &&& m := by
    rw [← within, ← BitVec.and_assoc, flags, BitVec.and_assoc]
  refine ⟨by rw [urgentLength]; exact long, fun j below plain => ?_, ?_, ?_, ?_⟩
  · rw [urgentOutside (by unfold Edited at plain; simp only at plain; omega)
      (by unfold Edited at plain; simp only at plain; omega)]
    exact shaped.kept j below plain
  · rw [fullCongr fun i low high => urgentOutside (by unfold sequenceNumber at high; omega)
      (by unfold sequenceNumber at high; omega)]
    exact shaped.sequence
  · rw [part (by decide)]
    exact shaped.flags
  · rw [part (by decide)]
    exact shaped.finPsh

theorem lengthCongr (same : ∀ j, j < pr.outerIpOffset.toNat + 20 → byteAt l' j = byteAt l j) :
    lengthField pr l' = lengthField pr l := by
  unfold lengthField
  split
  · exact halfCongr fun i _ high => same i (by unfold totalLength at high; omega)
  · exact halfCongr fun i _ high => same i (by unfold payloadLength at high; omega)

theorem LengthRight.urgentPart (right : LengthRight pr size l) (fits : TcpFrame pr segLength mss frame) :
    LengthRight pr size (urgentCalculation l pr.l4Offset.toNat mss urgent).1 := by
  have apart := fits.apart
  exact (congrArg _ (lengthCongr fun j below => urgentOutside (by omega) (by omega))).trans right

theorem LengthRight.addSequence (right : LengthRight pr size l) (fits : TcpFrame pr segLength mss frame) :
    LengthRight pr size (addSequence l pr.l4Offset.toNat mss) := by
  have apart := fits.apart
  exact (congrArg _ (lengthCongr fun j below => addSequenceOutside (by omega))).trans right

theorem minimumNat (a b : BitVec 16) : (minimum a b).toNat = min a.toNat b.toNat := by
  unfold minimum
  split
  · rename_i less
    exact (Nat.min_eq_left (BitVec.le_def.mp (BitVec.le_of_lt less))).symm
  · rename_i less
    exact (Nat.min_eq_right (Nat.le_of_not_lt less)).symm

theorem Pending.step (pending : Pending pr mss u k l urgent) (room : pr.l4Offset.toNat + 20 ≤ l.length)
    (positive : 0 < mss.toNat) :
    let r := urgentCalculation l pr.l4Offset.toNat mss urgent
    UrgentRight pr mss u k r.1 ∧ Pending pr mss u (k + 1) r.1 (urgent - r.2) := by
  intro r
  obtain ⟨left, flag⟩ := pending
  have value := minimumNat mss urgent
  have next : (k + 1) * mss.toNat = k * mss.toNat + mss.toNat := Nat.succ_mul _ _
  have zeroIff (v : BitVec 16) : v = 0 ↔ v.toNat = 0 := by
    rw [← BitVec.toNat_inj]
    rfl
  obtain ⟨zero, same⟩ | ⟨full, some, taken, same⟩ | ⟨full, none, taken, zero, cleared⟩ := @urgentCases mss urgent l
    pr.l4Offset.toNat room
  · change r = (l, 0) at same
    rw [same]
    rw [if_pos zero] at flag
    obtain ⟨past, clear⟩ := flag
    refine ⟨⟨iff_of_false (not_not.mpr clear) (by omega), ?_⟩, ?_, ?_⟩
    · rw [zero]
      change 0 = _
      omega
    · rw [show urgent - 0 = urgent from BitVec.sub_zero _]
      omega
    · rw [if_pos zero]
      exact ⟨by omega, clear⟩
  · change r.2 = _ at taken
    change r.1 = _ at same
    rw [if_neg full] at flag
    have here : halfAt r.1 (pr.l4Offset.toNat + urgentPointer) = minimum mss urgent := by
      rw [same, setHalfRead (by unfold urgentPointer; omega)]
    have flags : byteAt r.1 (pr.l4Offset.toNat + tcpFlags) = byteAt l (pr.l4Offset.toNat + tcpFlags) := by
      rw [same, setHalf, byteOutside (.inl (by unfold tcpFlags urgentPointer; omega))]
    rw [Ne, zeroIff, value] at some
    refine ⟨⟨?_, ?_⟩, ?_, ?_⟩
    · rw [flags]
      exact iff_of_true flag (by omega)
    · rw [here, value, left]
    · rw [taken, BitVec.toNat_sub_of_le (BitVec.le_def.mpr (by omega)), value]
      omega
    · rw [here, if_neg (by rw [zeroIff, value]; exact some), flags]
      exact flag
  · change r.2 = _ at taken
    change halfAt r.1 _ = 0 at zero
    change byteAt r.1 _ = _ at cleared
    rw [zeroIff, value] at none
    have clear : byteAt r.1 (pr.l4Offset.toNat + tcpFlags) &&& urgFlag = 0 := by
      rw [cleared, BitVec.and_assoc]
      exact BitVec.and_zero
    refine ⟨⟨iff_of_false (not_not.mpr clear) (by omega), ?_⟩, ?_, ?_⟩
    · rw [zero]
      change 0 = _
      omega
    · rw [taken, show urgent - 0 = urgent from BitVec.sub_zero _]
      omega
    · rw [if_pos zero]
      exact ⟨by omega, clear⟩

end

end Flexbuild.TcpSegmentation
