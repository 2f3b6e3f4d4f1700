import Flexbuild.GroModel
import Mathlib.Data.List.Chain

/-! Where the bytes of a segment are. Editing the headers of a frame leaves its payload alone as
long as the edit is made where the headers of this frame are, and does not move the end of
its TCP header; a segment that is put behind a frame without its headers makes the payload
longer by its own. -/
namespace Flexbuild.TcpAggregation
open ByteMemory (Byte)
open Fields

structure Laid (pr : ParseResult) (bytes : List Byte) : Prop where
  ipHeader : pr.outerIpOffset.toNat + 20 ≤ pr.l4Offset.toNat
  tcpHeader : tcpHdrLength ≤ dataOffset bytes pr.l4Offset.toNat
  complete : pr.l4Offset.toNat + dataOffset bytes pr.l4Offset.toNat ≤ bytes.length

structure Edits (tcp : Nat) (old new : List Byte) : Prop where
  length : new.length = old.length
  offset : dataOffset new tcp = dataOffset old tcp
  behind : new.drop (tcp + tcpHdrLength) = old.drop (tcp + tcpHdrLength)

namespace Edits
variable {tcp a : Nat} {old mid new bytes : List Byte} {pr : ParseResult}

theorem refl (tcp : Nat) (old : List Byte) : Edits tcp old old := ⟨rfl, rfl, rfl⟩

theorem trans (first : Edits tcp old mid) (second : Edits tcp mid new) : Edits tcp old new where
  length := second.length.trans first.length
  offset := second.offset.trans first.offset
  behind := second.behind.trans first.behind

theorem overwritten (below : a + bytes.length ≤ tcp + tcpHdrLength)
    (apart : a + bytes.length ≤ tcp + 12 ∨ tcp + 12 < a) : Edits tcp old (overwrite old a bytes) where
  length := overwriteLength _ _ _
  offset := by
    unfold dataOffset
    rw [byteOutside (by omega)]
  behind := dropOverwritten below

theorem half {v : BitVec 16} (below : a + 2 ≤ tcp + tcpHdrLength) (apart : a + 2 ≤ tcp + 12 ∨ tcp + 12 < a) :
    Edits tcp old (setHalf old a v) :=
  overwritten below apart

theorem laid (edits : Edits pr.l4Offset.toNat old new) (laid : Laid pr old) : Laid pr new where
  ipHeader := laid.ipHeader
  tcpHeader := edits.offset ▸ laid.tcpHeader
  complete := by
    rw [edits.offset, edits.length]
    exact laid.complete

theorem payload (edits : Edits pr.l4Offset.toNat old new) (laid : Laid pr old) :
    TcpAggregation.payload pr new = TcpAggregation.payload pr old := by
  have split (bytes : List Byte) (long : tcpHdrLength ≤ dataOffset bytes pr.l4Offset.toNat) :
      TcpAggregation.payload pr bytes =
        (bytes.drop (pr.l4Offset.toNat + tcpHdrLength)).drop (dataOffset bytes pr.l4Offset.toNat - tcpHdrLength) := by
    rw [List.drop_drop]
    exact congrArg (bytes.drop ·) (by omega)
  rw [split new (edits.laid laid).tcpHeader, split old laid.tcpHeader, edits.behind, edits.offset]

end Edits

section headers
variable {flags : BitVec 32} {checksum : List Byte → BitVec 16} {pr : ParseResult} {last : LastSegHeaderFields}
  {tcp : Nat} {bytes : List Byte}

def LastSegHeaderFields.dataOffset (last : LastSegHeaderFields) : Nat := ((last.dataOffsetReserved &&& 0xf0#8) >>> 2).toNat

theorem ipLengthEdits (room : pr.outerIpOffset.toNat + 20 ≤ pr.l4Offset.toNat) :
    Edits pr.l4Offset.toNat bytes (updateIpLength flags pr bytes) := by
  have early (n : Nat) (inside : n ≤ 10) (bytes : List Byte) (v : BitVec 16) :
      Edits pr.l4Offset.toNat bytes (setHalf bytes (pr.outerIpOffset.toNat + n) v) :=
    .half (by omega) (.inl (by omega))
  unfold updateIpLength
  split
  · split
    · exact (early 10 (by omega) _ _).trans (early 2 (by omega) _ _)
    · exact early 2 (by omega) _ _
  · exact early 4 (by omega) _ _

theorem lastSegEdits (complete : tcp + tcpHdrLength ≤ bytes.length) (same : last.dataOffset = dataOffset bytes tcp) :
    Edits tcp bytes (updateLastSegFields tcp last bytes) := by
  have ack : Edits tcp bytes (setFull bytes (tcp + 8) last.acknowledgmentNumber) :=
    .overwritten (show tcp + 8 + 4 ≤ tcp + 20 by omega) (.inl (Nat.le_refl _))
  have offset (bytes : List Byte) (complete : tcp + tcpHdrLength ≤ bytes.length)
      (same : last.dataOffset = dataOffset bytes tcp) :
      Edits tcp bytes (setByte bytes (tcp + 12) last.dataOffsetReserved) := by
    refine ⟨setByteLength _ _ _, ?_, dropOverwritten (show tcp + 12 + 1 ≤ tcp + 20 by omega)⟩
    rw [dataOffset, setByteRead (by simp only [tcpHdrLength] at complete; omega), ← same]
    rfl
  have flags (bytes : List Byte) : Edits tcp bytes (setByte bytes (tcp + 13) last.flags) :=
    .overwritten (show tcp + 13 + 1 ≤ tcp + 20 by omega) (.inr (by omega))
  have window (bytes : List Byte) : Edits tcp bytes (setHalf bytes (tcp + 14) last.windowSize) :=
    .half (show tcp + 14 + 2 ≤ tcp + 20 by omega) (.inr (by omega))
  exact ((ack.trans (offset _ (by simpa using complete) (same.trans ack.offset.symm))).trans (flags _)).trans (window _)

theorem tcpChecksumEdits : Edits tcp bytes (updateTcpChecksum flags checksum tcp bytes) := by
  unfold updateTcpChecksum
  split
  · exact .half (show tcp + 16 + 2 ≤ tcp + 20 by omega) (.inr (by omega))
  · exact .refl _ _

theorem headersEdits {last : Option LastSegHeaderFields} (room : pr.outerIpOffset.toNat + 20 ≤ pr.l4Offset.toNat)
    (complete : pr.l4Offset.toNat + tcpHdrLength ≤ bytes.length)
    (same : ∀ fields ∈ last, fields.dataOffset = dataOffset bytes pr.l4Offset.toNat) :
    Edits pr.l4Offset.toNat bytes (updateHeaders flags checksum pr last bytes) := by
  have ip : Edits pr.l4Offset.toNat bytes (updateIpLength flags pr bytes) := ipLengthEdits room
  unfold updateHeaders
  cases last with
  | none => exact ip.trans tcpChecksumEdits
  | some fields =>
    have room : pr.l4Offset.toNat + tcpHdrLength ≤ (updateIpLength flags pr bytes).length := ip.length ▸ complete
    exact (ip.trans (lastSegEdits room ((same fields rfl).trans ip.offset.symm))).trans tcpChecksumEdits

end headers

theorem dataOffsetSmall (bytes : List Byte) (tcp : Nat) : dataOffset bytes tcp < 64 := by
  unfold dataOffset
  rw [BitVec.toNat_ushiftRight, Nat.shiftRight_eq_div_pow]
  have small := (byteAt bytes (tcp + 12) &&& 0xf0#8).isLt
  omega

namespace Segment
variable (s : Segment)

theorem laid : Laid s.pr s.bytes := ⟨s.ipHeader, s.tcpHeader, s.complete⟩

theorem headersSizeToNat : s.headersSize.toNat = s.tcp + s.dataOffset := by
  have small := dataOffsetSmall s.bytes s.tcp
  have offset := s.pr.l4Offset.isLt
  rw [headersSize, BitVec.toNat_ofNat, Nat.mod_eq_of_lt]
  simp only [tcp, dataOffset] at *
  omega

theorem payloadLength : s.payload.length + s.headersSize.toNat = s.bytes.length := by
  rw [headersSizeToNat]
  unfold payload TcpAggregation.payload
  rw [List.length_drop]
  exact Nat.sub_add_cancel s.complete

def nextSeq : BitVec 32 := s.sequenceNumber + BitVec.ofNat 32 s.payload.length

theorem growth (short : s.bytes.length < 2 ^ 16) :
    s.segSize.setWidth 32 - s.headersSize.setWidth 32 = BitVec.ofNat 32 s.payload.length := by
  have length := s.payloadLength
  have size : s.segSize.toNat = s.bytes.length := Nat.mod_eq_of_lt short
  apply BitVec.eq_of_toNat_eq
  rw [BitVec.toNat_sub, BitVec.toNat_setWidth, BitVec.toNat_setWidth, BitVec.toNat_ofNat, size]
  have headers := s.headersSize.isLt
  omega

theorem nextSeqComputed (short : s.bytes.length < 2 ^ 16) :
    s.sequenceNumber + s.segSize.setWidth 32 - s.headersSize.setWidth 32 = s.nextSeq := by
  rw [nextSeq, ← s.growth short, BitVec.sub_eq_add_neg, BitVec.sub_eq_add_neg, BitVec.add_assoc]

end Segment

def Follows (a b : Arrival) : Prop :=
  a.number < b.number ∧ b.segment.sequenceNumber = a.segment.nextSeq

instance (a b : Arrival) : Decidable (Follows a b) := inferInstanceAs (Decidable (_ ∧ _))

structure Frame.Whole (f : Frame) : Prop where
  segments : f.segs ≠ []
  inOrder : f.segs.IsChain Follows
  joined : f.payload = f.segs.flatMap fun a => a.segment.payload

def endOf (segs : List Arrival) : BitVec 32 := (segs.getLast?.map fun a => a.segment.nextSeq).getD 0

theorem Arrival.whole (a : Arrival) : a.frame.Whole where
  segments := List.cons_ne_nil _ _
  inOrder := List.isChain_singleton a
  joined := (List.flatMap_singleton (fun a : Arrival => a.segment.payload) a).symm

theorem Frame.Whole.edited {f : Frame} {bytes : List Byte} (whole : f.Whole) (laid : Laid f.pr f.bytes)
    (edits : Edits f.pr.l4Offset.toNat f.bytes bytes) : Frame.Whole { f with bytes := bytes } :=
  { whole with joined := (edits.payload laid).trans whole.joined }

section joining
variable {f : Frame} {arrival : Arrival} {a : Answers}

theorem concatenated (small : arrival.segment.headersSize < 256#16) :
    concatenateFrames f arrival.segment = f.bytes ++ arrival.segment.payload := by
  have trim : (arrival.segment.headersSize.setWidth 8).toNat = arrival.segment.headersSize.toNat := by
    rw [BitVec.toNat_setWidth]
    exact Nat.mod_eq_of_lt small
  rw [concatenateFrames, trim, arrival.segment.headersSizeToNat]
  rfl

theorem laidAppend {pr : ParseResult} {bytes more : List Byte} (laid : Laid pr bytes) :
    Laid pr (bytes ++ more) ∧ payload pr (bytes ++ more) = payload pr bytes ++ more ∧
      dataOffset (bytes ++ more) pr.l4Offset.toNat = dataOffset bytes pr.l4Offset.toNat := by
  have ⟨_, header, complete⟩ := laid
  have inside : pr.l4Offset.toNat + 12 < bytes.length := by
    simp only [tcpHdrLength] at header
    omega
  have offset : dataOffset (bytes ++ more) pr.l4Offset.toNat = dataOffset bytes pr.l4Offset.toNat := by
    unfold dataOffset
    rw [byteAppend inside]
  refine ⟨⟨laid.ipHeader, offset ▸ header, ?_⟩, ?_, offset⟩
  · rw [offset, List.length_append]
    omega
  · unfold payload
    rw [offset, List.drop_append_of_le_length complete]

theorem joinedLaid (laid : Laid f.pr f.bytes) (small : arrival.segment.headersSize < 256#16) (done : a.concatenated = true) :
    Laid f.pr (joinFrames f arrival a).bytes ∧
      dataOffset (joinFrames f arrival a).bytes f.pr.l4Offset.toNat = dataOffset f.bytes f.pr.l4Offset.toNat := by
  unfold joinFrames
  rw [if_pos done, concatenated small]
  have ⟨laid', _, offset⟩ := @laidAppend _ _ arrival.segment.payload laid
  exact ⟨laid', offset⟩

theorem joinedWhole (whole : f.Whole) (laid : Laid f.pr f.bytes) (small : arrival.segment.headersSize < 256#16)
    (done : a.concatenated = true) (later : ∀ b ∈ f.segs, b.number < arrival.number)
    (next : arrival.segment.sequenceNumber = endOf f.segs) : (joinFrames f arrival a).Whole := by
  unfold joinFrames
  rw [if_pos done, concatenated small]
  refine ⟨List.append_ne_nil_of_right_ne_nil _ (List.cons_ne_nil _ _), ?_, ?_⟩
  · refine List.isChain_append.mpr ⟨whole.inOrder, List.isChain_singleton _, fun b last c first => ?_⟩
    cases Option.mem_some.mp first
    refine ⟨later b (List.mem_of_getLast? last), ?_⟩
    rw [next, endOf, last]
    rfl
  · rw [List.flatMap_append, List.flatMap_singleton, ← whole.joined]
    exact (laidAppend laid).2.1

theorem endOfJoined (segs : List Arrival) : endOf (segs ++ [arrival]) = arrival.segment.nextSeq := by
  rw [endOf, List.getLast?_concat]
  rfl

theorem splitBack (failed : a.concatenated = false) (short : f.bytes.length < 2 ^ 16)
    (grew : f.bytes.length < (concatenateFrames f arrival.segment).length) : joinFrames f arrival a = f := by
  have size : (BitVec.ofNat 16 f.bytes.length).toNat = f.bytes.length := Nat.mod_eq_of_lt short
  have bytes : splitAgain f arrival.segment a = f.bytes := by
    rw [splitAgain, fdmaSplitFrame, size, if_neg (by omega), concatenateFrames, List.take_left]
  rw [joinFrames, if_neg (by simp [failed]), bytes]

end joining
end Flexbuild.TcpAggregation
