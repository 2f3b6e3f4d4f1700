import Flexbuild.GroLossless

/-! Frames that are given out keep to the limits, and their headers fit what is in them, as long as
the size that is compared with the limit is the size that the frame gets, and no segment is
put behind an aggregation whose flags were lost with its timer. -/
namespace Flexbuild.TcpAggregation
open ByteMemory (Byte)
open Fields

def Alike (a b : Segment) : Prop := ¬ a.psh ∧ a.ecn = b.ecn ∧ a.timestamp = b.timestamp

instance (a b : Segment) : Decidable (Alike a b) := inferInstanceAs (Decidable (_ ∧ _ ∧ _))

def ipTotal (pr : ParseResult) (bytes : List Byte) : Nat :=
  if pr.outerIpv4 then (halfAt bytes (pr.outerIpOffset.toNat + 2)).toNat
  else (halfAt bytes (pr.outerIpOffset.toNat + 4)).toNat + 40

structure Headed (pr : ParseResult) (last : LastSegHeaderFields) (bytes : List Byte) : Prop where
  ipLength : ipTotal pr bytes + pr.outerIpOffset.toNat = bytes.length
  acknowledgment : fullAt bytes (pr.l4Offset.toNat + 8) = last.acknowledgmentNumber
  flags : byteAt bytes (pr.l4Offset.toNat + 13) = last.flags
  window : halfAt bytes (pr.l4Offset.toNat + 14) = last.windowSize

structure Fits (limits : Limits) (f : Frame) : Prop where
  count : f.segs.length ≤ limits.segNumLimit.toNat
  size : f.bytes.length ≤ limits.packetSizeLimit.toNat
  alike : f.segs.Pairwise fun a b => Alike a.segment b.segment
  headers : ∀ b ∈ f.segs.getLast?, Headed f.pr b.segment.lastSegFields f.bytes

def FitsJoin (limits : Limits) (ctx : GroContext) (timers : Timers) (s : Segment) (a : Answers) : Prop :=
  (a.concatenated = true →
    (concatenateFrames ctx.aggFd s).length = (aggregatedSize ctx s).toNat ∧
    (ctx.internalFlags &&& groAggTimerInProcess ≠ 0 →
      ctx.segNum.toNat < limits.segNumLimit.toNat ∧ ∀ b ∈ ctx.aggFd.segs, Alike b.segment s)) ∧
  (a.concatenated = false → Closes ctx s ∨ a.stored = true →
    ctx.aggFd.bytes.length < 2 ^ 16 ∧ ctx.aggFd.bytes.length < (concatenateFrames ctx.aggFd s).length) ∧
  (Closes ctx s →
    (a.concatenated = true ∨ ctx.segNum ≠ 1 → s.pr = ctx.aggFd.pr) ∧
    (a.concatenated = true ∨ ctx.segNum = 1 ∨ s.lastSegFields = ctx.lastSegFields) ∧
    (timers.state ctx.timerHandle = .expired → a.stored = true))

instance (limits : Limits) (ctx : GroContext) (timers : Timers) (s : Segment) (a : Answers) :
    Decidable (FitsJoin limits ctx timers s a) :=
  inferInstanceAs (Decidable (_ ∧ _ ∧ _))

def KeepsLimits (limits : Limits) (s : System) : Event → Prop
  | .aggregate given _ segment a => given = limits ∧ (Joins s.ctx segment → FitsJoin limits s.ctx s.timers segment a)
  | _ => True

instance (limits : Limits) (s : System) : (e : Event) → Decidable (KeepsLimits limits s e)
  | .aggregate _ _ _ _ => inferInstanceAs (Decidable (_ ∧ _))
  | .flush _ => isTrue trivial
  | .expire _ => isTrue trivial
  | .timeout _ _ => isTrue trivial

section headers
variable {flags : BitVec 32} {checksum : List Byte → BitVec 16} {pr : ParseResult} {last : LastSegHeaderFields}
  {tcp i : Nat} {bytes : List Byte}

theorem checksumBelow (below : i < tcp + 16) : byteAt (updateTcpChecksum flags checksum tcp bytes) i = byteAt bytes i := by
  unfold updateTcpChecksum
  split
  · exact byteOutside (.inl below)
  · rfl

theorem fieldsBelow (below : i < tcp + 8) : byteAt (updateLastSegFields tcp last bytes) i = byteAt bytes i := by
  unfold updateLastSegFields setHalf setByte setFull
  rw [byteOutside (.inl (by omega)), byteOutside (.inl (by omega)), byteOutside (.inl (by omega)), byteOutside (.inl below)]

theorem fieldsRead (room : tcp + tcpHdrLength ≤ bytes.length) :
    fullAt (updateLastSegFields tcp last bytes) (tcp + 8) = last.acknowledgmentNumber ∧
      byteAt (updateLastSegFields tcp last bytes) (tcp + 13) = last.flags ∧
      halfAt (updateLastSegFields tcp last bytes) (tcp + 14) = last.windowSize := by
  have room : tcp + 20 ≤ bytes.length := room
  refine ⟨?_, ?_, setHalfRead (by simp; omega)⟩
  · refine (fullCongr fun i low high => ?_).trans (setFullRead (l := bytes) (a := tcp + 8) (by omega))
    unfold updateLastSegFields setHalf setByte
    rw [byteOutside (.inl (by omega)), byteOutside (.inl (by omega)), byteOutside (.inl (by omega))]
  · unfold updateLastSegFields
    exact (byteOutside (.inl (by omega))).trans (setByteRead (by simp; omega))

theorem ipTotalCongr {other : List Byte} (same : ∀ i < pr.outerIpOffset.toNat + 6, byteAt bytes i = byteAt other i) :
    ipTotal pr bytes = ipTotal pr other := by
  unfold ipTotal
  rw [halfCongr fun i _ high => same i (by omega), halfCongr fun i _ high => same i (by omega)]

theorem ipLengthRead (room : pr.outerIpOffset.toNat + 40 ≤ bytes.length) (short : bytes.length < 2 ^ 16) :
    ipTotal pr (updateIpLength flags pr bytes) + pr.outerIpOffset.toNat = bytes.length := by
  have offset := pr.outerIpOffset.isLt
  have length : (BitVec.ofNat 16 bytes.length - pr.outerIpOffset.setWidth 16).toNat =
      bytes.length - pr.outerIpOffset.toNat := by
    rw [BitVec.toNat_sub, BitVec.toNat_ofNat, BitVec.toNat_setWidth]
    omega
  unfold ipTotal updateIpLength
  split
  · have rest (l : List Byte) (same : l.length = bytes.length) (v : BitVec 16) :
        halfAt (setHalf l (pr.outerIpOffset.toNat + 2) v) (pr.outerIpOffset.toNat + 2) = v := setHalfRead (by omega)
    simp only
    rw [rest _ (by split <;> simp), length]
    omega
  · have rest : halfAt (setHalf bytes (pr.outerIpOffset.toNat + 4)
        (BitVec.ofNat 16 bytes.length - pr.outerIpOffset.setWidth 16 - 40)) (pr.outerIpOffset.toNat + 4) =
        BitVec.ofNat 16 bytes.length - pr.outerIpOffset.setWidth 16 - 40 := setHalfRead (by omega)
    rw [rest, BitVec.toNat_sub, length]
    have small : (40 : BitVec 16).toNat = 40 := rfl
    omega

theorem updatedLength : (updateIpLength flags pr bytes).length = bytes.length := by
  unfold updateIpLength
  split
  · split <;> simp
  · simp

theorem headersLength : (updateHeaders flags checksum pr (some last) bytes).length = bytes.length := by
  have fields (l : List Byte) : (updateLastSegFields pr.l4Offset.toNat last l).length = l.length := by
    simp [updateLastSegFields]
  unfold updateHeaders updateTcpChecksum
  simp only
  split <;> simp [fields, updatedLength]

theorem headersWritten (ipRoom : pr.outerIpOffset.toNat + 20 ≤ pr.l4Offset.toNat)
    (tcpRoom : pr.l4Offset.toNat + tcpHdrLength ≤ bytes.length) (short : bytes.length < 2 ^ 16) :
    Headed pr last (updateHeaders flags checksum pr (some last) bytes) := by
  obtain ⟨acknowledgment, bits, window⟩ :=
    @fieldsRead last pr.l4Offset.toNat (updateIpLength flags pr bytes) (tcpRoom.trans_eq updatedLength.symm)
  have room : pr.l4Offset.toNat + 20 ≤ bytes.length := tcpRoom
  refine ⟨?_, ?_, (checksumBelow (by omega)).trans bits, ?_⟩
  · rw [headersLength, ← @ipLengthRead flags pr bytes (by omega) short]
    refine congrArg (· + _) (ipTotalCongr fun i below => ?_)
    exact (checksumBelow (by omega)).trans (fieldsBelow (by omega))
  · exact (fullCongr fun i _ high => checksumBelow (by omega)).trans acknowledgment
  · exact (halfCongr fun i _ high => checksumBelow (by omega)).trans window

end headers

structure Grown (limits : Limits) (segNum : BitVec 16) (last : LastSegHeaderFields) (f : Frame) : Prop where
  counted : f.segs.length = segNum.toNat
  ipRoom : f.pr.outerIpOffset.toNat + 20 ≤ f.pr.l4Offset.toNat
  tcpRoom : f.pr.l4Offset.toNat + tcpHdrLength ≤ f.bytes.length
  alike : f.segs.Pairwise fun a b => Alike a.segment b.segment
  several : 1 < f.segs.length → f.segs.length ≤ limits.segNumLimit.toNat ∧
    f.bytes.length ≤ limits.packetSizeLimit.toNat ∧ ∀ b ∈ f.segs.getLast?, last = b.segment.lastSegFields

namespace Grown
variable {limits : Limits} {segNum : BitVec 16} {last : LastSegHeaderFields} {f : Frame} {flags : BitVec 32}
  {checksum : List Byte → BitVec 16}

theorem fits (grown : Grown limits segNum last f) (several : 1 < f.segs.length) :
    Fits limits { f with bytes := updateHeaders flags checksum f.pr (some last) f.bytes } := by
  obtain ⟨count, size, ends⟩ := grown.several several
  have short : f.bytes.length < 2 ^ 16 := Nat.lt_of_le_of_lt size limits.packetSizeLimit.isLt
  refine ⟨count, headersLength.trans_le size, grown.alike, fun b member => ?_⟩
  exact ends b member ▸ headersWritten grown.ipRoom grown.tcpRoom short

theorem edited {pr : ParseResult} (grown : Grown limits segNum last f) :
    Grown limits segNum last { f with bytes := updateHeaders flags checksum pr (some last) f.bytes } where
  counted := grown.counted
  ipRoom := grown.ipRoom
  tcpRoom := grown.tcpRoom.trans_eq headersLength.symm
  alike := grown.alike
  several := fun several => by
    obtain ⟨count, size, ends⟩ := grown.several several
    exact ⟨count, headersLength.trans_le size, ends⟩

theorem renamed {other : LastSegHeaderFields} (grown : Grown limits segNum last f)
    (same : segNum = 1 ∨ other = last) : Grown limits segNum other f := by
  obtain rfl | rfl := same
  · exact { grown with several := fun several => absurd several (by rw [grown.counted]; decide) }
  · exact grown

theorem alone {arrival : Arrival} : Grown limits 1 last arrival.frame where
  counted := rfl
  ipRoom := arrival.segment.ipHeader
  tcpRoom := Nat.le_trans (Nat.add_le_add_left arrival.segment.tcpHeader _) arrival.segment.complete
  alike := List.pairwise_singleton _ _
  several := fun several => absurd several (Nat.lt_irrefl 1)

theorem joined {arrival : Arrival} {size : BitVec 16} (grown : Grown limits segNum last f)
    (room : segNum.toNat < limits.segNumLimit.toNat) (alike : ∀ b ∈ f.segs, Alike b.segment arrival.segment)
    (length : (concatenateFrames f arrival.segment).length = size.toNat) (below : size ≤ limits.packetSizeLimit) :
    Grown limits (segNum + 1) arrival.segment.lastSegFields
      { f with bytes := concatenateFrames f arrival.segment, segs := f.segs ++ [arrival] } where
  counted := by
    have few := limits.segNumLimit.isLt
    rw [List.length_append, grown.counted, BitVec.toNat_add_of_lt (by simp; omega)]
    rfl
  ipRoom := grown.ipRoom
  tcpRoom := by
    have room := grown.tcpRoom
    simp only [concatenateFrames, List.length_append]
    omega
  alike := by
    refine List.pairwise_append.mpr ⟨grown.alike, List.pairwise_singleton _ _, fun b member c last => ?_⟩
    cases List.mem_singleton.mp last
    exact alike b member
  several := fun _ => by
    refine ⟨?_, length ▸ below, fun b member => ?_⟩
    · rw [List.length_append, grown.counted]
      exact room
    · rw [List.getLast?_concat] at member
      cases member
      rfl

end Grown

def Marked (ctx : GroContext) (s : Segment) : Prop :=
  ¬ s.psh ∧ ctx.internalFlags.setWidth 32 &&& groEcnMask = s.ecn ∧ ctx.timestamp = s.timestamp

structure Bounded (limits : Limits) (ctx : GroContext) : Prop where
  same : ctx.limits = limits
  grown : Grown limits ctx.segNum ctx.lastSegFields ctx.aggFd
  alone : ctx.internalFlags &&& groFlushAggSet ≠ 0 → ctx.segNum = 1
  goesOn : ctx.internalFlags &&& (groAggTimerInProcess ||| groFlushAggSet) = 0 →
    ctx.segNum.toNat < limits.segNumLimit.toNat ∧ ∀ b ∈ ctx.aggFd.segs, Marked ctx b.segment

structure Sound (limits : Limits) (ctx : GroContext) : Prop where
  vacant : ctx.segNum = 0 → ctx.internalFlags &&& (groAggTimerInProcess ||| groFlushAggSet) = 0 →
    ctx.internalFlags = 0 ∧ ctx.timestamp = 0
  bounded : ctx.segNum ≠ 0 → Bounded limits ctx

section calls
variable {limits : Limits} {ctx ctx' : GroContext} {timers : Timers} {arrival : Arrival} {a : Answers} {o : Outcome}
  {checksum : List Byte → BitVec 16}

theorem ecnMarked (s : Segment) : (s.hasTimestamp ||| s.ecn.setWidth 16).setWidth 32 &&& groEcnMask = s.ecn := by
  have timestamp : s.hasTimestamp.setWidth 32 &&& groEcnMask = 0 := by
    unfold Segment.hasTimestamp
    split <;> decide
  have narrow (x : BitVec 32) : ((x &&& groEcnMask).setWidth 16).setWidth 32 &&& groEcnMask = x &&& groEcnMask := by
    apply BitVec.eq_of_getLsbD_eq
    intro i inside
    have high : 16 ≤ i → groEcnMask.getLsbD i = false := fun above =>
      Nat.testBit_lt_two_pow (Nat.lt_of_lt_of_le (by decide) (Nat.pow_le_pow_right (Nat.succ_pos 1) above))
    simp only [BitVec.getLsbD_and, BitVec.getLsbD_setWidth]
    by_cases below : i < 16
    · simp [inside, below]
    · simp [high (by omega)]
  rw [BitVec.setWidth_or, BitVec.and_or_distrib_right, timestamp, Segment.ecn]
  exact (BitVec.zero_or).trans (narrow _)

theorem Sound.emptied (empty : ctx.segNum = 0) (clear : ctx.internalFlags = 0) (timestamp : ctx.timestamp = 0) :
    Sound limits ctx where
  vacant := fun _ _ => ⟨clear, timestamp⟩
  bounded := fun some => absurd empty some

theorem Sound.started (same : ctx.limits = limits) (one : ctx.segNum = 1) (kept : ctx.aggFd = arrival.frame)
    (goesOn : ctx.internalFlags &&& (groAggTimerInProcess ||| groFlushAggSet) = 0 →
      ¬ flushes limits arrival.segment ∧ Marked ctx arrival.segment) : Sound limits ctx where
  vacant := fun empty => absurd (one ▸ empty) (by decide)
  bounded := fun _ => by
    refine ⟨same, one ▸ kept ▸ .alone, fun _ => one, fun clear => ?_⟩
    obtain ⟨open', marked⟩ := goesOn clear
    refine ⟨?_, fun b member => ?_⟩
    · rw [one]
      exact BitVec.not_le.mp fun low => open' (.inr (.inl low))
    · rw [kept] at member
      cases List.mem_singleton.mp member
      exact marked

theorem closeOpenSound (same : ctx.limits = limits)
    (done : tcpGroCloseAggregationAndOpenNewAggregation ctx timers limits arrival a = some o) : Sound limits o.ctx := by
  unfold tcpGroCloseAggregationAndOpenNewAggregation at done
  cases stored : a.stored with
  | false =>
    simp only [stored, Bool.false_eq_true, if_false, if_pos (discardSeen _ (groFlushAggSet ||| groDiscardSegSet) rfl),
      if_pos (discardSeen _ groDiscardSegSet rfl)] at done
    split at done
    · cases done
    · rw [if_neg (by decide)] at done
      cases done
      exact ⟨fun _ clear => absurd clear (show ¬ ((0#16 ||| groAggTimerInProcess) &&& _ = 0) by decide), (absurd rfl ·)⟩
    · cases done
      exact .emptied rfl rfl rfl
  | true =>
    by_cases alone : flushes limits arrival.segment
    · simp only [stored, if_true, if_pos alone] at done
      rw [if_pos (by decide)] at done
      simp only [if_neg (show ¬ (groFlushAggSet &&& groDiscardSegSet ≠ 0) by decide)] at done
      split at done
      · cases done
      · rw [if_neg (by decide)] at done
        cases done
        exact .started same rfl rfl fun clear => absurd clear
          (show ¬ ((groFlushAggSet ||| groAggTimerInProcess) &&& _ = 0) by decide)
      · cases done
        exact .started same rfl rfl fun clear => absurd clear (show ¬ (groFlushAggSet &&& _ = 0) by decide)
    · have marked (ctx : GroContext) (timestamp : ctx.timestamp = arrival.segment.timestamp)
          (flags : ctx.internalFlags = arrival.segment.hasTimestamp ||| arrival.segment.ecn.setWidth 16) :
          ¬ flushes limits arrival.segment ∧ Marked ctx arrival.segment :=
        ⟨alone, fun psh => alone (.inl psh), flags ▸ ecnMarked arrival.segment, timestamp⟩
      simp only [stored, if_true, if_neg alone] at done
      rw [if_neg (by rw [openedFlags _ (by decide) (by decide)]; exact fun nonzero => nonzero rfl)] at done
      split at done
      · cases done
      · split at done
        · cases done
        · cases done
          exact .started same rfl rfl fun _ => marked _ rfl rfl
        · cases done
          exact .started rfl rfl rfl fun _ => marked _ rfl rfl

theorem Bounded.joined (bounded : Bounded limits ctx) (joins : Joins ctx arrival.segment)
    (fits : FitsJoin limits ctx timers arrival.segment a) (done : a.concatenated = true) :
    Grown limits (ctx.segNum + 1) arrival.segment.lastSegFields (joinFrames ctx.aggFd arrival a) := by
  obtain ⟨_, _, continues, below⟩ := joins
  obtain ⟨length, late⟩ := fits.1 done
  have follows : ctx.segNum.toNat < limits.segNumLimit.toNat ∧ ∀ b ∈ ctx.aggFd.segs, Alike b.segment arrival.segment := by
    by_cases clear : ctx.internalFlags &&& groAggTimerInProcess = 0
    · obtain ⟨_, ecn, timestamp, _, flush⟩ := continues
      obtain ⟨room, marked⟩ := bounded.goesOn (by rw [BitVec.and_or_distrib_left, clear, flush]; rfl)
      refine ⟨room, fun b member => ?_⟩
      obtain ⟨open', ecn', timestamp'⟩ := marked b member
      exact ⟨open', ecn'.symm.trans ecn, timestamp'.symm.trans timestamp⟩
    · exact late clear
  unfold joinFrames
  rw [if_pos done]
  exact bounded.grown.joined follows.1 follows.2 length (bounded.same ▸ below)

theorem Bounded.closing (bounded : Bounded limits ctx) (joins : Joins ctx arrival.segment) (closes : Closes ctx arrival.segment)
    (fits : FitsJoin limits ctx timers arrival.segment a) :
    Grown limits (if a.concatenated then ctx.segNum + 1 else ctx.segNum) arrival.segment.lastSegFields
      (joinFrames ctx.aggFd arrival a) := by
  cases done : a.concatenated with
  | true => exact bounded.joined joins fits done
  | false =>
    obtain ⟨short, grew⟩ := fits.2.1 done (.inl closes)
    rw [splitBack done short grew]
    exact bounded.grown.renamed ((fits.2.2 closes).2.1.resolve_left (by simp [done]))

theorem addCloseSound (bounded : Bounded limits ctx) (joins : Joins ctx arrival.segment) (closes : Closes ctx arrival.segment)
    (fits : FitsJoin limits ctx timers arrival.segment a)
    (done : tcpGroAddSegAndCloseAggregation ctx timers arrival a = some o) :
    Sound limits o.ctx ∧ ∀ f ∈ o.frame, 1 < f.segs.length → Fits limits f := by
  have grown := bounded.closing joins closes fits
  obtain ⟨place, _, again⟩ := fits.2.2 closes
  simp only [tcpGroAddSegAndCloseAggregation] at done
  split at done
  · cases done
  next deleted timers' found =>
    obtain ⟨_, rfl, _⟩ | ⟨expired, rfl, _⟩ := deleteCases found
    · cases done
      refine ⟨.emptied rfl rfl rfl, fun f member several => ?_⟩
      cases member
      have some : a.concatenated = true ∨ ctx.segNum ≠ 1 := by
        by_contra none
        obtain ⟨failed, one⟩ := not_or.mp none
        rw [if_neg failed] at grown
        exact absurd (grown.counted.symm.trans_gt several) (by rw [not_not.mp one]; decide)
      have pr := (place some).trans (@joinedPr ctx arrival a).symm
      rw [pr]
      exact grown.fits several
    · simp only [again expired, Bool.false_eq_true, if_false, if_true] at done
      cases done
      refine ⟨⟨fun _ clear => absurd clear (show ¬ (groAggTimerInProcess &&& _ = 0) by decide), fun _ => ?_⟩, by simp⟩
      exact ⟨bounded.same, grown.edited, fun flush => absurd flush (show ¬ (groAggTimerInProcess &&& groFlushAggSet ≠ 0) by decide),
        fun clear => absurd clear (show ¬ (groAggTimerInProcess &&& _ = 0) by decide)⟩

theorem addSound (bounded : Bounded limits ctx) (joins : Joins ctx arrival.segment) (stays : ¬ Closes ctx arrival.segment)
    (fits : FitsJoin limits ctx timers arrival.segment a) : Sound limits (addSeg ctx timers arrival a).ctx := by
  cases done : a.concatenated with
  | true =>
    have grown := bounded.joined joins fits done
    have segs : (joinFrames ctx.aggFd arrival a).segs = ctx.aggFd.segs ++ [arrival] := by rw [joinedSegs, if_pos done]
    have count : (ctx.segNum + 1).toNat = ctx.segNum.toNat + 1 := by
      rw [← grown.counted, segs, List.length_append, bounded.grown.counted]
      rfl
    obtain ⟨_, num, open'⟩ := not_or.mp stays |>.imp_right not_or.mp
    obtain ⟨_, _, ⟨_, ecn, timestamp, _, flush⟩, _⟩ := joins
    rw [addSegJoined done]
    refine ⟨fun empty => ?_, fun _ => ⟨bounded.same, grown, fun alone => absurd flush alone, fun clear => ?_⟩⟩
    · exact absurd (count.symm.trans (congrArg BitVec.toNat empty)) (Nat.succ_ne_zero _)
    · obtain ⟨room, marked⟩ := bounded.goesOn clear
      rw [bounded.same] at num
      refine ⟨count ▸ Nat.lt_of_le_of_ne room num, fun b member => ?_⟩
      obtain before | now := List.mem_append.mp (segs ▸ member)
      · exact marked b before
      · cases List.mem_singleton.mp now
        exact ⟨open', ecn, timestamp⟩
  | false =>
    cases stored : a.stored with
    | true =>
      obtain ⟨short, grew⟩ := fits.2.1 done (.inr stored)
      rw [addSegCut done stored, splitBack done short grew]
      exact ⟨fun empty => absurd empty joins.2.1, fun _ => bounded⟩
    | false =>
      rw [addSegLost done stored]
      exact .emptied rfl rfl rfl

theorem Bounded.finished (bounded : Bounded limits ctx) (several : 1 < ctx.aggFd.segs.length) :
    1 < ctx.segNum ∧ Fits limits (finishFrame ctx checksum (some ctx.lastSegFields)) :=
  ⟨BitVec.lt_def.mpr (bounded.grown.counted ▸ several), bounded.grown.fits several⟩

theorem Bounded.ended (bounded : Bounded limits ctx) (several : 1 < (endedFrame ctx checksum).segs.length) :
    Fits limits (endedFrame ctx checksum) := by
  obtain ⟨some, fits⟩ := @Bounded.finished _ _ checksum bounded several
  rw [endedFrame, if_neg fun one => absurd (one ▸ some) (by decide)]
  exact fits

structure Limited (limits : Limits) (o : Outcome) : Prop where
  sound : Sound limits o.ctx
  fits : ∀ f ∈ o.frame, 1 < f.segs.length → Fits limits f

theorem closeOpenLimited (bounded : Bounded limits ctx)
    (done : tcpGroCloseAggregationAndOpenNewAggregation ctx timers limits arrival a = some o) : Limited limits o := by
  refine ⟨closeOpenSound bounded.same done, fun f member several => ?_⟩
  have out : f = finishFrame ctx a.tcpChecksum (lastOfSeveral ctx) := by
    cases closeOpenCases done <;> grind
  subst out
  obtain ⟨some, fits⟩ := @Bounded.finished _ _ a.tcpChecksum bounded several
  rw [lastOfSeveral, if_pos some]
  exact fits

theorem handedBack (sound : Sound limits ctx) {status : GroStatus} : Limited limits ⟨status, some arrival.frame, ctx, timers⟩ :=
  ⟨sound, fun f member several => by cases member; exact absurd several (Nat.lt_irrefl 1)⟩

theorem aggregateLimited {flags : BitVec 32} (sound : Sound limits ctx)
    (fits : Joins ctx arrival.segment → FitsJoin limits ctx timers arrival.segment a)
    (done : tcpGroAggregateSeg ctx timers limits flags arrival a = some o) : Limited limits o := by
  simp only [tcpGroAggregateSeg] at done
  split at done
  · cases done
    exact handedBack sound
  next error =>
    split at done
    next some =>
      have bounded := sound.bounded some
      simp only [tcpGroAddSegToAggregation] at done
      split at done
      · exact closeOpenLimited bounded done
      next continues =>
        split at done
        · exact closeOpenLimited bounded done
        next below =>
          have joins : Joins ctx arrival.segment :=
            ⟨Bool.eq_false_iff.mpr error, some, not_not.mp continues, BitVec.not_lt.mp below⟩
          split at done
          next closes =>
            obtain ⟨sound, fits⟩ := addCloseSound bounded joins closes (fits joins) done
            exact ⟨sound, fits⟩
          next stays =>
            cases done
            refine ⟨addSound bounded joins stays (fits joins), fun f member => ?_⟩
            rw [addSeg] at member
            split at member
            · cases member
            · split at member <;> cases member
    next empty =>
      split at done
      · cases done
        exact handedBack sound
      next waits =>
        obtain ⟨open', clear⟩ := not_or.mp waits
        obtain ⟨unset, zero⟩ := sound.vacant (not_not.mp empty) (not_not.mp clear)
        have flags : ctx.internalFlags ||| arrival.segment.hasTimestamp ||| arrival.segment.ecn.setWidth 16 =
            arrival.segment.hasTimestamp ||| arrival.segment.ecn.setWidth 16 := by
          rw [unset]
          exact congrArg (· ||| _) BitVec.zero_or
        split at done
        · cases done
        · cases done
          exact handedBack sound
        · split at done
          · cases done
            exact handedBack sound
          · cases done
            refine ⟨.started rfl rfl rfl fun _ => ⟨open', fun psh => open' (.inl psh), ?_, ?_⟩, by simp⟩
            · exact (congrArg (fun x : BitVec 16 => x.setWidth 32 &&& groEcnMask) flags).trans (ecnMarked arrival.segment)
            · unfold Segment.timestamp
              simp only
              split <;> simp [zero]

theorem flushFrame (done : tcpGroFlushAggregation ctx timers checksum = some o) : ∀ f ∈ o.frame,
    f = ctx.aggFd ∧ ctx.internalFlags &&& groFlushAggSet ≠ 0 ∨ f = endedFrame ctx checksum := by
  simp only [tcpGroFlushAggregation] at done
  intro f member
  split at done
  · cases done
    cases member
  · split at done
    · cases done
    · cases done
      cases member
    · cases done
      cases member
      split
      next flush => exact .inl ⟨rfl, flush⟩
      · exact .inr rfl

theorem flushLimited (sound : Sound limits ctx) (done : tcpGroFlushAggregation ctx timers checksum = some o) :
    Limited limits o := by
  have out := flushFrame done
  cases flushCases done with
  | nothing empty => exact ⟨sound, by simp⟩
  | late some expired =>
    have bounded := sound.bounded some
    refine ⟨⟨fun empty => absurd empty some, fun _ => ?_⟩, by simp⟩
    exact ⟨bounded.same, bounded.grown, fun flush => absurd flush (show ¬ (groAggTimerInProcess &&& groFlushAggSet ≠ 0) by decide),
      fun clear => absurd clear (show ¬ (groAggTimerInProcess &&& _ = 0) by decide)⟩
  | @out f timers' some frame timer =>
    refine ⟨.emptied rfl rfl rfl, fun f member several => ?_⟩
    have bounded := sound.bounded some
    obtain ⟨rfl, flush⟩ | rfl := out f member
    · exact absurd (bounded.grown.counted ▸ several) (by rw [bounded.alone flush]; decide)
    · exact bounded.ended several

theorem timeoutLimited {handle : BitVec 32} (sound : Sound limits ctx) :
    Limited limits (tcpGroTimeoutCallback ctx timers handle checksum) := by
  obtain ⟨result, _⟩ | ⟨result, _, some⟩ := @callbackCases ctx timers checksum handle
  · rw [result]
    exact ⟨sound, by simp⟩
  · rw [result]
    refine ⟨.emptied rfl rfl rfl, fun f member several => ?_⟩
    cases member
    exact (sound.bounded some).ended several

end calls

def Keeping (limits : Limits) (s : System) : Prop :=
  Sound limits s.ctx ∧ ∀ f ∈ s.given, 1 < f.segs.length → Fits limits f

theorem stepKeeping {limits : Limits} {s s' : System} {e : Event} (keeping : Keeping limits s)
    (keeps : KeepsLimits limits s e) (done : step s e = some s') : Keeping limits s' := by
  obtain ⟨sound, given⟩ := keeping
  have more {o : Outcome} (limited : Limited limits o) : ∀ f ∈ s.given ++ o.frame.toList, 1 < f.segs.length → Fits limits f := by
    intro f member
    obtain before | now := List.mem_append.mp member
    · exact given f before
    · exact limited.fits f (Option.mem_toList.mp now)
  cases e with
  | aggregate limits' flags segment a =>
    obtain ⟨rfl, fits⟩ := keeps
    obtain ⟨o, called, rfl⟩ := Option.map_eq_some_iff.mp done
    have limited := aggregateLimited sound fits called
    exact ⟨limited.sound, more limited⟩
  | flush checksum =>
    obtain ⟨o, called, rfl⟩ := Option.map_eq_some_iff.mp done
    have limited := flushLimited sound called
    exact ⟨limited.sound, more limited⟩
  | expire handle =>
    simp only [step] at done
    split at done
    · cases done
      exact ⟨sound, given⟩
    · cases done
  | timeout handle checksum =>
    simp only [step] at done
    split at done
    · cases done
      have limited := @timeoutLimited _ _ { s.timers with tasks := s.timers.tasks.erase handle } checksum handle sound
      exact ⟨limited.sound, more limited⟩
    · cases done

theorem limitsKept {limits : Limits} {es : List Event} {s : System} (keeps : Along (KeepsLimits limits) zeroed es)
    (played : play zeroed es = some s) : ∀ f ∈ s.given, 1 < f.segs.length → Fits limits f :=
  (playInvariant (fun _ _ _ keeping keeps done => stepKeeping keeping keeps done)
    ⟨.emptied rfl rfl rfl, by simp [zeroed]⟩ keeps played).2

theorem limitsKeptExample : ∃ s, play zeroed exampleEvents = some s ∧ (∃ f ∈ s.given, 1 < f.segs.length) ∧
    ∀ f ∈ s.given, 1 < f.segs.length → Fits ⟨1000, 10⟩ f := by
  have two : (play zeroed exampleEvents).map (fun s => s.given.any fun f => 1 < f.segs.length) = some true := by
    decide
  obtain ⟨s, played, several⟩ := Option.map_eq_some_iff.mp two
  have keeps : Along (KeepsLimits ⟨1000, 10⟩) zeroed exampleEvents :=
    @of_decide_eq_true _ (decideAlong (fun _ _ => inferInstance) zeroed exampleEvents) (by decide)
  exact ⟨s, played, by simpa using several, limitsKept keeps played⟩

theorem pushedInside : ∃ s, play zeroed overlappingEvents = some s ∧
    ∃ f ∈ s.given, 1 < f.segs.length ∧ ¬ Fits ⟨1000, 10⟩ f := by
  have pushed : (play zeroed overlappingEvents).map (fun s => s.given.any fun f =>
      decide (1 < f.segs.length ∧ ¬ f.segs.Pairwise fun a b => Alike a.segment b.segment)) = some true := by decide
  obtain ⟨s, played, inside⟩ := Option.map_eq_some_iff.mp pushed
  obtain ⟨f, member, bad⟩ := List.any_eq_true.mp inside
  obtain ⟨several, apart⟩ := of_decide_eq_true bad
  exact ⟨s, played, f, member, several, fun fits => apart fits.alike⟩

end Flexbuild.TcpAggregation
