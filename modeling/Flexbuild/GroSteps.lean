import Flexbuild.GroFrames

/-! What each call does to the context, exit by exit. -/
namespace Flexbuild.TcpAggregation
open ByteMemory (Byte)
open Fields

section flags
variable {s : Segment} {x : BitVec 16}

theorem openedFlags (mask : BitVec 16) (other : groHasTimestamp &&& mask = 0) (apart : groEcnMask.setWidth 16 &&& mask = 0) :
    (s.hasTimestamp ||| s.ecn.setWidth 16) &&& mask = 0 := by
  have timestamp : s.hasTimestamp &&& mask = 0 := by
    unfold Segment.hasTimestamp
    split
    · exact other
    · exact BitVec.zero_and
  have ecn : s.ecn.setWidth 16 &&& mask = 0 := by
    rw [Segment.ecn, BitVec.setWidth_and, BitVec.and_assoc, apart]
    exact BitVec.and_zero
  rw [BitVec.and_or_distrib_right, timestamp, ecn]
  rfl

theorem discardSeen (x mask : BitVec 16) (inside : mask.getLsbD 3 = true) : (x ||| groDiscardSegSet) &&& mask ≠ 0 := by
  intro zero
  have bit : ((x ||| groDiscardSegSet) &&& mask).getLsbD 3 = false := congrArg (BitVec.getLsbD · 3) zero
  rw [BitVec.getLsbD_and, BitVec.getLsbD_or, inside, show groDiscardSegSet.getLsbD 3 = true from rfl, Bool.or_true] at bit
  cases bit

end flags

theorem deleteCases {timers timers' : Timers} {handle : BitVec 32} {deleted : Bool}
    (done : timers.tmanDeleteTimer handle = some (deleted, timers')) :
    timers.state handle = .running ∧ deleted = true ∧ timers' = timers.set handle .free ∨
      timers.state handle = .expired ∧ deleted = false ∧ timers' = timers := by
  unfold Timers.tmanDeleteTimer at done
  split at done
  · cases done
  · cases done
    exact .inl ⟨‹_›, rfl, rfl⟩
  · cases done
    exact .inr ⟨‹_›, rfl, rfl⟩

theorem createCases {timers timers' : Timers} {created handle : Option (BitVec 32)}
    (done : timers.tmanCreateTimer created = some (handle, timers')) :
    created = none ∧ handle = none ∧ timers' = timers ∨
      ∃ h, created = some h ∧ handle = some h ∧ timers.state h = .free ∧ h &&& timerHandleMask = h ∧
        timers' = timers.set h .running := by
  cases created with
  | none =>
    cases done
    exact .inl ⟨rfl, rfl, rfl⟩
  | some h =>
    simp only [Timers.tmanCreateTimer] at done
    split at done
    next fits =>
      cases done
      exact .inr ⟨h, rfl, rfl, fits.1, fits.2, rfl⟩
    · cases done

section closing
variable (ctx : GroContext) (timers : Timers) (limits : Limits) (arrival : Arrival) (a : Answers)

inductive Closing : Outcome → Prop where
  | flush {ctx' : GroContext} {timers' : Timers} (stored : a.stored = true) (alone : flushes limits arrival.segment)
      (one : ctx'.segNum = 1) (kept : ctx'.aggFd = arrival.frame) (set : ctx'.internalFlags &&& groFlushAggSet ≠ 0)
      (timer : timers.state ctx.timerHandle = .running ∧ timers' = timers.set ctx.timerHandle .free ∧
          ctx'.timerHandle = invalidTmanHandle ∨
        timers.state ctx.timerHandle = .expired ∧ timers' = timers ∧ ctx'.timerHandle = ctx.timerHandle) :
      Closing ⟨.bits (segAggDone ||| flushRequired), some (finishFrame ctx a.tcpChecksum (lastOfSeveral ctx)),
        ctx', timers'⟩
  | discard {ctx' : GroContext} {timers' : Timers} (failed : a.stored = false) (empty : ctx'.segNum = 0)
      (timer : timers.state ctx.timerHandle = .running ∧ timers' = timers.set ctx.timerHandle .free ∧
          ctx'.timerHandle = invalidTmanHandle ∧ ctx'.internalFlags = 0 ∨
        timers.state ctx.timerHandle = .expired ∧ timers' = timers ∧ ctx'.timerHandle = ctx.timerHandle ∧
          ctx'.internalFlags = groAggTimerInProcess) :
      Closing ⟨.bits (segAggDone ||| segDiscarded), some (finishFrame ctx a.tcpChecksum (lastOfSeveral ctx)),
        ctx', timers'⟩
  | timerless {ctx' : GroContext} {timers' : Timers} (stored : a.stored = true)
      (open' : ¬ flushes limits arrival.segment) (one : ctx'.segNum = 1) (kept : ctx'.aggFd = arrival.frame)
      (next : ctx'.nextSeq = arrival.segment.sequenceNumber + arrival.segment.segSize.setWidth 32 -
        arrival.segment.headersSize.setWidth 32)
      (handle : ctx'.timerHandle = invalidTmanHandle)
      (timer : timers.state ctx.timerHandle = .running ∧ timers' = timers.set ctx.timerHandle .free ∨
        timers.state ctx.timerHandle = .expired ∧ timers' = timers) :
      Closing ⟨.bits (segAggDone ||| flushRequired ||| timerUnavail),
        some (finishFrame ctx a.tcpChecksum (lastOfSeveral ctx)), ctx', timers'⟩
  | reopen {ctx' : GroContext} {mid : Timers} {handle : BitVec 32} (stored : a.stored = true)
      (open' : ¬ flushes limits arrival.segment) (one : ctx'.segNum = 1) (kept : ctx'.aggFd = arrival.frame)
      (next : ctx'.nextSeq = arrival.segment.sequenceNumber + arrival.segment.segSize.setWidth 32 -
        arrival.segment.headersSize.setWidth 32)
      (timer : timers.state ctx.timerHandle = .running ∧ mid = timers.set ctx.timerHandle .free ∨
        timers.state ctx.timerHandle = .expired ∧ mid = timers)
      (fresh : mid.state handle = .free ∧ handle &&& timerHandleMask = handle)
      (named : ctx'.timerHandle = handle) :
      Closing ⟨.bits (segAggDoneAggOpen ||| metadataUsed), some (finishFrame ctx a.tcpChecksum (lastOfSeveral ctx)),
        ctx', mid.set handle .running⟩

variable {ctx timers limits arrival a}

variable {o : Outcome}

theorem closeOpenCases (done : tcpGroCloseAggregationAndOpenNewAggregation ctx timers limits arrival a = some o) :
    Closing ctx timers limits arrival a o := by
  unfold tcpGroCloseAggregationAndOpenNewAggregation at done
  cases stored : a.stored with
  | false =>
    simp only [stored, Bool.false_eq_true, if_false, if_pos (discardSeen _ (groFlushAggSet ||| groDiscardSegSet) rfl),
      if_pos (discardSeen _ groDiscardSegSet rfl)] at done
    split at done
    · cases done
    next timers' deleted =>
      obtain ⟨_, impossible, _⟩ | ⟨expired, _, rfl⟩ := deleteCases deleted
      · cases impossible
      rw [if_neg (by decide)] at done
      cases done
      refine .discard stored rfl (.inr ⟨expired, rfl, ?_, rfl⟩)
      split <;> rfl
    next timers' deleted =>
      obtain ⟨running, _, rfl⟩ | ⟨_, impossible, _⟩ := deleteCases deleted
      · cases done
        exact .discard stored rfl (.inl ⟨running, rfl, rfl, rfl⟩)
      · cases impossible
  | true =>
    by_cases alone : flushes limits arrival.segment
    · simp only [stored, if_true, if_pos alone] at done
      rw [if_pos (by decide)] at done
      simp only [if_neg (show ¬ (groFlushAggSet &&& groDiscardSegSet ≠ 0) by decide)] at done
      split at done
      · cases done
      next timers' deleted =>
        obtain ⟨_, impossible, _⟩ | ⟨expired, _, rfl⟩ := deleteCases deleted
        · cases impossible
        rw [if_neg (by decide)] at done
        cases done
        exact .flush stored alone rfl rfl (show (groFlushAggSet ||| groAggTimerInProcess) &&& groFlushAggSet ≠ 0 by decide) (.inr ⟨expired, rfl, rfl⟩)
      next timers' deleted =>
        obtain ⟨running, _, rfl⟩ | ⟨_, impossible, _⟩ := deleteCases deleted
        · cases done
          exact .flush stored alone rfl rfl (show groFlushAggSet &&& groFlushAggSet ≠ 0 by decide) (.inl ⟨running, rfl, rfl⟩)
        · cases impossible
    · simp only [stored, if_true, if_neg alone] at done
      rw [if_neg (by rw [openedFlags _ (by decide) (by decide)]; exact fun nonzero => nonzero rfl)] at done
      split at done
      · cases done
      next deleted mid found =>
        have timer : timers.state ctx.timerHandle = .running ∧ mid = timers.set ctx.timerHandle .free ∨
            timers.state ctx.timerHandle = .expired ∧ mid = timers :=
          (deleteCases found).imp (fun c => ⟨c.1, c.2.2⟩) fun c => ⟨c.1, c.2.2⟩
        split at done
        · cases done
        next timers' created =>
          obtain ⟨_, _, rfl⟩ | ⟨_, _, impossible, _⟩ := createCases created
          · cases done
            exact .timerless stored alone rfl rfl rfl rfl timer
          · cases impossible
        next handle timers' created =>
          obtain ⟨_, impossible, _⟩ | ⟨h, _, same, free, masked, rfl⟩ := createCases created
          · cases impossible
          cases same
          cases done
          exact .reopen stored alone rfl rfl rfl timer ⟨free, masked⟩ rfl

def Joins (ctx : GroContext) (s : Segment) : Prop :=
  s.error = false ∧ ctx.segNum ≠ 0 ∧ Continues ctx s ∧ aggregatedSize ctx s ≤ ctx.limits.packetSizeLimit

instance (ctx : GroContext) (s : Segment) : Decidable (Joins ctx s) := inferInstanceAs (Decidable (_ ∧ _ ∧ _ ∧ _))

def Opens (ctx : GroContext) (limits : Limits) (s : Segment) : Prop :=
  s.error = false ∧ ctx.segNum = 0 ∧ ¬ flushes limits s ∧
    ctx.internalFlags &&& (groAggTimerInProcess ||| groFlushAggSet) = 0

instance (ctx : GroContext) (limits : Limits) (s : Segment) : Decidable (Opens ctx limits s) :=
  inferInstanceAs (Decidable (_ ∧ _ ∧ _ ∧ _))

def closedFrame (ctx : GroContext) (arrival : Arrival) (a : Answers) : Frame :=
  { joinFrames ctx.aggFd arrival a with
    bytes := updateHeaders ctx.flags a.tcpChecksum arrival.segment.pr (some arrival.segment.lastSegFields)
      (joinFrames ctx.aggFd arrival a).bytes }

def discardBit (a : Answers) : BitVec 8 := if a.concatenated then 0 else segDiscarded

variable (ctx timers limits arrival a)

inductive Aggregating : Outcome → Prop where
  | handedBack {status : GroStatus} {timers' : Timers}
      (quiet : status ∈ [.eio, .enomem, .bits segAggDone, .bits (segAggDone ||| timerUnavail)])
      (timer : timers' = timers ∨ Opens ctx limits arrival.segment ∧ a.created ≠ none ∧ a.stored = false) :
      Aggregating ⟨status, some arrival.frame, ctx, timers'⟩
  | opened {ctx' : GroContext} {handle : BitVec 32} (opens : Opens ctx limits arrival.segment)
      (created : a.created = some handle) (stored : a.stored = true)
      (fresh : timers.state handle = .free ∧ handle &&& timerHandleMask = handle)
      (one : ctx'.segNum = 1) (kept : ctx'.aggFd = arrival.frame)
      (next : ctx'.nextSeq = arrival.segment.sequenceNumber + arrival.segment.segSize.setWidth 32 -
        arrival.segment.headersSize.setWidth 32)
      (named : ctx'.timerHandle = handle) :
      Aggregating ⟨.bits (segAggNotDone ||| metadataUsed), none, ctx', timers.set handle .running⟩
  | closing {o : Outcome} (sound : arrival.segment.error = false) (some : ctx.segNum ≠ 0)
      (apart : ¬ Joins ctx arrival.segment) (closing : Closing ctx timers limits arrival a o) : Aggregating o
  | closed {ctx' : GroContext} (joins : Joins ctx arrival.segment) (closes : Closes ctx arrival.segment)
      (running : timers.state ctx.timerHandle = .running) (empty : ctx'.segNum = 0) (clear : ctx'.internalFlags = 0)
      (handle : ctx'.timerHandle = invalidTmanHandle) :
      Aggregating ⟨.bits (segAggDone ||| discardBit a), some (closedFrame ctx arrival a), ctx',
        timers.set ctx.timerHandle .free⟩
  | late {ctx' : GroContext} (joins : Joins ctx arrival.segment) (closes : Closes ctx arrival.segment)
      (expired : timers.state ctx.timerHandle = .expired)
      (count : ctx'.segNum = if a.concatenated then ctx.segNum + 1 else ctx.segNum)
      (kept : ctx'.aggFd = { closedFrame ctx arrival a with
        bytes := if a.stored then (closedFrame ctx arrival a).bytes else a.remains })
      (last : ctx'.lastSegFields = arrival.segment.lastSegFields) (flags : ctx'.internalFlags = groAggTimerInProcess)
      (handle : ctx'.timerHandle = ctx.timerHandle) :
      Aggregating ⟨.bits (segAggTimerInProcess ||| discardBit a), none, ctx', timers⟩
  | added (joins : Joins ctx arrival.segment) (stays : ¬ Closes ctx arrival.segment) :
      Aggregating (addSeg ctx timers arrival a)

variable {ctx timers limits arrival a}

theorem addCloseCases (joins : Joins ctx arrival.segment) (closes : Closes ctx arrival.segment)
    (done : tcpGroAddSegAndCloseAggregation ctx timers arrival a = some o) :
    Aggregating ctx timers limits arrival a o := by
  simp only [tcpGroAddSegAndCloseAggregation] at done
  split at done
  · cases done
  next deleted timers' found =>
    obtain ⟨running, rfl, rfl⟩ | ⟨expired, rfl, rfl⟩ := deleteCases found
    · cases done
      exact .closed joins closes running rfl rfl rfl
    · cases done
      exact .late joins closes expired rfl rfl rfl rfl rfl

theorem addSegCases (sound : arrival.segment.error = false) (some : ctx.segNum ≠ 0)
    (done : tcpGroAddSegToAggregation ctx timers limits arrival a = Option.some o) :
    Aggregating ctx timers limits arrival a o := by
  simp only [tcpGroAddSegToAggregation] at done
  split at done
  next differs => exact .closing sound some (fun joins => differs joins.2.2.1) (closeOpenCases done)
  next continues =>
    split at done
    next above => exact .closing sound some (fun joins => absurd joins.2.2.2 (BitVec.not_le.mpr above)) (closeOpenCases done)
    next below =>
      have joins : Joins ctx arrival.segment := ⟨sound, some, not_not.mp continues, BitVec.not_lt.mp below⟩
      split at done
      next closes => exact addCloseCases joins closes done
      next stays =>
        cases done
        exact .added joins stays

theorem aggregateCases {flags : BitVec 32} (done : tcpGroAggregateSeg ctx timers limits flags arrival a = some o) :
    Aggregating ctx timers limits arrival a o := by
  simp only [tcpGroAggregateSeg] at done
  split at done
  · cases done
    exact .handedBack (by simp) (.inl rfl)
  next sound =>
    have sound : arrival.segment.error = false := Bool.eq_false_iff.mpr sound
    split at done
    next some => exact addSegCases sound some done
    next empty =>
      split at done
      · cases done
        exact .handedBack (by simp) (.inl rfl)
      next open' =>
        obtain ⟨alone, clear⟩ := not_or.mp open'
        have opens : Opens ctx limits arrival.segment := ⟨sound, not_not.mp empty, alone, not_not.mp clear⟩
        split at done
        · cases done
        next timers' created =>
          obtain ⟨_, _, rfl⟩ | ⟨_, _, impossible, _⟩ := createCases created
          · cases done
            exact .handedBack (by simp) (.inl rfl)
          · cases impossible
        next handle timers' created =>
          obtain ⟨_, impossible, _⟩ | ⟨_, made, same, free, masked, rfl⟩ := createCases created
          · cases impossible
          cases same
          split at done
          next failed =>
            cases done
            exact .handedBack (by simp) (.inr ⟨opens, by simp [made], Bool.eq_false_iff.mpr failed⟩)
          next stored =>
            cases done
            exact .opened opens made (not_not.mp stored) ⟨free, masked⟩ rfl rfl rfl rfl

theorem addSegJoined (done : a.concatenated = true) :
    addSeg ctx timers arrival a = ⟨.bits segAggNotDone, none, { ctx with
      aggFd := joinFrames ctx.aggFd arrival a
      nextSeq := ctx.nextSeq + arrival.segment.segSize.setWidth 32 - arrival.segment.headersSize.setWidth 32
      lastSegFields := arrival.segment.lastSegFields
      segNum := ctx.segNum + 1 }, timers⟩ := by
  rw [addSeg, done, if_pos rfl]

theorem addSegCut (failed : a.concatenated = false) (stored : a.stored = true) :
    addSeg ctx timers arrival a = ⟨.bits (flushRequired ||| segDiscarded), none,
      { ctx with aggFd := joinFrames ctx.aggFd arrival a }, timers⟩ := by
  rw [addSeg, failed, stored, if_neg (by decide), if_pos rfl]

theorem addSegLost (failed : a.concatenated = false) (lost : a.stored = false) :
    addSeg ctx timers arrival a = ⟨.bits aggDiscarded, none,
      { ctx with segNum := 0, internalFlags := 0, timestamp := 0 }, timers⟩ := by
  rw [addSeg, failed, lost, if_neg (by decide), if_neg (by decide)]

end closing

section ending
variable (ctx : GroContext) (timers : Timers) (checksum : List Byte → BitVec 16)

def endedFrame : Frame := finishFrame ctx checksum (if ctx.segNum = 1 then none else some ctx.lastSegFields)

def emptied (ctx : GroContext) : GroContext := { ctx with segNum := 0, internalFlags := 0, timestamp := 0 }

inductive Flushing : Outcome → Prop where
  | nothing (empty : ctx.segNum = 0) : Flushing ⟨.bits flushNoAgg, none, ctx, timers⟩
  | late (some : ctx.segNum ≠ 0) (expired : timers.state ctx.timerHandle = .expired) :
      Flushing ⟨.bits segAggTimerInProcess, none, { ctx with internalFlags := groAggTimerInProcess }, timers⟩
  | out {f : Frame} {timers' : Timers} (some : ctx.segNum ≠ 0) (frame : f = ctx.aggFd ∨ f = endedFrame ctx checksum)
      (timer : ctx.timerHandle = invalidTmanHandle ∧ timers' = timers ∨
        timers.state ctx.timerHandle = .running ∧ timers' = timers.set ctx.timerHandle .free) :
      Flushing ⟨.bits flushAggDone, Option.some f, { emptied ctx with timerHandle := invalidTmanHandle }, timers'⟩

variable {ctx timers checksum}

theorem flushCases {o : Outcome} (done : tcpGroFlushAggregation ctx timers checksum = some o) :
    Flushing ctx timers checksum o := by
  simp only [tcpGroFlushAggregation] at done
  split at done
  next empty =>
    cases done
    exact .nothing empty
  next some =>
    split at done
    · cases done
    next timers' late =>
      split at late
      · cases late
      obtain ⟨_, impossible, _⟩ | ⟨expired, _, rfl⟩ := deleteCases late
      · cases impossible
      cases done
      exact .late some expired
    next timers' deleted =>
      have timer : ctx.timerHandle = invalidTmanHandle ∧ timers' = timers ∨
          timers.state ctx.timerHandle = .running ∧ timers' = timers.set ctx.timerHandle .free := by
        split at deleted
        next invalid =>
          cases deleted
          exact .inl ⟨invalid, rfl⟩
        · obtain ⟨running, _, rfl⟩ | ⟨_, impossible, _⟩ := deleteCases deleted
          · exact .inr ⟨running, rfl⟩
          · cases impossible
      cases done
      refine .out some ?_ timer
      split
      · exact .inl rfl
      · exact .inr rfl

theorem callbackCases {handle : BitVec 32} :
    (tcpGroTimeoutCallback ctx timers handle checksum = ⟨.bits 0, none, ctx,
        timers.tmanTimerCompletionConfirmation ctx.timerHandle⟩ ∧
      (ctx.timerHandle ≠ handle &&& timerHandleMask ∨ ctx.segNum = 0)) ∨
    (tcpGroTimeoutCallback ctx timers handle checksum = ⟨.bits 0, some (endedFrame ctx checksum), emptied ctx,
        timers.tmanTimerCompletionConfirmation ctx.timerHandle⟩ ∧
      ctx.timerHandle = handle &&& timerHandleMask ∧ ctx.segNum ≠ 0) := by
  simp only [tcpGroTimeoutCallback]
  split
  next stale => exact .inl ⟨rfl, stale⟩
  next own =>
    obtain ⟨same, some⟩ := not_or.mp own
    exact .inr ⟨rfl, not_not.mp same, some⟩

end ending
end Flexbuild.TcpAggregation
