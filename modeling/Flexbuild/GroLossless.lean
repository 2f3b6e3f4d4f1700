import Flexbuild.GroRuns
import Mathlib.Data.List.Nodup
import Mathlib.Data.List.Perm.Basic

/-! Aggregation loses nothing, repeats nothing and keeps the order, as long as no segment is put
behind an aggregation that it does not continue, and what is cut off or stored again is
all there. -/
namespace Flexbuild.TcpAggregation
open ByteMemory (Byte)
open Fields

section carries
variable {n : Nat} {ctx : GroContext} {timers : Timers} {limits : Limits} {arrival : Arrival} {a : Answers} {o : Outcome}

theorem closingCarries (good : Good n ctx) (number : arrival.number = n) (some : ctx.segNum ≠ 0)
    (short : ¬ flushes limits arrival.segment → arrival.segment.bytes.length < 2 ^ 16)
    (closing : Closing ctx timers limits arrival a o) : Carries n ctx arrival o := by
  have out : ∀ f ∈ Option.some (finishFrame ctx a.tcpChecksum (lastOfSeveral ctx)), f.Whole := by
    intro f member
    cases member
    exact good.closingFrame
  have swapped : ([arrival] ++ (finishFrame ctx a.tcpChecksum (lastOfSeveral ctx)).segs).Perm (held ctx ++ [arrival]) := by
    rw [heldSome some]
    exact List.perm_append_comm
  cases closing with
  | flush stored alone one kept set timer =>
    refine ⟨?_, out, fun _ => .opened number one kept fun clear => absurd ?_ set⟩
    · rw [heldOne one kept, notReported (by decide) (by decide)]
      simpa using swapped
    · rw [BitVec.and_or_distrib_left] at clear
      exact (BitVec.or_eq_zero_iff.mp clear).2
  | discard failed empty timer =>
    refine ⟨?_, out, fun nonzero => absurd empty nonzero⟩
    rw [heldNone empty, segReported (by decide) (by decide), heldSome some]
    simp [finishFrame]
  | timerless stored open' one kept next handle timer =>
    refine ⟨?_, out, fun _ => .opened number one kept fun _ => next.trans (arrival.segment.nextSeqComputed (short open'))⟩
    rw [heldOne one kept, notReported (by decide) (by decide)]
    simpa using swapped
  | reopen stored open' one kept next timer fresh named =>
    refine ⟨?_, out, fun _ => .opened number one kept fun _ => next.trans (arrival.segment.nextSeqComputed (short open'))⟩
    rw [heldOne one kept, notReported (by decide) (by decide)]
    simpa using swapped

theorem countKept {segNum : BitVec 16} (full : segNum ≠ 0xffff#16) : segNum + 1 ≠ 0 := by
  bv_omega

theorem joinedEarlier (good : Good n ctx) (number : arrival.number = n) :
    ∀ b ∈ (joinFrames ctx.aggFd arrival a).segs, b.number < n + 1 := by
  intro b member
  rw [joinedSegs] at member
  split at member
  · obtain before | now := List.mem_append.mp member
    · exact Nat.lt_succ_of_lt (good.earlier b before)
    · cases List.mem_singleton.mp now
      omega
  · exact Nat.lt_succ_of_lt (good.earlier b member)

theorem closedCarries (good : Good n ctx) (number : arrival.number = n) (joins : Joins ctx arrival.segment)
    (closes : Closes ctx arrival.segment) (safe : SafeJoin ctx timers arrival.segment a) :
    (closedFrame ctx arrival a).Whole ∧ Laid ctx.aggFd.pr (closedFrame ctx arrival a).bytes ∧
      arrival.segment.lastSegFields.dataOffset =
        dataOffset (closedFrame ctx arrival a).bytes ctx.aggFd.pr.l4Offset.toNat := by
  obtain ⟨whole, laid, offset⟩ := joinedGood good number joins safe (.inr (.inl closes))
  have edits := closedEdits good number joins safe closes
  rw [← @joinedPr ctx arrival a] at laid edits
  refine ⟨whole.edited laid edits, @joinedPr ctx arrival a ▸ edits.laid laid, ?_⟩
  rw [joinedPr] at edits
  rw [edits.offset, offset]
  exact safe.2.2.1 (.inr closes)

theorem lateCarries {ctx' : GroContext} (good : Good n ctx) (number : arrival.number = n)
    (joins : Joins ctx arrival.segment) (closes : Closes ctx arrival.segment)
    (safe : SafeJoin ctx timers arrival.segment a) (expired : timers.state ctx.timerHandle = .expired)
    (kept : ctx'.aggFd = { closedFrame ctx arrival a with
      bytes := if a.stored then (closedFrame ctx arrival a).bytes else a.remains })
    (last : ctx'.lastSegFields = arrival.segment.lastSegFields) (flags : ctx'.internalFlags = groAggTimerInProcess) :
    Good (n + 1) ctx' := by
  have kept : ctx'.aggFd = closedFrame ctx arrival a := by
    rw [kept, if_pos ((safe.2.2.2 closes).2 expired)]
  obtain ⟨whole, laid, offset⟩ := closedCarries good number joins closes safe
  refine ⟨kept ▸ whole, ?_, ?_, fun _ => ?_, fun clear => ?_⟩
  · rw [kept, closedPr]
    exact laid
  · rw [kept]
    exact joinedEarlier good number
  · rw [last, kept, closedPr]
    exact offset
  · rw [flags] at clear
    exact absurd clear (by decide)

theorem addedCarries (good : Good n ctx) (number : arrival.number = n) (joins : Joins ctx arrival.segment)
    (stays : ¬ Closes ctx arrival.segment) (short : arrival.segment.bytes.length < 2 ^ 16)
    (safe : SafeJoin ctx timers arrival.segment a) : Carries n ctx arrival (addSeg ctx timers arrival a) := by
  have some : ctx.segNum ≠ 0 := joins.2.1
  have earlier := @joinedEarlier _ _ _ a good number
  cases done : a.concatenated with
  | true =>
    obtain ⟨whole, laid, offset⟩ := joinedGood good number joins safe (.inl done)
    have counted : ctx.segNum + 1 ≠ 0 :=
      countKept fun full => stays ((safe.1 done).2.2 full).1
    have segs : (joinFrames ctx.aggFd arrival a).segs = ctx.aggFd.segs ++ [arrival] := by rw [joinedSegs, if_pos done]
    have next : ctx.nextSeq + arrival.segment.segSize.setWidth 32 - arrival.segment.headersSize.setWidth 32 =
        endOf (joinFrames ctx.aggFd arrival a).segs := by
      rw [segs, endOfJoined, joins.2.2.1.1, arrival.segment.nextSeqComputed short]
    have last : arrival.segment.lastSegFields.dataOffset =
        dataOffset (joinFrames ctx.aggFd arrival a).bytes ctx.aggFd.pr.l4Offset.toNat :=
      (safe.2.2.1 (.inl done)).trans offset.symm
    rw [addSegJoined done]
    rw [← @joinedPr ctx arrival a] at laid last
    refine ⟨?_, by simp, fun _ => ⟨whole, laid, earlier, fun _ => last, fun _ => next⟩⟩
    rw [notReported (by decide) (by decide), heldSome some, heldSome counted, segs]
    simp
  | false =>
    cases stored : a.stored with
    | true =>
      obtain ⟨whole, laid, offset⟩ := joinedGood good number joins safe (.inr (.inr stored))
      have segs : (joinFrames ctx.aggFd arrival a).segs = ctx.aggFd.segs := by rw [joinedSegs, if_neg (by simp [done])]
      have last (several : 1 < ctx.segNum) : ctx.lastSegFields.dataOffset =
          dataOffset (joinFrames ctx.aggFd arrival a).bytes ctx.aggFd.pr.l4Offset.toNat :=
        (good.last several).trans offset.symm
      rw [addSegCut done stored]
      rw [← @joinedPr ctx arrival a] at laid last
      refine ⟨?_, by simp, fun _ => ⟨whole, laid, earlier, last, fun clear => ?_⟩⟩
      · have still : held { ctx with aggFd := joinFrames ctx.aggFd arrival a } = ctx.aggFd.segs :=
          (@heldSome { ctx with aggFd := joinFrames ctx.aggFd arrival a } some).trans segs
        rw [segReported (by decide) (by decide), heldSome some, still]
        simp
      · exact (good.expects clear).trans (congrArg endOf segs.symm)
    | false =>
      rw [addSegLost done stored]
      refine ⟨?_, by simp, fun nonzero => absurd rfl nonzero⟩
      rw [heldNone rfl, reported, if_pos rfl]
      simp

theorem aggregateCarries (holding : Holding n ctx) (number : arrival.number = n)
    (measured : Measured ctx limits arrival.segment → arrival.segment.bytes.length < 2 ^ 16)
    (safe : Joins ctx arrival.segment → SafeJoin ctx timers arrival.segment a)
    (aggregating : Aggregating ctx timers limits arrival a o) : Carries n ctx arrival o := by
  cases aggregating with
  | @handedBack status _ quiet timer =>
    have none : reported ctx arrival status = [] := by
      simp only [List.mem_cons, List.not_mem_nil, or_false] at quiet
      obtain rfl | rfl | rfl | rfl := quiet
      · rfl
      · rfl
      · exact notReported (by decide) (by decide)
      · exact notReported (by decide) (by decide)
    refine ⟨?_, ?_, fun some => (holding some).later⟩
    · rw [none]
      simp [Arrival.frame]
    · intro f member
      cases member
      exact arrival.whole
  | opened opens created stored fresh one kept next named =>
    obtain ⟨sound, empty, open', _⟩ := opens
    have apart : ¬ Joins ctx arrival.segment := fun joins => joins.2.1 empty
    have short := measured ⟨sound, by rwa [if_neg apart]⟩
    refine ⟨?_, by simp, fun _ => .opened number one kept fun _ => next.trans (arrival.segment.nextSeqComputed short)⟩
    rw [heldOne one kept, heldNone empty, notReported (by decide) (by decide)]
    simp
  | closing sound some apart closing =>
    exact closingCarries (holding some) number some
      (fun open' => measured ⟨sound, by rwa [if_neg apart]⟩) closing
  | closed joins closes running empty clear handle =>
    have good := holding joins.2.1
    refine ⟨?_, ?_, fun some => absurd empty some⟩
    · rw [heldNone empty]
      simpa [closedFrame] using joinedPlaces joins.2.1 (by simp)
    · intro f member
      cases member
      exact (closedCarries good number joins closes (safe joins)).1
  | @late ctx' joins closes expired count kept last flags handle =>
    have good := holding joins.2.1
    refine ⟨?_, by simp, fun _ => lateCarries good number joins closes (safe joins) expired kept last flags⟩
    have some : ctx'.segNum ≠ 0 := by
      rw [count]
      split
      next done =>
        refine countKept fun full => ?_
        have running := (((safe joins).1 done).2.2 full).2
        rw [expired] at running
        cases running
      · exact joins.2.1
    rw [heldSome some, kept]
    simpa [closedFrame] using joinedPlaces joins.2.1 (by simp)
  | added joins stays =>
    have short := measured ⟨joins.1, by rwa [if_pos joins]⟩
    exact addedCarries (holding joins.2.1) number joins stays short (safe joins)

theorem Good.ended (good : Good n ctx) (some : ctx.segNum ≠ 0) {checksum : List Byte → BitVec 16} :
    (endedFrame ctx checksum).Whole := by
  refine good.finished fun fields member => ?_
  split at member
  · cases member
  next several =>
    cases member
    refine good.last ?_
    bv_omega

end carries

structure Kept (s : System) : Prop where
  numbered : s.arrived.map Arrival.number = List.range s.arrived.length
  places : (held s.ctx ++ s.given.flatMap Frame.segs ++ s.discarded).Perm s.arrived
  whole : ∀ f ∈ s.given, f.Whole
  holding : Holding s.arrived.length s.ctx

theorem givenOnce {given : List Frame} (apart : (given.flatMap Frame.segs).Nodup) (whole : ∀ f ∈ given, f.Whole) :
    given.Nodup := by
  refine (List.nodup_flatMap.mp apart).2.imp_of_mem fun {f g} member _ disjoint same => ?_
  obtain ⟨b, inside⟩ := List.exists_mem_of_ne_nil _ (whole f member).segments
  exact disjoint inside (same ▸ inside)

namespace Kept
variable {s s' : System}

theorem lossless (kept : Kept s) : Lossless s where
  numbered := kept.numbered
  places := kept.places
  once := by
    have numbers : (s.arrived.map Arrival.number).Nodup := kept.numbered ▸ List.nodup_range
    have apart := kept.places.nodup_iff.mpr (List.Nodup.of_map _ numbers)
    exact givenOnce (List.nodup_append.mp (List.nodup_append.mp apart).1).2.1 kept.whole
  whole := kept.whole

theorem zeroed : Kept zeroed where
  numbered := rfl
  places := List.Perm.nil
  whole := fun _ member => absurd member List.not_mem_nil
  holding := fun some => absurd rfl some

theorem wholeGiven (kept : Kept s) {out : Option Frame} (whole : ∀ f ∈ out, f.Whole) :
    ∀ f ∈ s.given ++ out.toList, f.Whole := by
  intro f member
  obtain before | now := List.mem_append.mp member
  · exact kept.whole f before
  · exact whole f (Option.mem_toList.mp now)

theorem aggregate {limits : Limits} {flags : BitVec 32} {segment : Segment} {a : Answers} (kept : Kept s)
    (keeps : KeepsData s (.aggregate limits flags segment a))
    (done : step s (.aggregate limits flags segment a) = some s') : Kept s' := by
  obtain ⟨o, called, rfl⟩ := Option.map_eq_some_iff.mp done
  have carries := aggregateCarries kept.holding rfl keeps.1 keeps.2 (aggregateCases called)
  refine ⟨?_, ?_, kept.wholeGiven carries.whole, ?_⟩
  · rw [List.map_append, List.length_append, kept.numbered, List.length_singleton, List.range_succ]
    rfl
  · have places := (kept.places.append_right [⟨s.arrived.length, segment⟩])
    refine List.Perm.trans ?_ places
    have moved := (carries.places.append_right (s.given.flatMap Frame.segs ++ s.discarded))
    rw [List.flatMap_append]
    refine List.Perm.trans ?_ (moved.trans ?_)
    · simp only [List.append_assoc]
      refine List.Perm.append_left _ ?_
      grind
    · simp only [List.append_assoc]
      refine List.Perm.append_left _ ?_
      exact List.perm_append_comm.trans (by simp)
  · rw [List.length_append]
    exact carries.good

theorem release (kept : Kept s) {ctx : GroContext} {out : Option Frame} (same : s'.arrived = s.arrived)
    (fixed : s'.discarded = s.discarded) (now : s'.ctx = ctx) (more : s'.given = s.given ++ out.toList)
    (places : (held ctx ++ out.toList.flatMap Frame.segs).Perm (held s.ctx)) (whole : ∀ f ∈ out, f.Whole)
    (holding : Holding s.arrived.length ctx) : Kept s' := by
  refine ⟨same ▸ kept.numbered, ?_, more ▸ kept.wholeGiven whole, same ▸ now ▸ holding⟩
  rw [now, more, fixed, same, List.flatMap_append]
  refine List.Perm.trans ?_ kept.places
  refine List.Perm.append_right _ ?_
  refine List.Perm.trans ?_ (places.append_right (s.given.flatMap Frame.segs))
  rw [List.append_assoc]
  exact List.Perm.append_left _ List.perm_append_comm

theorem flush {checksum : List Byte → BitVec 16} (kept : Kept s) (done : step s (.flush checksum) = some s') : Kept s' := by
  obtain ⟨o, called, rfl⟩ := Option.map_eq_some_iff.mp done
  cases flushCases called with
  | nothing empty => exact kept.release rfl rfl rfl rfl (by simp) (by simp) kept.holding
  | late some expired =>
    refine kept.release rfl rfl rfl rfl ?_ (by simp) fun _ => ?_
    · simp [held]
    · have good := kept.holding some
      have late : groAggTimerInProcess &&& (groAggTimerInProcess ||| groFlushAggSet) ≠ 0 := by decide
      exact { good with expects := fun clear => absurd clear late }
  | out some frame timer =>
    have good := kept.holding some
    refine kept.release rfl rfl rfl rfl ?_ ?_ fun nonzero => absurd rfl nonzero
    · rw [heldNone rfl, heldSome some]
      obtain rfl | rfl := frame
      · simp
      · simp [endedFrame, finishFrame]
    · intro f member
      cases member
      obtain rfl | rfl := frame
      · exact good.whole
      · exact good.ended some

theorem timeout {handle : BitVec 32} {checksum : List Byte → BitVec 16} (kept : Kept s)
    (done : step s (.timeout handle checksum) = some s') : Kept s' := by
  simp only [step] at done
  split at done
  · cases done
    obtain ⟨result, _⟩ | ⟨result, _, some⟩ := @callbackCases s.ctx
      { s.timers with tasks := s.timers.tasks.erase handle } checksum handle
    · rw [result]
      exact kept.release rfl rfl rfl rfl (by simp) (by simp) kept.holding
    · rw [result]
      have good := kept.holding some
      refine kept.release rfl rfl rfl rfl ?_ ?_ fun nonzero => absurd rfl nonzero
      · rw [heldNone rfl, heldSome some]
        simp [endedFrame, finishFrame]
      · intro f member
        cases member
        exact good.ended some
  · cases done

theorem step {e : Event} (kept : Kept s) (keeps : KeepsData s e) (done : step s e = some s') : Kept s' := by
  cases e with
  | aggregate limits flags segment a => exact kept.aggregate keeps done
  | flush checksum => exact kept.flush done
  | expire handle =>
    simp only [TcpAggregation.step] at done
    split at done
    · cases done
      exact ⟨kept.numbered, kept.places, kept.whole, kept.holding⟩
    · cases done
  | timeout handle checksum => exact kept.timeout done

end Kept

theorem segmentsKept {es : List Event} {s : System} (keeps : Along KeepsData zeroed es) (played : play zeroed es = some s) :
    Lossless s :=
  (playInvariant (fun _ _ _ kept keeps done => kept.step keeps done) Kept.zeroed keeps played).lossless

def exampleBytes (sequence flags data : Byte) : List Byte :=
  List.replicate 27 0 ++ [sequence, 0, 0, 0, 0, 0x50, flags] ++ List.replicate 6 0 ++ [data]

theorem exampleOffset (sequence flags data : Byte) : dataOffset (exampleBytes sequence flags data) 20 = 20 := by
  have byte : byteAt (exampleBytes sequence flags data) 32 = 0x50 := rfl
  rw [dataOffset, byte]
  decide

def exampleSegment (sequence flags data : Byte) : Segment where
  bytes := exampleBytes sequence flags data
  pr := ⟨0, 20, true⟩
  error := false
  ipHeader := Nat.le_refl 20
  tcpHeader := Nat.le_of_eq (exampleOffset sequence flags data).symm
  complete := by
    rw [show (⟨0, 20, true⟩ : ParseResult).l4Offset.toNat = 20 from rfl, exampleOffset]
    exact Nat.le_add_right 40 1

def exampleAnswers (created : Option (BitVec 32)) : Answers := ⟨created, true, true, [], 0, fun _ => 0⟩

def exampleAggregate (sequence flags data : Byte) (created : Option (BitVec 32)) : Event :=
  .aggregate ⟨1000, 10⟩ 0 (exampleSegment sequence flags data) (exampleAnswers created)

def exampleEvents : List Event :=
  [exampleAggregate 100 0 1 (some 1), exampleAggregate 101 0 2 none, exampleAggregate 150 0 3 (some 2), .expire 2,
    .timeout 2 fun _ => 0]

theorem segmentsKeptExample : ∃ s, play zeroed exampleEvents = some s ∧ s.given.length = 2 ∧ Lossless s := by
  have two : (play zeroed exampleEvents).map (fun s => s.given.length) = some 2 := by decide
  obtain ⟨s, played, length⟩ := Option.map_eq_some_iff.mp two
  have keeps : Along KeepsData zeroed exampleEvents :=
    @of_decide_eq_true _ (decideAlong (fun _ _ => inferInstance) zeroed exampleEvents) (by decide)
  exact ⟨s, played, length, segmentsKept keeps played⟩

def overlappingEvents : List Event :=
  [exampleAggregate 100 0 1 (some 1), .expire 1, exampleAggregate 101 8 2 none, exampleAggregate 101 0 2 none,
    .timeout 1 fun _ => 0]

theorem segmentTwice : ∃ s, play zeroed overlappingEvents = some s ∧
    s.given.map Frame.payload = [[1, 2, 2]] ∧ ¬ Lossless s := by
  have payloads : (play zeroed overlappingEvents).map (fun s => s.given.map Frame.payload) = some [[1, 2, 2]] :=
    by decide
  have broken : (play zeroed overlappingEvents).map (fun s => s.given.all fun f => decide (f.segs.IsChain Follows)) =
      some false := by decide
  obtain ⟨s, played, given⟩ := Option.map_eq_some_iff.mp payloads
  refine ⟨s, played, given, fun lossless => ?_⟩
  rw [played] at broken
  have chained : (s.given.all fun f => decide (f.segs.IsChain Follows)) = true :=
    List.all_eq_true.mpr fun f member => decide_eq_true (lossless.whole f member).inOrder
  rw [Option.map_some, chained] at broken
  cases broken

end Flexbuild.TcpAggregation
