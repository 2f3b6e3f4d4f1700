import Flexbuild.GroSteps

/-! Runs of one flow: segments come, the caller flushes, timers expire and their tasks run, in any
order. A segment that came is held by the context, lies in a frame that was given out, or was
reported as discarded. -/
namespace Flexbuild.TcpAggregation
open ByteMemory (Byte)
open Fields

def held (ctx : GroContext) : List Arrival := if ctx.segNum = 0 then [] else ctx.aggFd.segs

def reported (ctx : GroContext) (arrival : Arrival) : GroStatus → List Arrival
  | .bits b =>
    if b = aggDiscarded then held ctx ++ [arrival]
    else if b &&& segDiscarded = segDiscarded then [arrival]
    else []
  | _ => []

def asksForFlush : GroStatus → Bool
  | .bits b => b &&& flushRequired ≠ 0
  | _ => false

structure System where
  ctx : GroContext
  timers : Timers
  arrived : List Arrival
  given : List Frame
  discarded : List Arrival
  owed : Bool
  confirmed : List (BitVec 32 × BitVec 32)

inductive Event where
  | aggregate (limits : Limits) (flags : BitVec 32) (segment : Segment) (answers : Answers)
  | flush (tcpChecksum : List Byte → BitVec 16)
  | expire (handle : BitVec 32)
  | timeout (handle : BitVec 32) (tcpChecksum : List Byte → BitVec 16)

def step (s : System) : Event → Option System
  | .aggregate limits flags segment answers =>
    let arrival : Arrival := ⟨s.arrived.length, segment⟩
    (tcpGroAggregateSeg s.ctx s.timers limits flags arrival answers).map fun o => { s with
      ctx := o.ctx
      timers := o.timers
      arrived := s.arrived ++ [arrival]
      given := s.given ++ o.frame.toList
      discarded := s.discarded ++ reported s.ctx arrival o.status
      owed := s.owed || asksForFlush o.status }
  | .flush tcpChecksum =>
    (tcpGroFlushAggregation s.ctx s.timers tcpChecksum).map fun o => { s with
      ctx := o.ctx, timers := o.timers, given := s.given ++ o.frame.toList, owed := false }
  | .expire handle =>
    if s.timers.state handle = .running then
      some { s with timers := { s.timers.set handle .expired with tasks := s.timers.tasks ++ [handle] } }
    else none
  | .timeout handle tcpChecksum =>
    if handle ∈ s.timers.tasks then
      let o := tcpGroTimeoutCallback s.ctx { s.timers with tasks := s.timers.tasks.erase handle } handle tcpChecksum
      some { s with
        ctx := o.ctx
        timers := o.timers
        given := s.given ++ o.frame.toList
        confirmed := s.confirmed ++ [(handle, s.ctx.timerHandle)] }
    else none

def play : System → List Event → Option System
  | s, [] => some s
  | s, e :: es => (step s e).bind (play · es)

def zeroedContext : GroContext where
  aggFd := ⟨[], ⟨0, 0, false⟩, []⟩
  segNum := 0
  lastSegFields := ⟨0, 0, 0, 0⟩
  timestamp := 0
  nextSeq := 0
  flags := 0
  timerHandle := 0
  internalFlags := 0
  limits := ⟨0, 0⟩

def zeroed : System := ⟨zeroedContext, ⟨fun _ => .free, []⟩, [], [], [], false, []⟩

def Along (meets : System → Event → Prop) : System → List Event → Prop
  | _, [] => True
  | s, e :: es => meets s e ∧ match step s e with
    | none => True
    | some s' => Along meets s' es

def decideAlong {meets : System → Event → Prop} (decided : ∀ s e, Decidable (meets s e)) :
    (s : System) → (es : List Event) → Decidable (Along meets s es)
  | _, [] => isTrue trivial
  | s, e :: es => by
    unfold Along
    cases step s e with
    | none => exact @instDecidableAnd _ _ (decided s e) (isTrue trivial)
    | some s' => exact @instDecidableAnd _ _ (decided s e) (decideAlong decided s' es)

theorem playInvariant {meets : System → Event → Prop} {inv : System → Prop}
    (stepKeeps : ∀ s e s', inv s → meets s e → step s e = some s' → inv s') {s s' : System} {es : List Event}
    (start : inv s) (along : Along meets s es) (played : play s es = some s') : inv s' := by
  induction es generalizing s with
  | nil =>
    cases played
    exact start
  | cons e es ih =>
    obtain ⟨mid, stepped, rest⟩ := Option.bind_eq_some_iff.mp played
    obtain ⟨now, later⟩ := along
    rw [stepped] at later
    exact ih (stepKeeps s e mid start now stepped) later rest

structure Lossless (s : System) : Prop where
  numbered : s.arrived.map Arrival.number = List.range s.arrived.length
  places : (held s.ctx ++ s.given.flatMap Frame.segs ++ s.discarded).Perm s.arrived
  once : s.given.Nodup
  whole : ∀ f ∈ s.given, f.Whole

def Measured (ctx : GroContext) (limits : Limits) (s : Segment) : Prop :=
  s.error = false ∧ if Joins ctx s then ¬ Closes ctx s else ¬ flushes limits s

instance (ctx : GroContext) (limits : Limits) (s : Segment) : Decidable (Measured ctx limits s) :=
  inferInstanceAs (Decidable (_ ∧ ite _ _ _))

def SafeJoin (ctx : GroContext) (timers : Timers) (s : Segment) (a : Answers) : Prop :=
  (a.concatenated = true → s.headersSize < 256#16 ∧
    (ctx.internalFlags &&& groAggTimerInProcess ≠ 0 → ctx.nextSeq = endOf ctx.aggFd.segs) ∧
    (ctx.segNum = 0xffff#16 → Closes ctx s ∧ timers.state ctx.timerHandle = .running)) ∧
  (a.concatenated = false → Closes ctx s ∨ a.stored = true →
    ctx.aggFd.bytes.length < 2 ^ 16 ∧ ctx.aggFd.bytes.length < (concatenateFrames ctx.aggFd s).length) ∧
  (a.concatenated = true ∨ Closes ctx s → s.dataOffset = dataOffset ctx.aggFd.bytes ctx.aggFd.pr.l4Offset.toNat) ∧
  (Closes ctx s → s.pr.l4Offset = ctx.aggFd.pr.l4Offset ∧
    (timers.state ctx.timerHandle = .expired → a.stored = true))

instance (ctx : GroContext) (timers : Timers) (s : Segment) (a : Answers) : Decidable (SafeJoin ctx timers s a) :=
  inferInstanceAs (Decidable (_ ∧ _ ∧ _ ∧ _))

def KeepsData (s : System) : Event → Prop
  | .aggregate limits _ segment a =>
    (Measured s.ctx limits segment → segment.bytes.length < 2 ^ 16) ∧
    (Joins s.ctx segment → SafeJoin s.ctx s.timers segment a)
  | _ => True

instance (s : System) : (e : Event) → Decidable (KeepsData s e)
  | .aggregate _ _ _ _ => inferInstanceAs (Decidable (_ ∧ _))
  | .flush _ => isTrue trivial
  | .expire _ => isTrue trivial
  | .timeout _ _ => isTrue trivial

structure Good (n : Nat) (ctx : GroContext) : Prop where
  whole : ctx.aggFd.Whole
  laid : Laid ctx.aggFd.pr ctx.aggFd.bytes
  earlier : ∀ b ∈ ctx.aggFd.segs, b.number < n
  last : 1 < ctx.segNum →
    ctx.lastSegFields.dataOffset = dataOffset ctx.aggFd.bytes ctx.aggFd.pr.l4Offset.toNat
  expects : ctx.internalFlags &&& (groAggTimerInProcess ||| groFlushAggSet) = 0 → ctx.nextSeq = endOf ctx.aggFd.segs

def Holding (n : Nat) (ctx : GroContext) : Prop := ctx.segNum ≠ 0 → Good n ctx

structure Carries (n : Nat) (ctx : GroContext) (arrival : Arrival) (o : Outcome) : Prop where
  places : (held o.ctx ++ (o.frame.toList.flatMap Frame.segs ++ reported ctx arrival o.status)).Perm
    (held ctx ++ [arrival])
  whole : ∀ f ∈ o.frame, f.Whole
  good : Holding (n + 1) o.ctx

section steps
variable {n : Nat} {ctx ctx' : GroContext} {timers : Timers} {limits : Limits} {arrival : Arrival} {a : Answers}

theorem heldNone (empty : ctx.segNum = 0) : held ctx = [] := if_pos empty

theorem heldSome (some : ctx.segNum ≠ 0) : held ctx = ctx.aggFd.segs := if_neg some

theorem heldOne (one : ctx'.segNum = 1) (kept : ctx'.aggFd = arrival.frame) : held ctx' = [arrival] := by
  rw [heldSome (by rw [one]; decide), kept]
  rfl

theorem notReported {b : BitVec 8} (kept : b ≠ aggDiscarded) (joined : b &&& segDiscarded ≠ segDiscarded) :
    reported ctx arrival (.bits b) = [] := by
  rw [reported, if_neg kept, if_neg joined]

theorem segReported {b : BitVec 8} (kept : b ≠ aggDiscarded) (gone : b &&& segDiscarded = segDiscarded) :
    reported ctx arrival (.bits b) = [arrival] := by
  rw [reported, if_neg kept, if_pos gone]

theorem Good.later (good : Good n ctx) : Good (n + 1) ctx :=
  { good with earlier := fun b member => Nat.lt_succ_of_lt (good.earlier b member) }

theorem Good.opened (number : arrival.number = n) (one : ctx'.segNum = 1) (kept : ctx'.aggFd = arrival.frame)
    (next : ctx'.internalFlags &&& (groAggTimerInProcess ||| groFlushAggSet) = 0 →
      ctx'.nextSeq = arrival.segment.nextSeq) : Good (n + 1) ctx' where
  whole := kept ▸ arrival.whole
  laid := kept ▸ arrival.segment.laid
  earlier := by
    rw [kept]
    intro b member
    cases List.mem_singleton.mp member
    omega
  last := fun several => absurd (one ▸ several) (by decide)
  expects := fun clear => by
    rw [next clear, kept]
    rfl

theorem Good.finished (good : Good n ctx) {checksum : List Byte → BitVec 16} {last : Option LastSegHeaderFields}
    (same : ∀ fields ∈ last, fields.dataOffset = dataOffset ctx.aggFd.bytes ctx.aggFd.pr.l4Offset.toNat) :
    (finishFrame ctx checksum last).Whole := by
  have complete : ctx.aggFd.pr.l4Offset.toNat + tcpHdrLength ≤ ctx.aggFd.bytes.length :=
    Nat.le_trans (Nat.add_le_add_left good.laid.tcpHeader _) good.laid.complete
  exact good.whole.edited good.laid (headersEdits good.laid.ipHeader complete same)

theorem Good.closingFrame (good : Good n ctx) {checksum : List Byte → BitVec 16} :
    (finishFrame ctx checksum (lastOfSeveral ctx)).Whole := by
  refine good.finished fun fields member => ?_
  unfold lastOfSeveral at member
  split at member
  next several =>
    cases member
    exact good.last several
  · cases member

theorem Good.expected (good : Good n ctx) (continues : Continues ctx arrival.segment)
    (reached : ctx.internalFlags &&& groAggTimerInProcess ≠ 0 → ctx.nextSeq = endOf ctx.aggFd.segs) :
    arrival.segment.sequenceNumber = endOf ctx.aggFd.segs := by
  obtain ⟨next, _, _, _, flush⟩ := continues
  rw [← next]
  by_cases late : ctx.internalFlags &&& groAggTimerInProcess = 0
  · apply good.expects
    rw [BitVec.and_or_distrib_left, late, flush]
    rfl
  · exact reached late

theorem joinedGood (good : Good n ctx) (number : arrival.number = n) (joins : Joins ctx arrival.segment)
    (safe : SafeJoin ctx timers arrival.segment a)
    (kept : a.concatenated = true ∨ Closes ctx arrival.segment ∨ a.stored = true) :
    (joinFrames ctx.aggFd arrival a).Whole ∧
      Laid ctx.aggFd.pr (joinFrames ctx.aggFd arrival a).bytes ∧
      dataOffset (joinFrames ctx.aggFd arrival a).bytes ctx.aggFd.pr.l4Offset.toNat =
        dataOffset ctx.aggFd.bytes ctx.aggFd.pr.l4Offset.toNat := by
  cases done : a.concatenated with
  | true =>
    obtain ⟨small, reached, _⟩ := safe.1 done
    have laid := joinedLaid good.laid small done
    exact ⟨joinedWhole good.whole good.laid small done (fun b member => number ▸ good.earlier b member)
      (good.expected joins.2.2.1 reached), laid.1, laid.2⟩
  | false =>
    have stays : Closes ctx arrival.segment ∨ a.stored = true := by simpa [done] using kept
    obtain ⟨short, grew⟩ := safe.2.1 done stays
    rw [splitBack done short grew]
    exact ⟨good.whole, good.laid, rfl⟩

theorem closedBytes : (closedFrame ctx arrival a).bytes =
    updateHeaders ctx.flags a.tcpChecksum arrival.segment.pr (some arrival.segment.lastSegFields)
      (joinFrames ctx.aggFd arrival a).bytes := rfl

theorem closedEdits (good : Good n ctx) (number : arrival.number = n) (joins : Joins ctx arrival.segment)
    (safe : SafeJoin ctx timers arrival.segment a) (closes : Closes ctx arrival.segment) :
    Edits ctx.aggFd.pr.l4Offset.toNat (joinFrames ctx.aggFd arrival a).bytes (closedFrame ctx arrival a).bytes := by
  obtain ⟨_, laid, offset⟩ := joinedGood good number joins safe (.inr (.inl closes))
  have place : arrival.segment.pr.l4Offset.toNat = ctx.aggFd.pr.l4Offset.toNat := by rw [(safe.2.2.2 closes).1]
  have complete : ctx.aggFd.pr.l4Offset.toNat + tcpHdrLength ≤ (joinFrames ctx.aggFd arrival a).bytes.length :=
    Nat.le_trans (Nat.add_le_add_left laid.tcpHeader _) laid.complete
  rw [← place] at complete offset ⊢
  rw [closedBytes]
  refine headersEdits arrival.segment.ipHeader complete fun fields member => ?_
  cases member
  rw [offset, place]
  exact safe.2.2.1 (.inr closes)

theorem closedPr : (closedFrame ctx arrival a).pr = ctx.aggFd.pr := by
  unfold closedFrame joinFrames
  split <;> rfl

theorem joinedPr : (joinFrames ctx.aggFd arrival a).pr = ctx.aggFd.pr := by
  unfold joinFrames
  split <;> rfl

theorem joinedSegs : (joinFrames ctx.aggFd arrival a).segs =
    if a.concatenated then ctx.aggFd.segs ++ [arrival] else ctx.aggFd.segs := by
  unfold joinFrames
  split <;> rfl

theorem joinedPlaces (some : ctx.segNum ≠ 0) {b : BitVec 8}
    (quiet : b ∈ [segAggDone, segAggTimerInProcess]) :
    ((joinFrames ctx.aggFd arrival a).segs ++ reported ctx arrival (.bits (b ||| discardBit a))).Perm
      (held ctx ++ [arrival]) := by
  rw [joinedSegs, heldSome some, discardBit]
  cases a.concatenated with
  | true =>
    have kept : reported ctx arrival (.bits (b ||| 0)) = [] := by
      obtain rfl | rfl : b = segAggDone ∨ b = segAggTimerInProcess := by simpa using quiet
      all_goals exact notReported (by decide) (by decide)
    rw [if_pos rfl, if_pos rfl, kept, List.append_nil]
  | false =>
    have gone : reported ctx arrival (.bits (b ||| segDiscarded)) = [arrival] := by
      obtain rfl | rfl : b = segAggDone ∨ b = segAggTimerInProcess := by simpa using quiet
      all_goals exact segReported (by decide) (by decide)
    rw [if_neg (by decide), if_neg (by decide), gone]

end steps
end Flexbuild.TcpAggregation
