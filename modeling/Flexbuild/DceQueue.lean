import Mathlib.Data.List.Forall2
import Flexbuild.Placements
import Flexbuild.DceSteps

/-! The fifo of a session as lists of jobs, oldest first: those returned to the caller, those
whose callback has run, those the DCE has answered, those it has been given, and those that
have a unit but have not been given to it. -/
namespace Flexbuild.Dce
open Placements

structure Job where
  op : Op
  recycle : Bool
  status : Status
  outputLength : Nat
  deriving DecidableEq, Repr

def Job.new (op : Op) (recycle : Bool) : Job := ⟨op, recycle, .fullyProcessed, op.outputFd.length⟩

def Job.replied (status : Status) (outputLength : Nat) (j : Job) : Job :=
  { j with status := status, outputLength := outputLength }

def Job.verdict (j : Job) : Bool × Status := (j.recycle, j.status)

def Job.outputFd (j : Job) : Frame := { j.op.outputFd with length := j.outputLength }

structure Job.In (w : WorkUnit) (j : Job) : Prop where
  inputFd : w.inputFd = j.op.inputFd
  outputFd : w.outputFd = j.outputFd
  outputLength : w.outputLength = j.op.outputFd.length
  context : w.context = j.op.userContext
  recycle : w.fdList.recycle = j.recycle

structure Job.Called (w : WorkUnit) (j : Job) : Prop where
  inside : j.In w
  status : w.fdList.status = j.status

structure Job.Answer (fd : FdList) (j : Job) : Prop where
  recycle : fd.recycle = j.recycle
  status : fd.status = j.status

structure Job.Returned (j : Job) (r : Rx) : Prop where
  inputFd : r.inputFd = j.op.inputFd
  context : r.userContext = j.op.userContext
  status : r.status = j.status
  outputFd : r.outputFd = if j.status.outcome = .skipped ∨ j.status.outcome = .terminal
    then j.op.outputFd else j.outputFd

structure Queue where
  past : List Job
  called : List Job
  waiting : List Job
  out : List Job
  pending : List Job
  deriving DecidableEq, Repr

def Queue.answered (q : Queue) : Nat := q.called.length + q.waiting.length

def Queue.given (q : Queue) : Nat := q.answered + q.out.length

section Places

variable {f g : Fifo} {unit : Nat → WorkUnit} {w : WorkUnit} {P : WorkUnit → Job → Prop}
  {start p : Nat} {jobs : List Job}

theorem headSeekSame (same : g.freer = f.freer) : g.headSeek = f.headSeek := by
  funext i
  unfold Fifo.headSeek
  rw [same]

theorem placedOther (hp : p < numBufs) (fits : start + jobs.length ≤ numBufs)
    (apart : p < start ∨ start + jobs.length ≤ p) (placed : Placed P unit f.headSeek start jobs) :
    Placed P (Function.update unit (f.headSeek p) w) f.headSeek start jobs := by
  refine placedKeep ?_ placed
  intro i j low high holds
  have different : f.headSeek i ≠ f.headSeek p := by
    intro same
    have := headSeekInjective (by omega) hp same
    omega
  rw [Function.update_of_ne different]
  exact holds

theorem placedSame (u : Nat) (keep : ∀ j, P (unit u) j → P w j)
    (placed : Placed P unit f.headSeek start jobs) :
    Placed P (Function.update unit u w) f.headSeek start jobs := by
  refine placedKeep ?_ placed
  intro i j _ _ holds
  by_cases same : f.headSeek i = u
  · rw [same, Function.update_self]
    exact keep j (same ▸ holds)
  · rw [Function.update_of_ne same]
    exact holds

theorem inBecome {j : Job} (state : UnitState) (holds : j.In w) : j.In (w.become state) :=
  ⟨holds.inputFd, holds.outputFd, holds.outputLength, holds.context, holds.recycle⟩

end Places

section Queues

variable {κ : Type} {s s' : Session κ} {q : Queue} {u : Nat} {w : WorkUnit} {op : Op} {j : Job}
  {rest : List Job}

def unitOf (n : Nat) : Nat := (n + 1) % numBufs

structure Queued (s : Session κ) (q : Queue) : Prop where
  fifo : s.fifo.Valid
  origin : s.fifo.head = unitOf q.past.length
  count : q.given + q.pending.length = s.fifo.numAlloc
  called : Placed Job.Called s.unit s.fifo.headSeek 0 q.called
  waiting : Placed Job.In s.unit s.fifo.headSeek q.called.length q.waiting
  out : Placed Job.In s.unit s.fifo.headSeek q.answered q.out
  pending : Placed Job.In s.unit s.fifo.headSeek q.given q.pending
  sent : s.sent = slots s.fifo.headSeek q.answered q.out.length
  answers : s.answers.map Prod.fst = slots s.fifo.headSeek q.called.length q.waiting.length
  frames : List.Forall₂ Job.Answer (s.answers.map Prod.snd) q.waiting
  accepted : s.accepted = (q.past ++ q.called ++ q.waiting ++ q.out).map Job.op
  verdicts : s.verdicts = (q.past ++ q.called ++ q.waiting).map Job.verdict
  callbacks : s.callbacks = q.past.length + q.called.length
  returned : List.Forall₂ Job.Returned q.past s.returned
  done : ∀ i, i < numBufs → (s.unit (s.fifo.headSeek i)).state = .done → i < q.called.length

structure SameQueue (s s' : Session κ) : Prop where
  fifo : s'.fifo = s.fifo
  unit : s'.unit = s.unit
  sent : s'.sent = s.sent
  answers : s'.answers = s.answers
  accepted : s'.accepted = s.accepted
  verdicts : s'.verdicts = s.verdicts
  callbacks : s'.callbacks = s.callbacks
  returned : s'.returned = s.returned

theorem queuedSame (same : SameQueue s s') (ok : Queued s q) : Queued s' q := by
  obtain ⟨fifo, unit, sent, answers, accepted, verdicts, callbacks, returned⟩ := same
  constructor
  · rw [fifo]; exact ok.fifo
  · rw [fifo]; exact ok.origin
  · rw [fifo]; exact ok.count
  · rw [fifo, unit]; exact ok.called
  · rw [fifo, unit]; exact ok.waiting
  · rw [fifo, unit]; exact ok.out
  · rw [fifo, unit]; exact ok.pending
  · rw [fifo, sent]; exact ok.sent
  · rw [fifo, answers]; exact ok.answers
  · rw [answers]; exact ok.frames
  · rw [accepted]; exact ok.accepted
  · rw [verdicts]; exact ok.verdicts
  · rw [callbacks]; exact ok.callbacks
  · rw [returned]; exact ok.returned
  · rw [fifo, unit]; exact ok.done

def Queue.empty : Queue := ⟨[], [], [], [], []⟩

theorem createQueued (paradigm : Paradigm) :
    Queued (Session.create paradigm : Session κ) Queue.empty := by
  refine ⟨startValid, rfl, rfl, trivial, trivial, trivial, trivial, rfl, rfl, .nil, rfl, rfl, rfl, .nil, ?_⟩
  intro i _ done
  cases done

theorem queuedFits (ok : Queued s q) : q.given + q.pending.length ≤ numBufs := by
  rw [ok.count]
  exact ok.fifo.fits

theorem queuedBecome (u : Nat) {state : UnitState} (other : state ≠ .done) (ok : Queued s q) :
    Queued (s.setUnit u ((s.unit u).become state)) q := by
  have keep : ∀ j, Job.In (s.unit u) j → Job.In ((s.unit u).become state) j :=
    fun j holds => inBecome state holds
  refine ⟨ok.fifo, ok.origin, ok.count, placedSame u ?_ ok.called, placedSame u keep ok.waiting,
    placedSame u keep ok.out, placedSame u keep ok.pending, ok.sent, ok.answers, ok.frames,
    ok.accepted, ok.verdicts, ok.callbacks, ok.returned, ?_⟩
  · intro j holds
    exact ⟨inBecome state holds.inside, holds.status⟩
  · intro i lt done
    refine ok.done i lt ?_
    by_cases same : s.fifo.headSeek i = u
    · simp only [Session.setUnit, same, Function.update_self, WorkUnit.become] at done
      exact absurd done other
    · simp only [Session.setUnit, Function.update_of_ne same] at done
      exact done

theorem queuedFill {fifo : Fifo} {initial streamEnd : Bool} {flush : Flush}
    (alloc : s.fifo.alloc = some (u, fifo)) (ok : Queued s q) :
    Queued (s.fill u (op.workUnit s.recycle initial flush) fifo streamEnd)
      { q with pending := q.pending ++ [Job.new op s.recycle] } := by
  obtain ⟨valid, slot, room, freer, numAlloc⟩ := allocGrown ok.fifo alloc
  have seek : fifo.headSeek = s.fifo.headSeek := headSeekSame freer
  have fits := queuedFits ok
  have last : s.fifo.numAlloc = q.given + q.pending.length := ok.count.symm
  have given : q.given = q.called.length + q.waiting.length + q.out.length := rfl
  have answered : q.answered = q.called.length + q.waiting.length := rfl
  generalize unit : op.workUnit s.recycle initial flush = w
  have called := placedOther (w := w) room (by omega) (.inr (by omega)) ok.called
  have waiting := placedOther (w := w) room (by omega) (.inr (by omega)) ok.waiting
  have out := placedOther (w := w) room (by omega) (.inr (by omega)) ok.out
  have pending := placedOther (w := w) room (by omega) (.inr (by omega)) ok.pending
  have sent := ok.sent
  have answers := ok.answers
  have done := ok.done
  rw [← slot, ← seek] at called waiting out pending
  rw [← seek] at sent answers done
  have origin : fifo.head = unitOf q.past.length := (congrFun seek 0).trans ok.origin
  refine ⟨valid, origin, ?_, called, waiting, out, ?_, sent, answers, ok.frames, ok.accepted, ok.verdicts,
    ok.callbacks, ok.returned, ?_⟩
  · show q.given + (q.pending ++ [Job.new op s.recycle]).length = fifo.numAlloc
    rw [List.length_append, numAlloc, last]
    rfl
  · refine placedConcat.mpr ⟨pending, ?_⟩
    show Job.In (Function.update s.unit u w (fifo.headSeek (q.given + q.pending.length))) _
    rw [seek, ← last, ← slot, Function.update_self, ← unit]
    exact ⟨rfl, rfl, rfl, rfl, rfl⟩
  · intro i lt isDone
    by_cases same : fifo.headSeek i = u
    · simp only [Session.fill, Session.setUnit, same, Function.update_self, ← unit] at isDone
      cases isDone
    · simp only [Session.fill, Session.setUnit, Function.update_of_ne same] at isDone
      exact done i lt isDone

theorem queuedSubmit (only : q.pending = [j]) (ok : Queued s q) :
    Queued (s.submit j.op (s.fifo.headSeek q.given)) { q with out := q.out ++ [j], pending := [] } := by
  have count := ok.count
  have pending := ok.pending
  rw [only] at count pending
  refine ⟨ok.fifo, ok.origin, ?_, ok.called, ok.waiting, ?_, trivial, ?_, ok.answers, ok.frames, ?_, ok.verdicts,
    ok.callbacks, ok.returned, ok.done⟩
  · show q.answered + (q.out ++ [j]).length + 0 = s.fifo.numAlloc
    rw [List.length_append, ← count]
    rfl
  · exact placedConcat.mpr ⟨ok.out, pending.1⟩
  · show s.sent ++ [s.fifo.headSeek q.given] = slots s.fifo.headSeek q.answered (q.out ++ [j]).length
    rw [List.length_append, List.length_singleton, slotsConcat, ok.sent]
    rfl
  · show s.accepted ++ [j.op] = _
    rw [ok.accepted]
    simp

theorem queuedUndo (only : q.pending = [j]) (ok : Queued s q) :
    Queued s.undo { q with pending := [] } := by
  have count := ok.count
  rw [only, List.length_singleton] at count
  obtain ⟨valid, less⟩ := undoShrinks ok.fifo (by omega)
  refine ⟨valid, ok.origin, ?_, ok.called, ok.waiting, ok.out, trivial, ok.sent, ok.answers, ok.frames,
    ok.accepted, ok.verdicts, ok.callbacks, ok.returned, ok.done⟩
  show q.given + 0 = s.fifo.allocUndo.numAlloc
  omega

theorem queuedAnswered (status : Status) (outputLength bytesProcessed : Nat) {left : List Nat}
    (first : s.sent = u :: left) (ok : Queued s q) :
    ∃ j rest, q.out = j :: rest ∧ (s.unit u).fdList.recycle = j.recycle ∧
      Queued (s.answered status outputLength bytesProcessed u left)
        { q with waiting := q.waiting ++ [j.replied status outputLength], out := rest } := by
  have sent := ok.sent
  have out := ok.out
  have fits := queuedFits ok
  have given : q.given = q.called.length + q.waiting.length + q.out.length := rfl
  have answered : q.answered = q.called.length + q.waiting.length := rfl
  have count := ok.count
  have accepted := ok.accepted
  cases shape : q.out with
  | nil =>
    rw [first, shape] at sent
    cases sent
  | cons j rest =>
    rw [shape, List.length_cons] at given
    rw [shape] at out accepted
    rw [first, shape, List.length_cons, slotsCons] at sent
    obtain ⟨slot, sentLater⟩ := List.cons.inj sent
    subst slot
    have holds := out.1
    generalize unit : (s.unit (s.fifo.headSeek q.answered)).written outputLength bytesProcessed = w
    have called := placedOther (w := w) (by omega : q.answered < numBufs) (by omega) (.inr (by omega))
      ok.called
    have waiting := placedOther (w := w) (by omega : q.answered < numBufs) (by omega)
      (.inr (by omega)) ok.waiting
    have later := placedOther (w := w) (by omega : q.answered < numBufs) (by omega) (.inl (by omega))
      out.2
    have pending := placedOther (w := w) (by omega : q.answered < numBufs) (by omega)
      (.inl (by omega)) ok.pending
    have more : q.called.length + (q.waiting ++ [j.replied status outputLength]).length =
        q.answered + 1 := by
      rw [List.length_append, List.length_singleton]
      omega
    have same : q.answered + 1 + rest.length = q.given := by omega
    rw [← more] at later sentLater
    rw [← same, ← more] at pending count
    refine ⟨j, rest, rfl, holds.recycle, ok.fifo, ok.origin, count, ?_, ?_, ?_, ?_, sentLater, ?_, ?_, ?_, ?_,
      ok.callbacks, ok.returned, ?_⟩
    · simp only [Session.answered, unit]
      exact called
    · simp only [Session.answered, unit]
      refine placedConcat.mpr ⟨waiting, ?_⟩
      show Job.In (Function.update s.unit (s.fifo.headSeek q.answered) w (s.fifo.headSeek q.answered)) _
      rw [Function.update_self, ← unit]
      refine ⟨holds.inputFd, ?_, holds.outputLength, holds.context, holds.recycle⟩
      simp only [WorkUnit.written, holds.outputFd]
      rfl
    · simp only [Session.answered, unit]
      exact later
    · simp only [Session.answered, unit]
      exact pending
    · show (s.answers ++ [(_, _)]).map Prod.fst = slots s.fifo.headSeek _ (q.waiting ++ [_]).length
      rw [List.length_append, List.length_singleton, slotsConcat, List.map_append, ok.answers]
      rfl
    · show List.Forall₂ _ ((s.answers ++ [(_, _)]).map Prod.snd) (q.waiting ++ [_])
      rw [List.map_append]
      exact List.rel_append ok.frames (.cons ⟨holds.recycle, rfl⟩ .nil)
    · show s.accepted = _
      rw [accepted]
      simp [Job.replied]
    · show s.verdicts ++ [_] = _
      rw [ok.verdicts, holds.recycle]
      simp [Job.verdict, Job.replied]
    · intro i lt done
      refine ok.done i lt ?_
      by_cases same : s.fifo.headSeek i = s.fifo.headSeek q.answered
      · simp only [Session.answered, Session.setUnit, same, Function.update_self] at done
        rw [same]
        exact done
      · simp only [Session.answered, Session.setUnit, Function.update_of_ne same] at done
        exact done

theorem queuedCalledBack {fd : FdList} {left : List (Nat × FdList)}
    (first : s.answers = (u, fd) :: left) (ok : Queued s q) :
    ∃ j rest, q.waiting = j :: rest ∧ u = s.fifo.headSeek q.called.length ∧
      Queued (s.calledBack u fd left) { q with called := q.called ++ [j], waiting := rest } := by
  have slotsEq := ok.answers
  have frames := ok.frames
  have waiting := ok.waiting
  have fits := queuedFits ok
  have given : q.given = q.answered + q.out.length := rfl
  have answered : q.answered = q.called.length + q.waiting.length := rfl
  rw [first] at slotsEq frames
  cases shape : q.waiting with
  | nil =>
    rw [shape] at slotsEq
    cases slotsEq
  | cons j rest =>
    rw [shape, List.length_cons] at answered
    rw [shape] at waiting frames
    rw [shape, List.length_cons, slotsCons] at slotsEq
    obtain ⟨slot, answers⟩ := List.cons.inj slotsEq
    obtain ⟨answer, framesLater⟩ := List.forall₂_cons.mp frames
    change u = _ at slot
    have holds := waiting.1
    rw [← slot] at holds
    have position : q.called.length < numBufs := by omega
    generalize unit : (s.unit u).completed fd = w
    have called := placedOther (w := w) position (by omega) (.inr (by omega)) ok.called
    have later := placedOther (w := w) position (by omega) (.inl (by omega)) waiting.2
    have out := placedOther (w := w) position (by omega) (.inl (by omega)) ok.out
    have pending := placedOther (w := w) position (by omega) (.inl (by omega)) ok.pending
    have more : (q.called ++ [j]).length = q.called.length + 1 := List.length_append
    have same : (q.called ++ [j]).length + rest.length = q.answered := by omega
    have sent := ok.sent
    have count := ok.count
    rw [← slot] at called later out pending
    rw [← more] at later answers
    rw [given] at pending count
    rw [← same] at out pending sent count
    refine ⟨j, rest, rfl, slot, ok.fifo, ok.origin, count, ?_, ?_, ?_, ?_, sent, answers, framesLater, ?_, ?_,
      ?_, ok.returned, ?_⟩
    · simp only [Session.calledBack, unit]
      refine placedConcat.mpr ⟨called, ?_⟩
      rw [Nat.zero_add]
      show Job.Called (Function.update s.unit u w (s.fifo.headSeek q.called.length)) j
      rw [← slot, Function.update_self, ← unit]
      exact ⟨⟨holds.inputFd, holds.outputFd, holds.outputLength, holds.context, answer.recycle⟩,
        answer.status⟩
    · simp only [Session.calledBack, unit]
      exact later
    · simp only [Session.calledBack, unit]
      exact out
    · simp only [Session.calledBack, unit]
      exact pending
    · show s.accepted = _
      rw [ok.accepted, shape]
      simp
    · show s.verdicts = _
      rw [ok.verdicts, shape]
      simp
    · show s.callbacks + 1 = q.past.length + (q.called ++ [j]).length
      rw [ok.callbacks, more, Nat.add_assoc]
    · intro i lt done
      show i < (q.called ++ [j]).length
      rw [more]
      by_cases same : s.fifo.headSeek i = u
      · have := headSeekInjective lt position (same.trans slot)
        omega
      · simp only [Session.calledBack, Session.setUnit, Function.update_of_ne same] at done
        have := ok.done i lt done
        omega

structure Popped (s s' : Session κ) : Prop where
  fifo : s'.fifo = s.fifo.free
  unit : s'.unit = s.unit
  failed : s'.failed = s.failed

theorem queuedFinish {outputFd : Frame} {inputConsumed : Nat} (shape : q.called = j :: rest)
    (back : Job.Returned j
      ⟨w.inputFd, outputFd, w.fdList.status, w.fdList.flush, inputConsumed, w.context⟩)
    (free : (s.unit s.fifo.head).state ≠ .done) (ok : Queued s q) :
    Queued (s.finish w outputFd inputConsumed) { q with past := q.past ++ [j], called := rest } ∧
      Popped s (s.finish w outputFd inputConsumed) := by
  have count := ok.count
  have given : q.given = q.answered + q.out.length := rfl
  have answered : q.answered = q.called.length + q.waiting.length := rfl
  have fits := queuedFits ok
  rw [shape, List.length_cons] at answered
  have some_ : s.fifo.numAlloc ≠ 0 := by omega
  obtain ⟨valid, less⟩ := freeShrinks ok.fifo some_
  have shift := freeSeek s.fifo
  have called := ok.called
  have waiting := ok.waiting
  have answers := ok.answers
  rw [shape] at called waiting answers
  have out := ok.out
  have pending := ok.pending
  have sent := ok.sent
  have answeredEq : q.answered = rest.length + q.waiting.length + 1 := by omega
  rw [given] at pending
  rw [answeredEq] at out pending sent
  have givenEq : rest.length + q.waiting.length + 1 + q.out.length =
      rest.length + q.waiting.length + q.out.length + 1 := by omega
  rw [givenEq] at pending
  have nonempty : ¬ s.fifo.isEmpty = true := fun empty => some_ ((isEmptyIff ok.fifo).mp empty)
  unfold Session.finish
  rw [if_neg nonempty]
  refine ⟨⟨valid, ?_, ?_, placedShift shift called.2, placedShift shift waiting, placedShift shift out,
    placedShift shift pending, ?_, ?_, ok.frames, ?_, ?_, ?_, ?_, ?_⟩, ⟨rfl, rfl, rfl⟩⟩
  · have origin := ok.origin
    show s.fifo.free.headSeek 0 = unitOf (q.past ++ [j]).length
    rw [shift, List.length_append, List.length_singleton]
    simp only [Fifo.head, Fifo.headSeek, unitOf, numBufs] at origin ⊢
    omega
  · show rest.length + q.waiting.length + q.out.length + q.pending.length = s.fifo.free.numAlloc
    omega
  · show s.sent = slots s.fifo.free.headSeek (rest.length + q.waiting.length) q.out.length
    rw [slotsShift shift, sent]
  · show s.answers.map Prod.fst = slots s.fifo.free.headSeek rest.length q.waiting.length
    rw [slotsShift shift, answers]
    rfl
  · show s.accepted = _
    rw [ok.accepted, shape]
    simp
  · show s.verdicts = _
    rw [ok.verdicts, shape]
    simp
  · show s.callbacks = (q.past ++ [j]).length + rest.length
    rw [ok.callbacks, shape, List.length_append, List.length_cons, List.length_singleton]
    omega
  · show List.Forall₂ _ (q.past ++ [j]) (s.returned ++ [_])
    exact List.rel_append ok.returned (.cons back .nil)
  · intro i lt done
    change (s.unit (s.fifo.free.headSeek i)).state = .done at done
    rw [shift] at done
    rcases Nat.lt_or_ge (i + 1) numBufs with inside | last
    · have := ok.done (i + 1) inside done
      rw [shape, List.length_cons] at this
      show i < rest.length
      omega
    · have wrapped : s.fifo.headSeek (i + 1) = s.fifo.head := by
        have eq : i + 1 = numBufs := by omega
        rw [eq]
        exact Nat.add_mod_right ..
      rw [wrapped] at done
      exact absurd done free

theorem queuedGiven (ok : Queued s q) :
    Placed Job.In s.unit s.fifo.headSeek 0 (q.called ++ q.waiting ++ q.out) := by
  have called := placedMono (fun _ _ (holds : Job.Called _ _) => holds.inside) ok.called
  refine placedAppend.mpr ⟨placedAppend.mpr ⟨called, ?_⟩, ?_⟩
  · simpa using ok.waiting
  · simpa [Queue.answered] using ok.out

theorem seekUnit (ok : Queued s q) (i : Nat) : s.fifo.headSeek i = unitOf (q.past.length + i) := by
  have origin := ok.origin
  simp only [Fifo.head, Fifo.headSeek, unitOf, numBufs] at origin ⊢
  omega

theorem queuedHead (shape : q.called = j :: rest) (ok : Queued s q) :
    j.Called (s.unit s.fifo.head) := by
  have called := ok.called
  rw [shape] at called
  exact called.1

theorem givenFree (f : Fifo) (shape : q.called = j :: rest) :
    f.free.headSeek ({ q with past := q.past ++ [j], called := rest } : Queue).given =
      f.headSeek q.given := by
  rw [freeSeek]
  congr 1
  simp only [Queue.given, Queue.answered, shape, List.length_cons]
  omega

theorem returnedJob {n : Nat} {r : Rx} (ok : Queued s q) (at_ : s.returned[n]? = some r) :
    ∃ j, q.past[n]? = some j ∧ j.Returned r := by
  obtain ⟨length, related⟩ := List.forall₂_iff_get.mp ok.returned
  obtain ⟨lt, eq⟩ := List.getElem?_eq_some_iff.mp at_
  have inside : n < q.past.length := by omega
  exact ⟨q.past.get ⟨n, inside⟩, List.getElem?_eq_getElem inside, eq ▸ related n inside lt⟩

theorem restoredEq (holds : j.In w) : w.restored = j.op.outputFd := by
  unfold WorkUnit.restored
  rw [holds.outputFd, holds.outputLength]
  rfl

theorem queuedSettle {paradigm : Paradigm} (shape : q.called = j :: rest)
    (free : (s.unit s.fifo.head).state ≠ .done)
    (eq : s.settle paradigm (s.unit s.fifo.head) = some s') (ok : Queued s q) :
    s' = s.fail .recycleTodo ∨
      Queued s' { q with past := q.past ++ [j], called := rest } ∧ Popped s s' := by
  have head := queuedHead shape ok
  have status := head.status
  have holds := head.inside
  generalize unit : s.unit s.fifo.head = w at eq head status holds
  have kept : w.fdList.status.outcome ≠ .skipped → w.fdList.status.outcome ≠ .terminal →
      ∀ n, Job.Returned j ⟨w.inputFd, w.outputFd, w.fdList.status, w.fdList.flush, n, w.context⟩ := by
    intro notSkipped notTerminal n
    refine ⟨holds.inputFd, holds.context, status, ?_⟩
    rw [← status, if_neg (not_or.mpr ⟨notSkipped, notTerminal⟩)]
    exact holds.outputFd
  have restored : w.fdList.status.outcome = .skipped ∨ w.fdList.status.outcome = .terminal →
      ∀ n, Job.Returned j ⟨w.inputFd, w.restored, w.fdList.status, w.fdList.flush, n, w.context⟩ := by
    intro untouched n
    refine ⟨holds.inputFd, holds.context, status, ?_⟩
    rw [← status, if_pos untouched]
    exact restoredEq holds
  unfold Session.settle at eq
  split at eq
  · rename_i outcome
    cases eq
    exact .inr (queuedFinish shape (kept (by simp [outcome]) (by simp [outcome]) _) free ok)
  · rename_i outcome
    split at eq <;> try contradiction
    cases eq
    have suspended : SameQueue s s.suspend := ⟨rfl, rfl, rfl, rfl, rfl, rfl, rfl, rfl⟩
    have same := queuedSame suspended ok
    obtain ⟨queued, popped⟩ := queuedFinish (s := s.suspend) shape
      (kept (by simp [outcome]) (by simp [outcome]) w.bytesProcessed) free same
    exact .inr ⟨queued, popped.fifo, popped.unit, popped.failed⟩
  · rename_i outcome
    split at eq
    · cases eq
      exact .inl rfl
    · cases eq
      exact .inr (queuedFinish shape (restored (.inl outcome) _) free ok)
  · rename_i outcome
    have abandoned : SameQueue s s.abandon ∧ s.abandon.failed = s.failed := by
      unfold Session.abandon
      split <;> exact ⟨⟨rfl, rfl, rfl, rfl, rfl, rfl, rfl, rfl⟩, rfl⟩
    cases eq
    split
    · have still : (s.abandon.unit s.abandon.fifo.head).state ≠ .done := by
        rw [abandoned.1.unit, abandoned.1.fifo]
        exact free
      obtain ⟨queued, popped⟩ := queuedFinish shape (restored (.inr outcome) 0) still
        (queuedSame abandoned.1 ok)
      exact .inr ⟨queued, popped.fifo.trans (by rw [abandoned.1.fifo]),
        popped.unit.trans abandoned.1.unit, popped.failed.trans abandoned.2⟩
    · exact .inr (queuedFinish shape (restored (.inr outcome) _) free ok)

def Stands (s : Session κ) (q : Queue) : Pc → Prop
  | .send op u | .recycling op u =>
      (∃ j, q.pending = [j] ∧ j.op = op) ∧ u = s.fifo.headSeek q.given
  | .posting _ ok => ok = false → ∃ j, q.pending = [j]
  | .undo => ∃ j, q.pending = [j]
  | .taken _ u => u = s.fifo.head ∧ q.called ≠ [] ∧ (s.unit u).state ≠ .done
  | _ => True

structure KeepsPending (s s' : Session κ) (q q' : Queue) : Prop where
  pending : q'.pending = q.pending
  seek : s'.fifo.headSeek q'.given = s.fifo.headSeek q.given

structure KeepsHead (s s' : Session κ) (q q' : Queue) : Prop where
  head : s'.fifo.head = s.fifo.head
  called : q.called ≠ [] → q'.called ≠ []
  done : ∀ u, u = s.fifo.head → q.called ≠ [] → (s'.unit u).state = .done → (s.unit u).state = .done

def Pc.unsent : Pc → Int
  | .send _ _ | .recycling _ _ | .undo => 1
  | .posting _ ok => if ok then 0 else 1
  | _ => 0

def Pc.takes : Pc → Bool
  | .taken _ _ => true
  | _ => false

theorem standsKeep {pc : Pc} (pending : pc.unsent ≠ 0 → KeepsPending s s' q q')
    (taken : pc.takes = true → KeepsHead s s' q q') (stands : Stands s q pc) : Stands s' q' pc := by
  cases pc with
  | send op u =>
    obtain ⟨same, seek⟩ := pending Int.one_ne_zero
    obtain ⟨⟨j, only, eq⟩, slot⟩ := stands
    exact ⟨⟨j, same.trans only, eq⟩, slot.trans seek.symm⟩
  | recycling op u =>
    obtain ⟨same, seek⟩ := pending Int.one_ne_zero
    obtain ⟨⟨j, only, eq⟩, slot⟩ := stands
    exact ⟨⟨j, same.trans only, eq⟩, slot.trans seek.symm⟩
  | posting u ok =>
    cases ok with
    | true => exact fun no => Bool.noConfusion no
    | false =>
      intro _
      obtain ⟨j, only⟩ := stands rfl
      exact ⟨j, (pending Int.one_ne_zero).pending.trans only⟩
  | undo =>
    obtain ⟨j, only⟩ := stands
    exact ⟨j, (pending Int.one_ne_zero).pending.trans only⟩
  | taken n u =>
    obtain ⟨head, called, free⟩ := stands
    have keeps := taken rfl
    exact ⟨head.trans keeps.head.symm, keeps.called called, fun done => free (keeps.done u head called done)⟩
  | _ => trivial

theorem answeredKeeps (status : Status) (outputLength bytesProcessed : Nat) (left : List Nat)
    (shape : q.out = j :: rest) :
    KeepsPending s (s.answered status outputLength bytesProcessed u left) q
        { q with waiting := q.waiting ++ [j.replied status outputLength], out := rest } ∧
      KeepsHead s (s.answered status outputLength bytesProcessed u left) q
        { q with waiting := q.waiting ++ [j.replied status outputLength], out := rest } := by
  refine ⟨⟨rfl, ?_⟩, ⟨rfl, id, ?_⟩⟩
  · show s.fifo.headSeek _ = s.fifo.headSeek _
    congr 1
    simp only [Queue.given, Queue.answered, shape, List.length_append, List.length_cons,
      List.length_nil]
    omega
  · intro v _ _ done
    by_cases same : v = u
    · subst same
      simp only [Session.answered, Session.setUnit, Function.update_self] at done
      exact done
    · simp only [Session.answered, Session.setUnit, Function.update_of_ne same] at done
      exact done

theorem calledBackKeeps (fd : FdList) (left : List (Nat × FdList)) (shape : q.waiting = j :: rest)
    (slot : u = s.fifo.headSeek q.called.length) (ok : Queued s q) :
    KeepsPending s (s.calledBack u fd left) q { q with called := q.called ++ [j], waiting := rest } ∧
      KeepsHead s (s.calledBack u fd left) q
        { q with called := q.called ++ [j], waiting := rest } := by
  refine ⟨⟨rfl, ?_⟩, ⟨rfl, fun _ => List.append_ne_nil_of_right_ne_nil _ (List.cons_ne_nil _ _), ?_⟩⟩
  · show s.fifo.headSeek _ = s.fifo.headSeek _
    congr 1
    simp only [Queue.given, Queue.answered, shape, List.length_append, List.length_cons,
      List.length_nil]
    omega
  · intro v head called done
    have fits := queuedFits ok
    have different : v ≠ u := by
      intro same
      rw [head, slot] at same
      have given : q.given = q.called.length + q.waiting.length + q.out.length := rfl
      rw [shape, List.length_cons] at given
      have zero := headSeekInjective (i := 0) (by decide) (by omega) same
      exact called (List.length_eq_zero_iff.mp zero.symm)
    simp only [Session.calledBack, Session.setUnit, Function.update_of_ne different] at done
    exact done

end Queues

end Flexbuild.Dce
