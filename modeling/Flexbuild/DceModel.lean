import Mathlib

/-! A DCE session: the circular fifo of work units, the enqueue semaphore and the recycle
state, the threads of the application that call into it, the accelerator and the thread
that receives its answers. A step is what happens between two points at which another
thread can get in. -/
namespace Flexbuild.Dce

inductive Paradigm where
  | stateless | statefulRecycle
  deriving DecidableEq, Repr

-- All codes that end an operation for good are one case; the driver does not tell them apart.
inductive Status where
  | fullyProcessed | streamEnd
  | memberEndSuspend | zBlockSuspend | outputBlockedSuspend
  | acquireDataBufferDeniedSuspend | acquireTableBufferDeniedSuspend | ollReachedSuspend
  | skipped
  | terminal (code : Nat)
  deriving DecidableEq, Repr

inductive Outcome where
  | processed | suspended | skipped | terminal
  deriving DecidableEq, Repr

def Status.outcome : Status → Outcome
  | .fullyProcessed | .streamEnd => .processed
  | .outputBlockedSuspend | .memberEndSuspend | .acquireDataBufferDeniedSuspend
  | .acquireTableBufferDeniedSuspend | .zBlockSuspend | .ollReachedSuspend => .suspended
  | .skipped => .skipped
  | .terminal _ => .terminal

structure Frame where
  address : Nat
  length : Nat
  other : Nat
  deriving DecidableEq, Repr

inductive Flush where
  | noFlush | partialFlush | syncFlush | fullFlush | finish | block | trees
  deriving DecidableEq, Repr

structure Op where
  inputFd : Frame
  outputFd : Frame
  flush : Flush
  userContext : Nat
  deriving DecidableEq, Repr

structure Rx where
  inputFd : Frame
  outputFd : Frame
  status : Status
  flush : Flush
  inputConsumed : Nat
  userContext : Nat
  deriving DecidableEq, Repr

structure FdList where
  length : Nat
  recycle : Bool
  initial : Bool
  flush : Flush
  status : Status
  deriving DecidableEq, Repr

inductive UnitState where
  | free | todo | done
  deriving DecidableEq, Repr

structure WorkUnit where
  state : UnitState
  inputFd : Frame
  outputFd : Frame
  context : Nat
  bytesProcessed : Nat
  fdList : FdList
  outputLength : Nat
  deriving DecidableEq, Repr

def numBufs : Nat := 30000

structure Fifo where
  allocer : Nat
  freer : Nat
  deriving DecidableEq, Repr

def Fifo.isEmpty (f : Fifo) : Bool := decide (f.allocer = f.freer)

def Fifo.isFull (f : Fifo) : Bool :=
  decide (f.allocer % numBufs = f.freer % numBufs ∧ f.allocer ≠ f.freer)

def Fifo.alloc (f : Fifo) : Option (Nat × Fifo) :=
  if f.isFull then none
  else some (f.allocer % numBufs, { f with allocer := (f.allocer + 1) % (2 * numBufs) })

def Fifo.allocUndo (f : Fifo) : Fifo :=
  { f with allocer := if f.allocer ≠ 0 then f.allocer - 1 else numBufs * 2 - 1 }

def Fifo.free (f : Fifo) : Fifo := { f with freer := (f.freer + 1) % (2 * numBufs) }

def Fifo.head (f : Fifo) : Nat := f.freer % numBufs

def Fifo.headSeek (f : Fifo) (seek : Nat) : Nat := (f.freer + seek) % numBufs

def Fifo.numAlloc (f : Fifo) : Nat :=
  if f.freer ≤ f.allocer then f.allocer - f.freer else f.allocer + 2 * numBufs - f.freer

inductive Assert where
  | recycleTodo | gap | emptyFifo
  deriving DecidableEq, Repr

structure Session (κ : Type) where
  sem : Nat
  recycleTodo : Nat
  recycle : Bool
  recyclerAllowed : Bool
  streamEnd : Bool
  fifo : Fifo
  unit : Nat → WorkUnit
  lock : Option κ
  -- Frames the DCE has accepted and not answered, and answers on their way back.
  sent : List Nat
  answers : List (Nat × FdList)
  failed : Option Assert
  -- What was accepted, what the DCE made of it (the recycle bit beside the status), the callbacks,
  -- what was returned and how much of that was recycled or discarded.
  accepted : List Op
  verdicts : List (Bool × Status)
  callbacks : Nat
  returned : List Rx
  handled : Nat

inductive Pc where
  | idle
  | alloc (op : Op)
  | send (op : Op) (u : Nat)
  | posting (u : Nat) (ok : Bool)
  | tail (u : Nat)
  | undo
  | noSpace
  | tryLock (n u : Nat)
  | dequeuing (n u : Nat)
  | taken (n u : Nat)
  | recycling (op : Op) (u : Nat)
  | recycled (u : Nat)
  deriving DecidableEq, Repr

section Calls

variable {κ : Type}

def Session.setUnit (s : Session κ) (u : Nat) (w : WorkUnit) : Session κ :=
  { s with unit := Function.update s.unit u w }

def Session.fail (s : Session κ) (a : Assert) : Session κ := { s with failed := some a }

def Op.workUnit (op : Op) (recycle initial : Bool) (flush : Flush) : WorkUnit where
  state := .free
  inputFd := op.inputFd
  outputFd := op.outputFd
  context := op.userContext
  bytesProcessed := 0
  fdList := ⟨op.inputFd.length, recycle, initial, flush, .fullyProcessed⟩
  outputLength := op.outputFd.length

def Session.fill (u : Nat) (w : WorkUnit) (fifo : Fifo) (streamEnd : Bool) (s : Session κ) : Session κ :=
  { s.setUnit u w with fifo := fifo, recycle := false, streamEnd := streamEnd }

def Session.prepare (paradigm : Paradigm) (op : Op) (s : Session κ) : Option (Nat × Session κ) :=
  match s.fifo.alloc with
  | none => none
  | some (u, fifo) =>
      match paradigm with
      | .stateless => some (u, s.fill u (op.workUnit s.recycle false .noFlush) fifo s.streamEnd)
      | .statefulRecycle =>
          some (u, s.fill u (op.workUnit s.recycle s.streamEnd op.flush) fifo
            (decide (op.flush = .finish)))

def Session.submit (op : Op) (u : Nat) (s : Session κ) : Session κ :=
  { s with sent := s.sent ++ [u], accepted := s.accepted ++ [op] }

def Session.post (paradigm : Paradigm) (s : Session κ) : Session κ :=
  if paradigm = .statefulRecycle then { s with sem := s.sem + 1 } else s

def WorkUnit.become (w : WorkUnit) (state : UnitState) : WorkUnit := { w with state := state }

def Session.markTodo (u : Nat) (s : Session κ) : Session κ := s.setUnit u ((s.unit u).become .todo)

def Session.markFree (u : Nat) (s : Session κ) : Session κ := s.setUnit u ((s.unit u).become .free)

def Session.acquire (s : Session κ) : Session κ := { s with sem := s.sem - 1 }

def Session.undo (s : Session κ) : Session κ := { s with fifo := s.fifo.allocUndo }

def Session.lockFor (k : κ) (s : Session κ) : Session κ := { s with lock := some k }

def Session.release (s : Session κ) : Session κ := { s with lock := none }

def Session.handledOne (s : Session κ) : Session κ :=
  { s with
    recycleTodo := s.recycleTodo - 1
    recyclerAllowed := decide (s.recycleTodo - 1 ≠ 0)
    sem := if s.recycleTodo - 1 = 0 then s.sem + 1 else s.sem
    handled := s.handled + 1 }

def Session.take (u : Nat) (s : Session κ) : Session κ :=
  if 2 < s.fifo.numAlloc ∧ ((s.markFree u).unit (s.fifo.headSeek 1)).state = .free then
    (s.markFree u).fail .gap
  else s.markFree u

def Session.finish (w : WorkUnit) (outputFd : Frame) (inputConsumed : Nat) (s : Session κ) : Session κ :=
  if s.fifo.isEmpty then s.fail .emptyFifo
  else
    { s with
      fifo := s.fifo.free
      returned := s.returned ++
        [⟨w.inputFd, outputFd, w.fdList.status, w.fdList.flush, inputConsumed, w.context⟩] }

def Session.suspend (s : Session κ) : Session κ :=
  { s with
    sem := if s.recycleTodo = 0 then s.sem - 1 else s.sem
    recyclerAllowed := false
    recycleTodo := (s.recycleTodo + s.fifo.numAlloc) % 2 ^ 32 }

def Session.abandon (s : Session κ) : Session κ :=
  if s.recycleTodo ≠ 0 then { s with recycleTodo := 0, recyclerAllowed := false, sem := s.sem + 1 }
  else s

def WorkUnit.restored (w : WorkUnit) : Frame := { w.outputFd with length := w.outputLength }

-- What an iteration does by the status of the operation; no result while `sem_wait` blocks.
def Session.settle (paradigm : Paradigm) (w : WorkUnit) (s : Session κ) : Option (Session κ) :=
  match w.fdList.status.outcome with
  | .processed => some (s.finish w w.outputFd w.inputFd.length)
  | .suspended =>
      if s.recycleTodo = 0 ∧ s.sem = 0 then none
      else some (s.suspend.finish w w.outputFd w.bytesProcessed)
  | .skipped =>
      if s.recycleTodo = 0 then some (s.fail .recycleTodo) else some (s.finish w w.restored 0)
  | .terminal =>
      some (Session.finish w w.restored 0 (if paradigm = .statefulRecycle then s.abandon else s))

-- `dce_stream_abort` and `dce_stream_continue` differ in the stream state they leave.
def Session.resume (streamEnd : Bool) (s : Session κ) : Session κ :=
  { s with recycle := true, recyclerAllowed := true, streamEnd := streamEnd }

end Calls

inductive Action where
  | enqueue (op : Op)
  | dequeue (n : Nat)
  | streamAbort
  | streamContinue
  | recycleDiscard
  | recycleFdPair (op : Op)
  -- The next step of the call a thread is in; `accepted` is the answer of `enqueue_fd`.
  | next (accepted : Bool)
  deriving DecidableEq, Repr

section Threads

variable {κ : Type} [DecidableEq κ]

-- The asserts of `dce_stream_abort` and `dce_stream_continue`, which are the caller's to keep.
def Session.mayResume (s : Session κ) : Prop :=
  s.recycle = false ∧ s.recycleTodo ≠ 0 ∧ s.recyclerAllowed = false

instance (s : Session κ) : Decidable s.mayResume := inferInstanceAs (Decidable (_ ∧ _))

-- A step of thread `k`; no result when the thread has to wait, or the call is not allowed.
def next (paradigm : Paradigm) (k : κ) (s : Session κ) : Pc → Action → Option (Pc × Session κ)
  | .idle, .enqueue op =>
      match paradigm with
      | .stateless => some (.alloc op, s)
      | .statefulRecycle =>
          if s.sem = 0 then some (.idle, s) else some (.alloc op, s.acquire)
  | .alloc op, .next _ =>
      if s.recycleTodo ≠ 0 then some (.alloc op, s.fail .recycleTodo)
      else
        match s.prepare paradigm op with
        | none => some (.noSpace, s)
        | some (u, s) => some (.send op u, s)
  | .send op u, .next accepted =>
      some (.posting u accepted, if accepted then s.submit op u else s)
  | .posting u ok, .next _ => some (if ok then .tail u else .undo, s.post paradigm)
  | .tail u, .next _ => some (.idle, s.markTodo u)
  | .undo, .next _ =>
      if s.fifo.isEmpty then some (.undo, s.fail .emptyFifo) else some (.noSpace, s.undo)
  | .noSpace, .next _ => some (.idle, s.post paradigm)
  | .idle, .dequeue n => some (.tryLock n s.fifo.head, s)
  | .tryLock n u, .next _ =>
      match paradigm with
      | .stateless => some (.dequeuing n u, s)
      | .statefulRecycle =>
          match s.lock with
          | some _ => some (.idle, s)
          | none => some (.dequeuing n u, s.lockFor k)
  | .dequeuing n u, .next _ =>
      if n = 0 ∨ (s.unit u).state ≠ .done then
        some (.idle, if paradigm = .statefulRecycle then s.release else s)
      else some (.taken n u, s.take u)
  | .taken n u, .next _ =>
      match s.settle paradigm (s.unit u) with
      | none => none
      | some s => some (.dequeuing (n - 1) s.fifo.head, s)
  | .idle, .streamAbort =>
      if paradigm = .statefulRecycle ∧ s.lock = none ∧ s.mayResume then some (.idle, s.resume true)
      else none
  | .idle, .streamContinue =>
      if paradigm = .statefulRecycle ∧ s.lock = none ∧ s.mayResume then some (.idle, s.resume false)
      else none
  | .idle, .recycleDiscard =>
      if s.lock ≠ none then none
      else if s.recyclerAllowed = false then some (.idle, s)
      else if s.recycleTodo = 0 then some (.idle, s.fail .recycleTodo)
      else some (.idle, s.handledOne)
  | .idle, .recycleFdPair op =>
      if paradigm ≠ .statefulRecycle then none
      else if s.lock ≠ none then some (.idle, s)
      else if s.recyclerAllowed = false then some (.idle, s)
      else if s.recycleTodo = 0 then some (.idle, s.fail .recycleTodo)
      else
        match s.prepare paradigm op with
        | none => some (.idle, s)
        | some (u, s) => some (.recycling op u, s.lockFor k)
  | .recycling op u, .next accepted =>
      if accepted then some (.recycled u, s.submit op u)
      else if s.fifo.isEmpty then some (.recycling op u, s.fail .emptyFifo)
      else some (.idle, s.undo.release)
  | .recycled u, .next _ =>
      if s.recycleTodo = 0 then some (.recycled u, s.fail .recycleTodo)
      else some (.idle, (s.handledOne.markTodo u).release)
  | _, _ => none

structure System (κ : Type) where
  session : Session κ
  pc : κ → Pc

inductive Event (κ : Type) where
  | thread (k : κ) (a : Action)
  | answer (status : Status) (outputLength bytesProcessed : Nat)
  | callback
  deriving DecidableEq, Repr

def WorkUnit.written (outputLength bytesProcessed : Nat) (w : WorkUnit) : WorkUnit :=
  { w with
    outputFd := { w.outputFd with length := outputLength }
    bytesProcessed := bytesProcessed }

def FdList.withStatus (status : Status) (fd : FdList) : FdList := { fd with status := status }

def WorkUnit.completed (fd : FdList) (w : WorkUnit) : WorkUnit :=
  { w with fdList := fd, state := .done }

def Session.answered (status : Status) (outputLength bytesProcessed u : Nat) (rest : List Nat)
    (s : Session κ) : Session κ :=
  { s.setUnit u ((s.unit u).written outputLength bytesProcessed) with
    sent := rest
    answers := s.answers ++ [(u, (s.unit u).fdList.withStatus status)]
    verdicts := s.verdicts ++ [((s.unit u).fdList.recycle, status)] }

def Session.answer (status : Status) (outputLength bytesProcessed : Nat) (s : Session κ) :
    Option (Session κ) :=
  match s.sent with
  | [] => none
  | u :: rest => some (s.answered status outputLength bytesProcessed u rest)

def Session.calledBack (u : Nat) (fd : FdList) (rest : List (Nat × FdList)) (s : Session κ) :
    Session κ :=
  { s.setUnit u ((s.unit u).completed fd) with answers := rest, callbacks := s.callbacks + 1 }

-- `internal_callback` for a processed frame.
def Session.callback (s : Session κ) : Option (Session κ) :=
  match s.answers with
  | [] => none
  | (u, fd) :: rest =>
      if s.fifo.isEmpty then some (s.fail .emptyFifo) else some (s.calledBack u fd rest)

def System.step (paradigm : Paradigm) (y : System κ) : Event κ → Option (System κ)
  | .thread k a =>
      if y.session.failed ≠ none then none
      else (next paradigm k y.session (y.pc k) a).map (fun r => ⟨r.2, Function.update y.pc k r.1⟩)
  | .answer status outputLength bytesProcessed =>
      if y.session.failed ≠ none then none
      else (y.session.answer status outputLength bytesProcessed).map (fun s => { y with session := s })
  | .callback =>
      if y.session.failed ≠ none then none
      else y.session.callback.map (fun s => { y with session := s })

def System.run (paradigm : Paradigm) (y : System κ) : List (Event κ) → Option (System κ)
  | [] => some y
  | e :: rest => (y.step paradigm e).bind (fun y => y.run paradigm rest)

def WorkUnit.blank : WorkUnit where
  state := .free
  inputFd := ⟨0, 0, 0⟩
  outputFd := ⟨0, 0, 0⟩
  context := 0
  bytesProcessed := 0
  fdList := ⟨0, false, false, .noFlush, .fullyProcessed⟩
  outputLength := 0

def Session.create (paradigm : Paradigm) : Session κ where
  sem := if paradigm = .statefulRecycle then 1 else 0
  recycleTodo := 0
  recycle := false
  recyclerAllowed := false
  streamEnd := decide (paradigm = .statefulRecycle)
  fifo := ⟨1, 1⟩
  unit := fun _ => WorkUnit.blank
  lock := none
  sent := []
  answers := []
  failed := none
  accepted := []
  verdicts := []
  callbacks := 0
  returned := []
  handled := 0

def System.create (paradigm : Paradigm) : System κ := ⟨Session.create paradigm, fun _ => .idle⟩

end Threads

end Flexbuild.Dce
