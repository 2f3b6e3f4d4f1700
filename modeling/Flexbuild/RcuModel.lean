import Mathlib
import Flexbuild.Chains

/-! The read-copy-update jobs of the service layer. A call queues a job, a one-shot
timer starts a callback, and the callback runs a batch of jobs once every task that
held the read lock is gone: it primes the task status registers of all cores and polls
them under a mask of software. Every access that other tasks can see is a step of its
own. Registers and mask words are indexed by the core number, which is
`cluster * cores + core` in the arrays of the code. -/
namespace Flexbuild.ReadCopyUpdate
open Chains

structure Config where
  clusters : Nat
  coreBits : Nat
  some_cluster : 0 < clusters

def Config.cores (cfg : Config) : Nat := 2 ^ cfg.coreBits
def Config.total (cfg : Config) : Nat := cfg.clusters * cfg.cores
def numTasks : Nat := 16

def ctstwsTask0Bit : BitVec 32 := 0x80000000#32
def ctstwsTasksMask : BitVec 32 := 0xFFFF0000#32
def taskBit (task : Nat) : BitVec 32 := ctstwsTask0Bit >>> task

structure Job where
  next : Nat
  param : Nat
  cb : Nat
  deriving DecidableEq, Repr

def layout : Layout Job (Nat × Nat) where
  payload := fun job => (job.cb, job.param)
  next := Job.next
  setNext := fun job next => { job with next := next }
  payloadSetNext := fun _ _ => rfl
  nextSetNext := fun _ _ => rfl

structure Rcu where
  listHead : Nat
  listTail : Nat
  listSize : Nat
  swCtstws : Nat → BitVec 32

def enqueue (memory : Nat → Job) (g : Rcu) (job cb param : Nat) : (Nat → Job) × Rcu :=
  let memory := Function.update memory job ⟨0, param, cb⟩
  if g.listSize = 0 then
    (memory, { g with listHead := job, listTail := job, listSize := g.listSize + 1 })
  else
    (Function.update memory g.listTail { memory g.listTail with next := job },
      { g with listTail := job, listSize := g.listSize + 1 })

def dequeue (memory : Nat → Job) (g : Rcu) : Rcu × Nat × Nat :=
  let job := memory g.listHead
  let g := { g with listHead := job.next }
  let g := if g.listHead = 0 then { g with listTail := 0 } else g
  ({ g with listSize := g.listSize - 1 }, job.cb, job.param)

def Config.maskIndex (cfg : Config) (core : Nat) : Nat :=
  core / cfg.clusters * cfg.cores + (core &&& (cfg.cores - 1))

def rcuReadUnlock (cfg : Config) (g : Rcu) (core task : Nat) : Rcu :=
  let i := cfg.maskIndex core
  { g with swCtstws := Function.update g.swCtstws i (g.swCtstws i &&& ~~~taskBit task) }

def rcuReadLock (cfg : Config) (g : Rcu) (core task : Nat) : Rcu :=
  let i := cfg.maskIndex core
  { g with swCtstws := Function.update g.swCtstws i (g.swCtstws i ||| taskBit task) }

structure Task where
  id : Nat
  locked : Bool
  rcuUnlock : Bool
  deriving DecidableEq, Repr

structure Entry where
  addr : Nat
  cb : Nat
  param : Nat
  guards : List Nat
  deriving DecidableEq, Repr

def Entry.node (e : Entry) : Node (Nat × Nat) := ⟨e.addr, (e.cb, e.param)⟩

structure Call where
  cb : Nat
  param : Nat
  guards : List Nat
  deriving DecidableEq, Repr

inductive Phase where
  | entered (batch : Int)
  | begun (batch : Int)
  | priming (batch core : Nat)
  | polling (batch core : Nat) (ctstws : Option (BitVec 32))
  | rearming (batch : Nat)
  | draining (left : Nat)
  | restarting
  deriving DecidableEq, Repr

structure Callback where
  core : Nat
  task : Nat
  phase : Phase
  deriving DecidableEq, Repr

structure World where
  rcu : Rcu
  memory : Nat → Job
  ctstws : Nat → BitVec 32
  tasks : Nat → Nat → Option Task
  nextId : Nat
  calls : List Call
  starters : Nat
  timers : List Int
  callbacks : List Callback
  queue : List Entry
  enqueued : List (Nat × Nat)
  ran : List (Nat × Nat)
  failures : Nat

def World.start : World where
  rcu := ⟨0, 0, 0, fun _ => ctstwsTasksMask⟩
  memory := fun _ => ⟨0, 0, 0⟩
  ctstws := fun _ => 0
  tasks := fun _ _ => none
  nextId := 0
  calls := []
  starters := 0
  timers := []
  callbacks := []
  queue := []
  enqueued := []
  ran := []
  failures := 0

namespace World

def setTask (w : World) (core task : Nat) (t : Option Task) : World :=
  { w with tasks := Function.update w.tasks core (Function.update (w.tasks core) task t) }

def startTask (w : World) (core task : Nat) : World :=
  { w.setTask core task (some ⟨w.nextId, true, false⟩) with nextId := w.nextId + 1 }

def forget (w : World) (id : Nat) : World :=
  { w with
    calls := w.calls.map fun c => { c with guards := c.guards.filter (· ≠ id) }
    queue := w.queue.map fun e => { e with guards := e.guards.filter (· ≠ id) } }

def readUnlock (cfg : Config) (w : World) (core task : Nat) (t : Task) : World :=
  { (w.setTask core task (some { t with locked := false, rcuUnlock := true })).forget t.id with
    rcu := rcuReadUnlock cfg w.rcu core task }

def readLock (cfg : Config) (w : World) (core task : Nat) (t : Task) : World :=
  { w.setTask core task (some { t with locked := true }) with rcu := rcuReadLock cfg w.rcu core task }

def finishTask (cfg : Config) (w : World) (core task : Nat) (t : Task) : World :=
  let w := if t.rcuUnlock then w.readLock cfg core task t else w
  { w.setTask core task none with
    ctstws := Function.update w.ctstws core (w.ctstws core &&& ~~~taskBit task) }

def terminate (cfg : Config) (w : World) (c : Callback) : World :=
  match w.tasks c.core c.task with
  | some t => w.finishTask cfg c.core c.task t
  | none => w

def occupied (w : World) (core : Nat) : BitVec 32 :=
  (List.range numTasks).foldl (fun bits task =>
    if (w.tasks core task).isSome then bits ||| taskBit task else bits) 0

def holders (cfg : Config) (w : World) : List Nat :=
  (List.range cfg.total).flatMap fun core => (List.range numTasks).filterMap fun task =>
    (w.tasks core task).bind fun t => if t.locked then some t.id else none

def initOneShotTimer (w : World) (batch : Int) (ok : Bool) : World :=
  if ok then { w with timers := w.timers ++ [batch] } else { w with failures := w.failures + 1 }

def enqueueCall (w : World) (calls : List Call) (c : Call) (job : Nat) : World :=
  let (memory, rcu) := enqueue w.memory w.rcu job c.cb c.param
  { w with
    memory := memory
    rcu := rcu
    calls := calls
    starters := if rcu.listSize = 1 then w.starters + 1 else w.starters
    queue := w.queue ++ [⟨job, c.cb, c.param, c.guards⟩]
    enqueued := w.enqueued ++ [(c.cb, c.param)] }

def drain (w : World) : World :=
  let (rcu, cb, param) := dequeue w.memory w.rcu
  { w with rcu := rcu, queue := w.queue.tail, ran := w.ran ++ [(cb, param)] }

-- The next step of a callback and where it then stands, `none` once it has ended. The outer `none`
-- is an assertion that fails.
def advance (cfg : Config) (w : World) (c : Callback) (ok : Bool) : Option (World × Option Callback) :=
  let stay (w : World) (phase : Phase) := some (w, some { c with phase := phase })
  match c.phase with
  | .entered batch =>
    match w.tasks c.core c.task with
    | some t => stay (w.readUnlock cfg c.core c.task t) (.begun batch)
    | none => none
  | .begun batch =>
    if batch = -1 then stay w (.priming w.rcu.listSize 0) else stay w (.polling batch.toNat 0 none)
  | .priming batch core =>
    if core < cfg.total then
      stay { w with ctstws := Function.update w.ctstws core (w.occupied core) } (.priming batch (core + 1))
    else stay w (.polling batch 0 none)
  | .polling batch core none =>
    if core < cfg.total then stay w (.polling batch core (some (w.ctstws core)))
    else if 0 < batch then stay w (.draining batch) else none
  | .polling batch core (some ctstws) =>
    if ctstws &&& w.rcu.swCtstws core ≠ 0 then stay w (.rearming batch)
    else stay w (.polling batch (core + 1) none)
  | .rearming batch => some ((w.initOneShotTimer batch ok).terminate cfg c, none)
  | .draining left =>
    let w := w.drain
    if 1 < left then stay w (.draining (left - 1))
    else if w.rcu.listSize ≠ 0 then stay w .restarting
    else some (w.terminate cfg c, none)
  | .restarting => some ((w.initOneShotTimer (-1) ok).terminate cfg c, none)

end World

inductive Step (cfg : Config) : World → World → Prop where
  | start {w : World} {core task : Nat} (inside : core < cfg.total ∧ task < numTasks)
      (free : w.tasks core task = none) : Step cfg w (w.startTask core task)
  | unlock {w : World} {core task : Nat} {t : Task} (running : w.tasks core task = some t) :
      Step cfg w (w.readUnlock cfg core task t)
  | lock {w : World} {core task : Nat} {t : Task} (running : w.tasks core task = some t) :
      Step cfg w (w.readLock cfg core task t)
  | finish {w : World} {core task : Nat} {t : Task} (running : w.tasks core task = some t)
      (plain : ∀ c ∈ w.callbacks, ¬ (c.core = core ∧ c.task = task)) :
      Step cfg w (w.finishTask cfg core task t)
  | call {w : World} (cb param : Nat) :
      Step cfg w { w with calls := w.calls ++ [⟨cb, param, w.holders cfg⟩] }
  | enqueue {w : World} {pre post : List Call} {c : Call} {job : Nat}
      (calls : w.calls = pre ++ c :: post) (fresh : job ≠ 0 ∧ job ∉ w.queue.map Entry.addr) :
      Step cfg w (w.enqueueCall (pre ++ post) c job)
  | refuse {w : World} {pre post : List Call} {c : Call} (calls : w.calls = pre ++ c :: post) :
      Step cfg w { w with calls := pre ++ post }
  | arm {w : World} (told : 0 < w.starters) (ok : Bool) :
      Step cfg w ({ w with starters := w.starters - 1 }.initOneShotTimer (-1) ok)
  | fire {w : World} {pre post : List Int} {batch : Int} {core task : Nat}
      (timers : w.timers = pre ++ batch :: post) (inside : core < cfg.total ∧ task < numTasks)
      (free : w.tasks core task = none) :
      Step cfg w { w.startTask core task with
        timers := pre ++ post, callbacks := w.callbacks ++ [⟨core, task, .entered batch⟩] }
  | advance {w w' : World} {pre post : List Callback} {c : Callback} {c' : Option Callback} {ok : Bool}
      (callbacks : w.callbacks = pre ++ c :: post)
      (moved : { w with callbacks := pre ++ post }.advance cfg c ok = some (w', c')) :
      Step cfg w { w' with callbacks := pre ++ c'.toList ++ post }

inductive Reachable (cfg : Config) : World → Prop where
  | start : Reachable cfg .start
  | step {w w' : World} (reached : Reachable cfg w) (next : Step cfg w w') : Reachable cfg w'

end Flexbuild.ReadCopyUpdate
