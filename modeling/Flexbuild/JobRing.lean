import Flexbuild.RingHistories

/-! The job ring of the security engine: descriptors are handed over in the input ring, the engine
takes them in order and writes what it finished to the output ring, and a call that polls the ring
goes through its steps while the engine and the calls that enqueue go on. -/
namespace Flexbuild.JobRing

abbrev Word := BitVec 32

structure Config where
  sizeLog : Nat
  timer : Bool

def Config.size (c : Config) : Nat := 2 ^ c.sizeLog

def secJobRingIsFull (pi ci ringMaxSize ringThreshold : Nat) : Prop :=
  (pi + 1 + (ringMaxSize - ringThreshold)) &&& (ringMaxSize - 1) = ci

instance (pi ci ringMaxSize ringThreshold : Nat) : Decidable (secJobRingIsFull pi ci ringMaxSize ringThreshold) :=
  inferInstanceAs (Decidable (_ = _))

def secCircularCounter (x max : Nat) : Nat := (x + 1) &&& (max - 1)

structure OutringEntry where
  desc : Nat
  status : Word
  deriving DecidableEq, Repr

inductive DriverState where
  | idle | started | release
  deriving DecidableEq, Repr

inductive JobRingState where
  | started | reset
  deriving DecidableEq, Repr

-- `added`: the jobs it was told of and has not taken; `inside`: those it works on, each with its place in the order.
-- `taken` and `finished` are what it did since the start.
structure Sec where
  added : Nat
  irri : Nat
  orwi : Nat
  orsf : Nat
  jrint : Word
  inside : List (Nat × Nat)
  taken : Nat
  finished : List (Nat × OutringEntry)

structure Callback where
  desc : Nat
  status : Word
  arg : Nat
  deriving DecidableEq, Repr

structure Call where
  removed : List OutringEntry
  handled : List (OutringEntry × Bool)
  callbacks : List Callback
  deriving DecidableEq, Repr

def Call.start : Call := ⟨[], [], []⟩

structure Batch where
  jobsToNotify : Int
  notified : Int

inductive Phase where
  | idle
  | polling (limit : Int) (round : Nat)
  | checked (limit : Int) (round : Nat)
  | looping (limit : Int) (round : Nat) (batch : Batch)
  | read (limit : Int) (round : Nat) (batch : Batch) (entry : OutringEntry)
  | advanced (limit : Int) (round : Nat) (batch : Batch) (entry : OutringEntry)
  | signalled (limit : Int) (round : Nat) (batch : Batch) (entry : OutringEntry)

structure State where
  driverState : DriverState
  jrState : JobRingState
  pidx : Nat
  cidx : Nat
  inputRing : Nat → Nat
  outputRing : Nat → OutringEntry
  sec : Sec
  memory : Nat → Nat
  phase : Phase
  accepted : List Nat
  current : Call
  returned : List (Call × Int)

def descOf (jobdescr : Nat) : Nat := jobdescr + 16

def argAddr (desc : Nat) : Nat := desc - 8

def fnptrAddr (desc : Nat) : Nat := desc - 16

namespace State

def initJobRing (memory : Nat → Nat) (jrint : Word) : State :=
  { driverState := .started, jrState := .started, pidx := 0, cidx := 0, inputRing := fun _ => 0,
    outputRing := fun _ => ⟨0, 0⟩, sec := ⟨0, 0, 0, 0, jrint, [], 0, []⟩, memory, phase := .idle, accepted := [],
    current := .start, returned := [] }

def removed (s : State) : List OutringEntry := s.returned.flatMap (fun r => r.1.removed) ++ s.current.removed

def enqJrDesc (c : Config) (jobdescr : Nat) (s : State) : Int × State :=
  if s.driverState ≠ .started then (-1, s)
  else if s.jrState ≠ .started then (-1, s)
  else if secJobRingIsFull s.pidx s.cidx c.size c.size then (-1, s)
  else (0, { s with
    inputRing := Function.update s.inputRing s.pidx (descOf jobdescr)
    sec := { s.sec with added := s.sec.added + 1 }
    pidx := secCircularCounter s.pidx c.size
    accepted := s.accepted ++ [descOf jobdescr] })

def returns (s : State) (result : Int) : State :=
  { s with phase := .idle, current := .start, returned := s.returned ++ [(s.current, result)] }

def dequeueJr (c : Config) (limit : Int) (s : State) : State :=
  if s.driverState ≠ .started then s.returns (-1)
  else if limit = 0 ∨ limit > c.size then s.returns (-1)
  else { s with phase := .polling limit 0 }

def hwJobRingError (jrint : Word) : Word := if jrint &&& 2 = 0 then 0 else jrint &&& 0xf00

def polled (c : Config) (expired : Bool) (limit : Int) (round : Nat) (notified : Int) (s : State) : State :=
  let stop := if c.timer then expired else decide (round + 1 = 100)
  if notified ≠ 0 ∨ stop then s.returns notified else { s with phase := .polling limit (round + 1) }

def removeEntry (s : State) : State := { s with sec := { s.sec with orsf := s.sec.orsf - 1 } }

def advance (c : Config) (expired : Bool) (s : State) : Option State :=
  match s.phase with
  | .idle => none
  | .polling limit round =>
    if hwJobRingError s.sec.jrint ≠ 0 then some (s.returns (-1)) else some { s with phase := .checked limit round }
  | .checked limit round =>
    let available : Int := s.sec.orsf
    let jobsToNotify := if limit < 0 ∨ limit > available then available else limit
    some { s with phase := .looping limit round ⟨jobsToNotify, 0⟩ }
  | .looping limit round batch =>
    if batch.jobsToNotify > batch.notified then some { s with phase := .read limit round batch (s.outputRing s.cidx) }
    else some (s.polled c expired limit round batch.notified)
  | .read limit round batch entry =>
    if entry.desc = 0 then some (s.polled c expired limit round 0)
    else some { s with
      cidx := secCircularCounter s.cidx c.size
      phase := .advanced limit round batch entry
      current := { s.current with removed := s.current.removed ++ [entry] } }
  | .advanced limit round batch entry =>
    if entry.status ≠ 0 then some (s.removeEntry.returns (-1))
    else some { s.removeEntry with phase := .signalled limit round { batch with notified := batch.notified + 1 } entry }
  | .signalled limit round batch entry =>
    let fnptr := s.memory (fnptrAddr entry.desc)
    let callbacks := if fnptr ≠ 0 then [⟨entry.desc, entry.status, s.memory (argAddr entry.desc)⟩] else []
    some { s with
      phase := .looping limit round batch
      current := { s.current with
        handled := s.current.handled ++ [(entry, decide (fnptr ≠ 0))]
        callbacks := s.current.callbacks ++ callbacks } }

def take (c : Config) (s : State) : Option State :=
  if s.sec.added = 0 then none
  else some { s with sec := { s.sec with
    added := s.sec.added - 1
    irri := (s.sec.irri + 1) % c.size
    inside := s.sec.inside ++ [(s.sec.taken, s.inputRing s.sec.irri)]
    taken := s.sec.taken + 1 } }

def finish (c : Config) (i : Nat) (status : Word) (s : State) : Option State :=
  match s.sec.inside[i]? with
  | none => none
  | some (place, desc) => some { s with
    outputRing := Function.update s.outputRing s.sec.orwi ⟨desc, status⟩
    sec := { s.sec with
      orwi := (s.sec.orwi + 1) % c.size
      orsf := s.sec.orsf + 1
      inside := s.sec.inside.eraseIdx i
      finished := s.sec.finished ++ [(place, ⟨desc, status⟩)] } }

end State

inductive Act where
  | enqueue (jobdescr : Nat)
  | dequeue (limit : Int)
  | advance (expired : Bool)
  | take
  | finish (i : Nat) (status : Word)
  | interrupt (jrint : Word)
  | store (address value : Nat)

def step (c : Config) (s : State) : Act → Option State
  | .enqueue jobdescr => some (s.enqJrDesc c jobdescr).2
  | .dequeue limit =>
    match s.phase with
    | .idle => some (s.dequeueJr c limit)
    | _ => none
  | .advance expired => s.advance c expired
  | .take => s.take c
  | .finish i status => s.finish c i status
  | .interrupt jrint => some { s with sec := { s.sec with jrint } }
  | .store address value => some { s with memory := Function.update s.memory address value }

inductive Reachable (c : Config) : State → Prop where
  | start (memory : Nat → Nat) (jrint : Word) : Reachable c (.initJobRing memory jrint)
  | step {s s' : State} (act : Act) (reached : Reachable c s) (done : step c s act = some s') : Reachable c s'

end Flexbuild.JobRing
