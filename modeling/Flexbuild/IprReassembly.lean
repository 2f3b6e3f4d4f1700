import Flexbuild.IprClosing

/-! One reassembly context over a run. Beside the context the run keeps what became of the
frames: those concatenated, discarded by the timeout or handed to its callback, those of
fragments that came too late, and the answer to every fragment. -/
namespace Flexbuild.IprFragments
open Words Links Tilings

inductive Answer where
  | regular | malformed (status : FragStatus) | earlyTimeOut | notSupported | notCompleted
  | completed | timedOut
  deriving DecidableEq, Repr

def Answer.accepted : Answer → Bool
  | .notCompleted | .completed => true
  | _ => false

structure World where
  context : Context
  concatenated : List Piece
  discarded : List (Nat × Option Fd)
  handed : List ((Nat × Option Fd) × Bool)
  dropped : List Fragment
  log : List (Fragment × Answer)

def World.opened (c : Context) : World := ⟨c, [], [], [], [], []⟩

def finish (w : World) (c : Context) (pieces : List Piece) (timerDeleted : Bool) : World × Answer :=
  let w := { w with concatenated := w.concatenated ++ pieces }
  if timerDeleted then ({ w with context := c.close }, .completed)
  else ({ w with context := c }, .timedOut)

def iprReassemble (inst : Instance) (w : World) (f : Fragment) (timerDeleted : Bool) :
    Option (World × Answer) :=
  if !f.isFragment then some (w, .regular)
  else
    match checkForFragError inst f with
    | some status => some (w, .malformed status)
    | none =>
        if !w.context.rfdc.valid then some ({ w with dropped := w.dropped ++ [f] }, .earlyTimeOut)
        else if w.context.rfdc.numOfFrags = maxNumOfFrags then some (w, .notSupported)
        else
          match iprInsertToLinkList inst w.context f with
          | none => none
          | some (c, .fragOkReassNotCompl) => some ({ w with context := c }, .notCompleted)
          | some (c, .lastFragInOrder) =>
              some (finish w c (closingInOrder c c.rfdc.numOfFrags) timerDeleted)
          | some (c, .lastFragOutOfOrder) =>
              some (finish w c (closingWithReordering c) timerDeleted)
          | some (c, status) => some ({ w with context := c }, .malformed status)

inductive Event where
  | arrives (f : Fragment) (timerDeleted : Bool)
  | expires
  deriving DecidableEq, Repr

def step (inst : Instance) (w : World) : Event → Option World
  | .arrives f timerDeleted =>
      match iprReassemble inst w f timerDeleted with
      | none => none
      | some (w, answer) => some { w with log := w.log ++ [(f, answer)] }
  | .expires =>
      let (c, expired) := iprTimeOut w.context
      some { w with
        context := c
        discarded := w.discarded ++ expired.discarded
        handed := w.handed ++ expired.handed.toList }

def run (inst : Instance) : World → List Event → Option World
  | w, [] => some w
  | w, event :: events => (step inst w event).bind fun w => run inst w events

def FindsPlace (c : Context) (f : Fragment) : Prop :=
  ∃ k order l r, Listed c k c.rfdc.nextIndex order ∧ Place c f order l r

def Completes (c : Context) (f : Fragment) : Prop :=
  ¬ EcnConflict c f ∧
    if c.rfdc.outOfOrder then
      FindsPlace c f ∧ wrap 16 (c.rfdc.currentTotalLength + f.size) =
        if c.rfdc.biggestPayload ≤ f.offset ∧ f.last = true then wrap 16 (f.offset + f.size)
        else c.rfdc.expectedTotalLength
    else f.offset = c.rfdc.currentTotalLength ∧ f.last = true

def Oversized (inst : Instance) (c : Context) (f : Fragment) : Prop :=
  inst.maxReassFrmSize <
    wrap 16 (c.rfdc.currentTotalLength + f.size) + (c.read f).rfdc.firstFragHdrLength

def Detached (c : Context) (f : Fragment) : Prop :=
  ¬ EcnConflict c f ∧
    if c.rfdc.outOfOrder then c.rfdc.orderAndOoo = false ∧ FindsPlace c f
    else c.rfdc.nextIndex = 0 ∧ c.rfdc.currentTotalLength < f.offset

structure Safe (inst : Instance) (c : Context) (f : Fragment) (timerDeleted : Bool) : Prop where
  still : c.rfdc.valid = true
  fits : Completes c f → ¬ Oversized inst c f ∧ timerDeleted = true
  ends : Detached c f → f.offset + f.size < maxIpSize

def SafeStep (inst : Instance) (w : World) : Event → Prop
  | .arrives f timerDeleted =>
      f.isFragment = true → checkForFragError inst f = none → Safe inst w.context f timerDeleted
  | .expires => True

def SafeRun (inst : Instance) : World → List Event → Prop
  | _, [] => True
  | w, event :: events =>
      SafeStep inst w event ∧ ∀ w', step inst w event = some w' → SafeRun inst w' events

def World.taken (w : World) : List Fragment :=
  (w.log.filter fun entry => entry.2.accepted).map Prod.fst

def stores (taken : List Fragment) : List (Nat × Fd) :=
  (taken.zipIdx.map fun entry => (entry.2, entry.1.storedFd)).reverse

structure Accounted (w : World) : Prop where
  stored : w.context.fds = stores w.taken
  inside : w.context.rfdc.valid = true → w.concatenated = [] ∧ w.discarded = [] ∧ w.handed = []
  outside : w.context.rfdc.valid = false →
    (w.concatenated.map (fun p => (p.slot, p.fd)) ++ w.discarded ++ w.handed.map Prod.fst).Perm
      (w.context.fds.map fun entry => (entry.1, some entry.2))
  first : ∀ h ∈ w.handed, h.2 = true →
    ∃ f, w.taken[h.1.1]? = some f ∧ f.offset = 0 ∧ h.1.2 = some f.storedFd
  kept : w.dropped = []

end Flexbuild.IprFragments
