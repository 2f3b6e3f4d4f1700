import Flexbuild.Chains
import Flexbuild.PriorityOrders
import Mathlib.Data.Nat.Basic

/-! The event manager of the service layer. The list cells come from a pool of addresses that
was filled at boot. Addresses and callbacks are numbers, zero is `NULL`; the mutexes make every
call one step. -/
namespace Flexbuild.EventManager
open Chains PriorityOrders

inductive Status where
  | ok
  | inval
  | nomem
  | navail
  | notsup
  deriving DecidableEq, Repr

structure Registration where
  priority : Nat
  appCtx : Nat
  cb : Nat
  deriving DecidableEq, Repr

structure PriorityList extends Registration where
  next : Nat
  deriving DecidableEq, Repr

structure Evmng where
  generatorId : Nat
  eventId : Nat
  head : Nat
  deriving DecidableEq, Repr

def layout : Layout PriorityList Registration where
  payload := PriorityList.toRegistration
  next := PriorityList.next
  setNext := fun cell next => { cell with next := next }
  payloadSetNext := fun _ _ => rfl
  nextSetNext := fun _ _ => rfl

def generatorAiopsl : Nat := 1
def numOfSlDefinedEvents : Nat := 8
def maxNumOfEvents : Nat := numOfSlDefinedEvents + 128
def numOfIrqEvents : Nat := 3
def numOfRegistrationsPerEvent : Nat := 1
def numEvmngRegistrations : Nat := (maxNumOfEvents + numOfIrqEvents) * numOfRegistrationsPerEvent
def eventSend : Nat := 2
def noRespCmd : Nat := 0x1000
def irqParamsSize : Nat := 16

structure State where
  irqEvents : Nat → Evmng
  events : Nat → Evmng
  lastUsedIndex : Nat
  memory : Nat → PriorityList
  pool : Nat → Nat
  poolPointer : Nat

inductive Slot where
  | irq (i : Nat)
  | event (i : Nat)
  deriving DecidableEq, Repr

namespace State

def entry (s : State) : Slot → Evmng
  | .irq i => s.irqEvents i
  | .event i => s.events i

def setHead (s : State) (slot : Slot) (head : Nat) : State :=
  match slot with
  | .irq i => { s with irqEvents := Function.update s.irqEvents i { s.irqEvents i with head := head } }
  | .event i => { s with events := Function.update s.events i { s.events i with head := head } }

def setNext (s : State) (p next : Nat) : State :=
  { s with memory := Function.update s.memory p { s.memory p with next := next } }

def setIds (s : State) (i generatorId eventId : Nat) : State :=
  let entry := { s.events i with generatorId := generatorId, eventId := eventId }
  { s with events := Function.update s.events i entry }

def clearGenerator (s : State) : Slot → State
  | .irq i => { s with irqEvents := Function.update s.irqEvents i { s.irqEvents i with generatorId := 0 } }
  | .event i => { s with events := Function.update s.events i { s.events i with generatorId := 0 } }

end State

def evmngEarlyInit (memory : Nat → PriorityList) (malloc : Nat) : Option State :=
  if malloc = 0 then none
  else
    let cells := malloc + 4 * numEvmngRegistrations
    some {
      irqEvents := fun i => if i < numOfIrqEvents then ⟨generatorAiopsl, i, 0⟩ else ⟨0, 0, 0⟩
      events := fun _ => ⟨0, 0, 0⟩
      lastUsedIndex := 0
      memory := memory
      pool := fun i => cells + 24 * i
      poolPointer := 0 }

def seek (m : Nat → PriorityList) (priority : Nat) : Nat → Nat → Nat → Nat × Nat
  | 0, tmp, ptr => (tmp, ptr)
  | fuel + 1, tmp, ptr =>
    if (m ptr).next ≠ 0 ∧ (m ptr).priority ≤ priority then seek m priority fuel ptr (m ptr).next
    else (tmp, ptr)

def addEventRegistration (s : State) (r : Registration) (slot : Slot) : State × Status :=
  if s.poolPointer = numEvmngRegistrations then (s, .nomem)
  else
    let new := s.pool s.poolPointer
    let s := { s with
      poolPointer := s.poolPointer + 1
      memory := Function.update s.memory new ⟨r, 0⟩ }
    let head := (s.entry slot).head
    if head ≠ 0 then
      let (tmp, ptr) := seek s.memory r.priority numEvmngRegistrations head head
      if r.priority < (s.memory ptr).priority then
        let s := s.setNext new ptr
        if tmp ≠ head then (s.setNext tmp new, .ok) else (s.setHead slot new, .ok)
      else (s.setNext ptr new, .ok)
    else (s.setHead slot new, .ok)

def evmngIrqRegister (s : State) (generatorId eventId : Nat) (r : Registration) : State × Status :=
  if r.cb = 0 then (s, .inval)
  else if numOfIrqEvents ≤ eventId ∨ generatorId ≠ generatorAiopsl then (s, .inval)
  else addEventRegistration s r (.irq eventId)

def search (events : Nat → Evmng) (generatorId eventId : Nat) :
    Nat → Nat → Option Nat → Nat × Option Nat
  | 0, i, emptyIndex => (i, emptyIndex)
  | count + 1, i, emptyIndex =>
    if (events i).generatorId = generatorId ∧ (events i).eventId = eventId then (i, emptyIndex)
    else search events generatorId eventId count (i + 1)
      (if (events i).generatorId = 0 ∧ emptyIndex = none then some i else emptyIndex)

def evmngRegister (s : State) (generatorId eventId : Nat) (r : Registration) : State × Status :=
  if r.cb = 0 then (s, .inval)
  else
    let (i, emptyIndex) := search s.events generatorId eventId s.lastUsedIndex 0 none
    let register (s : State) (index : Nat) (emptyIndex : Option Nat) : State × Status :=
      let (s, err) := addEventRegistration s r (.event index)
      match emptyIndex with
      | some empty =>
        if err ≠ .ok ∧ i = maxNumOfEvents then (s.clearGenerator (.event empty), err) else (s, err)
      | none => (s, err)
    if i < s.lastUsedIndex then register s i emptyIndex
    else
      match emptyIndex with
      | some empty => register (s.setIds empty generatorId eventId) empty emptyIndex
      | none =>
        if s.lastUsedIndex < maxNumOfEvents then
          let empty := s.lastUsedIndex
          let s := s.setIds empty generatorId eventId
          register { s with lastUsedIndex := s.lastUsedIndex + 1 } empty (some empty)
        else (s, .nomem)

def locate (m : Nat → PriorityList) (r : Registration) : Nat → Nat → Nat → Nat × Nat
  | 0, tmp, ptr => (tmp, ptr)
  | fuel + 1, tmp, ptr =>
    if ptr = 0 then (tmp, ptr)
    else if (m ptr).cb = r.cb ∧ (m ptr).priority = r.priority ∧ (m ptr).appCtx = r.appCtx then (tmp, ptr)
    else locate m r fuel ptr (m ptr).next

def removeEventRegistration (s : State) (slot : Slot) (r : Registration) : State × Status :=
  let head := (s.entry slot).head
  if head = 0 then (s, .navail)
  else
    let (tmp, ptr) := locate s.memory r numEvmngRegistrations head head
    if ptr = 0 then (s, .navail)
    else
      let next := (s.memory ptr).next
      let s :=
        if ptr ≠ head then if next ≠ 0 then s.setNext tmp next else s.setNext tmp 0
        else if next ≠ 0 then s.setHead slot next
        else (s.setHead slot 0).clearGenerator slot
      ({ s with
        poolPointer := s.poolPointer - 1
        pool := Function.update s.pool (s.poolPointer - 1) ptr }, .ok)

def evmngIrqUnregister (s : State) (generatorId eventId : Nat) (r : Registration) : State × Status :=
  if r.cb = 0 then (s, .inval)
  else if numOfIrqEvents ≤ eventId ∨ generatorId ≠ generatorAiopsl then (s, .inval)
  else removeEventRegistration s (.irq eventId) r

def find (events : Nat → Evmng) (generatorId eventId : Nat) : Nat → Nat → Nat
  | 0, i => i
  | count + 1, i =>
    if (events i).generatorId = generatorId ∧ (events i).eventId = eventId then i
    else find events generatorId eventId count (i + 1)

def evmngUnregister (s : State) (generatorId eventId : Nat) (r : Registration) : State × Status :=
  if r.cb = 0 then (s, .inval)
  else
    let i := find s.events generatorId eventId s.lastUsedIndex 0
    if i = s.lastUsedIndex then (s, .navail)
    else
      let s := if i + 1 = s.lastUsedIndex then { s with lastUsedIndex := s.lastUsedIndex - 1 } else s
      removeEventRegistration s (.event i) r

structure Invocation where
  cb : Nat
  generatorId : Nat
  eventId : Nat
  appCtx : Nat
  eventData : Nat
  deriving DecidableEq, Repr

def Registration.invoke (r : Registration) (generatorId eventId eventData : Nat) : Invocation :=
  ⟨r.cb, generatorId, eventId, r.appCtx, eventData⟩

def State.registrations (s : State) (slot : Slot) : List Registration :=
  (walk layout s.memory numEvmngRegistrations (s.entry slot).head).map Node.value

def evmngRaiseIrqEventCb (s : State) (cmd size addr val : Nat) : Status × List Invocation :=
  if cmd &&& (0xFFFF ^^^ noRespCmd) ≠ eventSend ∨ size < irqParamsSize then (.inval, [])
  else if numOfIrqEvents ≤ addr then (.notsup, [])
  else (.ok, (s.registrations (.irq addr)).map (·.invoke generatorAiopsl addr val))

def raiseEvent (s : State) (generatorId eventId eventData : Nat) : List Invocation :=
  let i := find s.events generatorId eventId s.lastUsedIndex 0
  if i = s.lastUsedIndex then []
  else (s.registrations (.event i)).map (·.invoke generatorId eventId eventData)

def evmngSlRaiseEvent (s : State) (generatorId eventId eventData : Nat) : Status × List Invocation :=
  if numOfSlDefinedEvents ≤ eventId ∨ generatorId ≠ generatorAiopsl then (.notsup, [])
  else (.ok, raiseEvent s generatorId eventId eventData)

def evmngRaiseEvent (s : State) (generatorId eventId eventData : Nat) : Status × List Invocation :=
  if eventId < numOfSlDefinedEvents ∧ generatorId = generatorAiopsl then (.notsup, [])
  else (.ok, raiseEvent s generatorId eventId eventData)

inductive Key where
  | irq (eventId : Nat)
  | event (generatorId eventId : Nat)
  deriving DecidableEq, Repr

inductive Call where
  | register (generatorId eventId : Nat) (r : Registration)
  | unregister (generatorId eventId : Nat) (r : Registration)
  | irqRegister (generatorId eventId : Nat) (r : Registration)
  | irqUnregister (generatorId eventId : Nat) (r : Registration)
  deriving DecidableEq, Repr

def step (s : State) : Call → State × Status
  | .register generatorId eventId r => evmngRegister s generatorId eventId r
  | .unregister generatorId eventId r => evmngUnregister s generatorId eventId r
  | .irqRegister generatorId eventId r => evmngIrqRegister s generatorId eventId r
  | .irqUnregister generatorId eventId r => evmngIrqUnregister s generatorId eventId r

abbrev Live := List (Key × Registration)

def note (live : Live) (status : Status) : Call → Live
  | .register generatorId eventId r =>
    if status = .ok then live ++ [(.event generatorId eventId, r)] else live
  | .unregister generatorId eventId r =>
    if status = .ok then live.erase (.event generatorId eventId, r) else live
  | .irqRegister _ eventId r => if status = .ok then live ++ [(.irq eventId, r)] else live
  | .irqUnregister _ eventId r => if status = .ok then live.erase (.irq eventId, r) else live

def play (s : State) (live : Live) : List Call → State × Live
  | [] => (s, live)
  | c :: rest => play (step s c).1 (note live (step s c).2 c) rest

end Flexbuild.EventManager
