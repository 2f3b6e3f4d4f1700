import Flexbuild.ByteMemory

/-! The search for objects of a token. A session keeps the handles it has found in a list of its own,
which is filled when the search begins, handed out piece by piece, and released at its end. What is
written to or read from such a list is noted, with whether the list was allocated then. -/
namespace Flexbuild.ObjectSearch
open ByteMemory (Byte)

def maxFindListObjects : Nat := 100
def slotCount : Nat := 1

inductive Rv where
  | ok | cryptokiNotInitialized | argumentsBad | sessionHandleInvalid | operationActive
  | operationNotInitialized | hostMemory | generalError
  deriving DecidableEq, Repr

structure Attribute where
  type : BitVec 64
  value : List Byte
  deriving DecidableEq

structure Object where
  handle : Nat
  templateList : List Attribute
  deriving DecidableEq

structure ObjectList where
  objects : List Object
  distinct : (objects.map Object.handle).Nodup

structure Session where
  slotId : Nat
  findList : Nat
  findCount : Nat
  findIdx : Nat
  opActive : Bool
  deriving DecidableEq, Repr

structure Access where
  list : Nat
  index : Nat
  allocated : Bool
  deriving DecidableEq, Repr

structure Heap where
  allocated : Nat → Bool
  cells : Nat → Nat → Nat
  accesses : List Access

namespace Heap
variable (h : Heap)

def note (list : Nat) (indices : List Nat) : Heap :=
  { h with accesses := h.accesses ++ indices.map fun i => ⟨list, i, h.allocated list⟩ }

def write (list i value : Nat) : Heap :=
  { h.note list [i] with cells := Function.update h.cells list (Function.update (h.cells list) i value) }

def memset (list : Nat) : Heap :=
  { h.note list (List.range maxFindListObjects) with
    cells := Function.update h.cells list fun i => if i < maxFindListObjects then 0 else h.cells list i }

def malloc (list : Nat) : Heap := { h with allocated := Function.update h.allocated list true }

def free (list : Nat) : Heap := { h with allocated := Function.update h.allocated list false }

def read (list start count : Nat) : Heap × List Nat :=
  (h.note list ((List.range count).map (start + ·)), (List.range count).map fun k => h.cells list (start + k))

end Heap

def templateCheckAttr (type : BitVec 64) : List Attribute → Option Attribute
  | [] => none
  | a :: rest => if type = a.type then some a else templateCheckAttr type rest

def templateCompare : List Attribute → List Attribute → Bool
  | [], _ => true
  | a :: rest, list =>
    match templateCheckAttr a.type list with
    | none => false
    | some b => if a.value.length ≠ b.value.length then false else if a.value ≠ b.value then false
      else templateCompare rest list

def selects (template : List Attribute) (o : Object) : Bool :=
  if template.length ≠ 0 then templateCompare template o.templateList else true

def findMatchingObjects (list : Nat) (template : List Attribute) : List Object → Nat → Heap → Nat × Heap
  | [], i, h => (i, h)
  | o :: rest, i, h =>
    if selects template o then
      if maxFindListObjects < i + 1 then (i + 1, h.write list i o.handle)
      else findMatchingObjects list template rest (i + 1) (h.write list i o.handle)
    else findMatchingObjects list template rest i h

structure Library where
  initialized : Bool
  sessions : Nat → Option Session
  objects : Nat → ObjectList
  heap : Heap

def Library.setSession (l : Library) (h : Nat) (s : Session) : Library :=
  { l with sessions := Function.update l.sessions h (some s) }

structure Answers where
  fetched : ObjectList
  fetchRv : Rv
  memory : Option Nat

-- A template of `none` is a null pointer with a count above zero.
def findObjectsInit (l : Library) (hSession : Nat) (template : Option (List Attribute)) (a : Answers) : Rv × Library :=
  if ¬ l.initialized then (.cryptokiNotInitialized, l)
  else
    match template with
    | none => (.argumentsBad, l)
    | some template =>
      match l.sessions hSession with
      | none => (.sessionHandleInvalid, l)
      | some s =>
        if s.opActive then (.operationActive, l)
        else if slotCount ≤ s.slotId then (.argumentsBad, l)
        else
          let empty := (l.objects s.slotId).objects = []
          let l := if empty then { l with objects := Function.update l.objects s.slotId a.fetched } else l
          if empty ∧ a.fetchRv ≠ .ok then (a.fetchRv, l)
          else
            let memory := if s.findList = 0 then a.memory.map fun b => (b, (l.heap.malloc b).memset b)
              else some (s.findList, l.heap)
            match memory with
            | none => (.hostMemory, l)
            | some (list, heap) =>
              let (count, heap) := findMatchingObjects list template (l.objects s.slotId).objects 0 heap
              (.ok, { l with heap := heap }.setSession hSession
                { s with findList := list, findCount := count, findIdx := 0, opActive := true })

def findObjects (l : Library) (hSession : Nat) (pointers : Bool) (ulMaxObjectCount : Nat) : Rv × List Nat × Library :=
  if ¬ l.initialized then (.cryptokiNotInitialized, [], l)
  else
    match l.sessions hSession with
    | none => (.sessionHandleInvalid, [], l)
    | some s =>
      if ¬ s.opActive then (.operationNotInitialized, [], l)
      else if ¬ pointers then (.argumentsBad, [], l)
      else
        let count := min ulMaxObjectCount (s.findCount - s.findIdx)
        let (heap, handles) := if count ≠ 0 then l.heap.read s.findList s.findIdx count else (l.heap, [])
        (.ok, handles, { l with heap := heap }.setSession hSession { s with findIdx := s.findIdx + count })

def findObjectsFinal (l : Library) (hSession : Nat) : Rv × Library :=
  if ¬ l.initialized then (.cryptokiNotInitialized, l)
  else
    match l.sessions hSession with
    | none => (.sessionHandleInvalid, l)
    | some s =>
      if ¬ s.opActive then (.operationNotInitialized, l)
      else
        let heap := if s.findList ≠ 0 then (l.heap.memset s.findList).free s.findList else l.heap
        (.ok, { l with heap := heap }.setSession hSession { s with opActive := false, findCount := 0, findIdx := 0 })

inductive Call where
  | init (hSession : Nat) (template : Option (List Attribute)) (answers : Answers)
  | find (hSession : Nat) (pointers : Bool) (ulMaxObjectCount : Nat)
  | final (hSession : Nat)

structure Search where
  selected : List Nat
  returned : List Nat
  exhausted : Bool
  deriving DecidableEq, Repr

structure World where
  library : Library
  searches : Nat → Option Search

def World.begin (w : World) (library : Library) (hSession : Nat) (template : List Attribute) : World :=
  match library.sessions hSession with
  | none => { w with library := library }
  | some s => ⟨library, Function.update w.searches hSession
      (some ⟨((library.objects s.slotId).objects.filter (selects template)).map Object.handle, [], false⟩)⟩

def World.hand (w : World) (library : Library) (hSession ulMaxObjectCount : Nat) (handles : List Nat) : World :=
  ⟨library, Function.update w.searches hSession ((w.searches hSession).map fun g =>
    { g with returned := g.returned ++ handles, exhausted := g.exhausted || (handles = [] ∧ 0 < ulMaxObjectCount) })⟩

def Answers.Lawful (a : Answers) (heap : Heap) : Prop := ∀ b ∈ a.memory, b ≠ 0 ∧ heap.allocated b = false

instance (a : Answers) (heap : Heap) : Decidable (a.Lawful heap) :=
  match found : a.memory with
  | none => isTrue fun _ member => by rw [found] at member; cases member
  | some b => decidable_of_iff (b ≠ 0 ∧ heap.allocated b = false)
      ⟨fun fresh _ member => by
        rw [found] at member
        cases member
        exact fresh, fun lawful => lawful b found⟩

def step (w : World) : Call → Option World
  | .init hSession template a =>
    if a.Lawful w.library.heap then
      let (rv, library) := findObjectsInit w.library hSession template a
      some (if rv = .ok then w.begin library hSession (template.getD []) else { w with library := library })
    else none
  | .find hSession pointers ulMaxObjectCount =>
    let (rv, handles, library) := findObjects w.library hSession pointers ulMaxObjectCount
    some (if rv = .ok then w.hand library hSession ulMaxObjectCount handles else { w with library := library })
  | .final hSession =>
    let (rv, library) := findObjectsFinal w.library hSession
    some (if rv = .ok then ⟨library, Function.update w.searches hSession none⟩ else { w with library := library })

def play : World → List Call → Option World
  | w, [] => some w
  | w, c :: cs => (step w c).bind (play · cs)

structure Opened (w : World) : Prop where
  searches : ∀ h, w.searches h = none
  sessions : ∀ h s, w.library.sessions h = some s → s.findList = 0 ∧ s.opActive = false
  accesses : w.library.heap.accesses = []

end Flexbuild.ObjectSearch
