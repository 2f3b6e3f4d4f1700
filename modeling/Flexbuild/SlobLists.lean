import Flexbuild.SlobModel
import Mathlib.Algebra.BigOperators.Group.Finset.Basic
import Mathlib.Algebra.Order.BigOperators.Group.Finset
import Mathlib.Algebra.Order.Group.Multiset
import Mathlib.Tactic.Abel

/-! The allocator over lists of blocks instead of linked descriptors. Each function
follows its counterpart on memory branch by branch; `none` is an empty pool. A view
also names the descriptors taken from the pool that no list holds yet. -/
namespace Flexbuild.Slob
open Words BootMemory

structure View where
  lists : Which → List Node
  held : List Node
  spare : List Nat
  freeMemSize : Nat

namespace View

def setList (v : View) (w : Which) (xs : List Node) : View :=
  {v with lists := Function.update v.lists w xs}

end View

def cutNodes (holdBase holdEnd : Nat) (i : Index) : List Node → List Nat → Option (List Node × List Nat)
  | [], spare => some ([], spare)
  | n :: rest, spare =>
    let b := n.value
    let alignBase := alignUp 64 holdEnd (alignment i)
    let size := minus 64 b.endAddr alignBase
    if holdBase ≤ b.base ∧ holdEnd ≤ b.endAddr ∧ b.base < holdEnd then
      if b.endAddr ≤ alignBase ∨ alignBase < b.endAddr ∧ size < alignment i then
        some (rest, n.addr :: spare)
      else some (⟨n.addr, alignBase, b.endAddr⟩ :: rest, spare)
    else if b.base < holdBase ∧ holdEnd ≤ b.endAddr then
      if alignment i ≤ minus 64 holdBase b.base then
        if alignBase < b.endAddr ∧ alignment i ≤ size then
          match spare with
          | [] => none
          | new :: spare => some (⟨n.addr, b.base, holdBase⟩ ::
              ⟨new, alignBase, wrap 64 (alignBase + size)⟩ :: rest, spare)
        else some (⟨n.addr, b.base, holdBase⟩ :: rest, spare)
      else if alignBase < b.endAddr ∧ alignment i ≤ size then
        some (⟨n.addr, alignBase, b.endAddr⟩ :: rest, spare)
      else some (rest, n.addr :: spare)
    else (cutNodes holdBase holdEnd i rest spare).map (fun r => (n :: r.1, r.2))

def eliminateNodes (endAddr : Nat) (n : Node) : List Node → List Nat → Node × List Node × List Nat
  | [], spare => (⟨n.addr, n.value.base, endAddr⟩, [], spare)
  | next :: rest, spare =>
    if next.value.endAddr < endAddr then eliminateNodes endAddr n rest (next.addr :: spare)
    else if endAddr < next.value.base then (⟨n.addr, n.value.base, endAddr⟩, next :: rest, spare)
    else (⟨n.addr, n.value.base, next.value.endAddr⟩, rest, next.addr :: spare)

structure Added where
  nodes : List Node
  spare : List Nat
  merged : Option Span
  deriving DecidableEq, Repr

def absorbNodes (i : Index) (alignBase endAddr size : Nat) (n : Node) (rest : List Node)
    (spare : List Nat) : Added :=
  let grow := alignBase < n.value.base ∧ n.value.base ≤ endAddr
  let b : Span := if grow then ⟨alignBase, n.value.endAddr⟩ else n.value
  if minus 64 b.endAddr b.base < alignment i then
    if alignment i ≤ size then ⟨[⟨n.addr, alignBase, wrap 64 (alignBase + size)⟩], spare, none⟩
    else ⟨rest, n.addr :: spare, none⟩
  else ⟨⟨n.addr, b⟩ :: rest, spare, some b⟩

def addNodes (i : Index) (alignBase endAddr size : Nat) : List Node → List Nat → Option Added
  | [], spare =>
    if alignment i ≤ size then
      match spare with
      | [] => none
      | new :: spare => some ⟨[⟨new, alignBase, wrap 64 (alignBase + size)⟩], spare, none⟩
    else some ⟨[], spare, none⟩
  | n :: rest, spare =>
    if alignBase ≤ n.value.endAddr then
      if n.value.endAddr < endAddr then
        let (n, rest, spare) := eliminateNodes endAddr n rest spare
        some (absorbNodes i alignBase endAddr size n rest spare)
      else if endAddr < n.value.base then
        match spare with
        | [] => none
        | new :: spare => some ⟨⟨new, alignBase, wrap 64 (alignBase + size)⟩ :: n :: rest, spare, none⟩
      else some (absorbNodes i alignBase endAddr size n rest spare)
    else (addNodes i alignBase endAddr size rest spare).map (fun r => {r with nodes := n :: r.nodes})

def boundaries (i : Index) (merged : Option Span) (bounds : Span) : Span :=
  match merged with
  | none => bounds
  | some b =>
    if alignment i = 1 then
      ⟨if b.base < bounds.base then b.base else bounds.base,
        if bounds.endAddr < b.endAddr then b.endAddr else bounds.endAddr⟩
    else bounds

def busyNodes (new : Node) : List Node → List Node
  | [] => [new]
  | n :: rest => if n.value.base < new.value.base then n :: busyNodes new rest else new :: n :: rest

def takeBusy (base : Nat) : List Node → Option (Node × List Node)
  | [] => none
  | n :: rest => if base ≠ n.value.base then (takeBusy base rest).map (fun r => (r.1, n :: r.2))
    else some (n, rest)

namespace View

def cut (holdBase holdEnd : Nat) : List Index → View → Except Errno Unit × View
  | [], v => (.ok (), v)
  | i :: rest, v =>
    match cutNodes holdBase holdEnd i (v.lists (.free i)) v.spare with
    | none => (.error .enomem, v)
    | some (nodes, spare) => cut holdBase holdEnd rest {v.setList (.free i) nodes with spare := spare}

def addList (i : Index) (bounds : Span) (v : View) : Option (Span × View) :=
  let alignBase := alignUp 64 bounds.base (alignment i)
  if bounds.endAddr ≤ alignBase then some (bounds, v) else
  (addNodes i alignBase bounds.endAddr (minus 64 bounds.endAddr alignBase) (v.lists (.free i)) v.spare).map
    (fun r => (boundaries i r.merged bounds, {v.setList (.free i) r.nodes with spare := r.spare}))

def add : List Index → Span → View → Except Errno Unit × View
  | [], _, v => (.ok (), v)
  | i :: rest, bounds, v =>
    match v.addList i bounds with
    | none => (.error .enomem, v)
    | some (bounds, v) => add rest bounds v

def getAlignment (v : View) (size : Nat) (i : Index) : Except Refusal Nat × View :=
  match v.lists (.free i) with
  | [] => (.error .noBlock, v)
  | first :: rest =>
    if first.value.endAddr = 0 then (.error .noBlock, v) else
    match (first :: rest).find? (fun n => size ≤ minus 64 n.value.endAddr n.value.base) with
    | none => (.error .noBlock, v)
    | some found =>
      match v.spare with
      | [] => (.error .noDescriptor, v)
      | addr :: spare =>
        let busy : Node := ⟨addr, found.value.base, wrap 64 (found.value.base + size)⟩
        match cut busy.value.base busy.value.endAddr (List.finRange (mmMaxAlignment + 1))
            {v with held := busy :: v.held, spare := spare} with
        | (.error _, v') => (.error .noDescriptor, {v' with held := v.held, spare := addr :: v'.spare})
        | (.ok (), v') => (.ok busy.value.base,
            {v'.setList .busy (busyNodes busy (v'.lists .busy)) with
              held := v.held, freeMemSize := minus 64 v'.freeMemSize size})

def get (v : View) (size align : Nat) : Except Refusal Nat × View :=
  if align &&& (align - 1) ≠ 0 then (.error .badAlignment, v) else
  let align := if align = 0 then 1 else align
  if mmMaxAlignment < Nat.log2 align then v.getAlignment size (Fin.last mmMaxAlignment)
  else v.getAlignment size (Fin.ofNat (mmMaxAlignment + 1) (Nat.log2 align))

def put (v : View) (base : Nat) : Except Refusal Nat × View :=
  match takeBusy base (v.lists .busy) with
  | none => (.error .notBusy, v)
  | some (busy, rest) =>
    match add (List.finRange (mmMaxAlignment + 1)) busy.value v with
    | (.error _, v) => (.error .noDescriptor, v)
    | (.ok (), v) =>
      let size := minus 64 busy.value.endAddr busy.value.base
      (.ok size, {v.setList .busy rest with
        spare := busy.addr :: v.spare, freeMemSize := wrap 64 (v.freeMemSize + size)})

def firstSpan (base size : Nat) (i : Index) : Span :=
  let newBase := alignUp 64 base (alignment i)
  let offset := minus 64 newBase base
  if size < offset then ⟨0, 0⟩ else ⟨newBase, wrap 64 (newBase + minus 64 size offset)⟩

def initLists (base size : Nat) : List Index → View → Option View
  | [], v => some v
  | i :: rest, v =>
    match v.spare with
    | [] => none
    | addr :: spare => initLists base size rest {v.setList (.free i) [⟨addr, firstSpan base size i⟩] with spare := spare}

def init (base size : Nat) (spare : List Nat) : Option View :=
  let v : View := ⟨fun _ => [], [], spare, size⟩
  if size = 0 then some v else initLists base size (List.finRange (mmMaxAlignment + 1)) v

theorem cutFrame (holdBase holdEnd : Nat) (lists : List Index) (v : View) :
    (v.cut holdBase holdEnd lists).2.held = v.held ∧
      (v.cut holdBase holdEnd lists).2.lists .busy = v.lists .busy ∧
      (v.cut holdBase holdEnd lists).2.freeMemSize = v.freeMemSize := by
  induction lists generalizing v with
  | nil => exact ⟨rfl, rfl, rfl⟩
  | cons i rest ih =>
    unfold cut
    split
    · exact ⟨rfl, rfl, rfl⟩
    · rename_i nodes spare _
      have next := ih {v.setList (.free i) nodes with spare := spare}
      simpa [setList] using next

theorem addFrame (lists : List Index) (bounds : Span) (v : View) :
    (v.add lists bounds).2.held = v.held ∧
      (v.add lists bounds).2.lists .busy = v.lists .busy ∧
      (v.add lists bounds).2.freeMemSize = v.freeMemSize := by
  induction lists generalizing v bounds with
  | nil => exact ⟨rfl, rfl, rfl⟩
  | cons i rest ih =>
    unfold add
    split
    · exact ⟨rfl, rfl, rfl⟩
    · rename_i bounds' v' step
      have same : v'.held = v.held ∧ v'.lists .busy = v.lists .busy ∧ v'.freeMemSize = v.freeMemSize := by
        unfold addList at step
        simp only [] at step
        split_ifs at step
        · cases step
          exact ⟨rfl, rfl, rfl⟩
        · obtain ⟨r, _, made⟩ := Option.map_eq_some_iff.mp step
          cases made
          simp [setList]
      obtain ⟨held, busy, free⟩ := ih bounds' v'
      exact ⟨held.trans same.1, busy.trans same.2.1, free.trans same.2.2⟩

def first (v : View) (size : Nat) (i : Index) : Option Node :=
  (v.lists (.free i)).find? (fun n => size ≤ minus 64 n.value.endAddr n.value.base)

inductive GetStep (v : View) (size : Nat) (i : Index) : Except Refusal Nat × View → Prop where
  | noBlock (none : v.lists (.free i) = [] ∨
        (∃ n rest, v.lists (.free i) = n :: rest ∧ n.value.endAddr = 0) ∨
        ∀ n ∈ v.lists (.free i), minus 64 n.value.endAddr n.value.base < size) :
      GetStep v size i (.error .noBlock, v)
  | noDescriptor (found : Node) (search : v.first size i = some found) (mem : found ∈ v.lists (.free i))
      (fits : size ≤ minus 64 found.value.endAddr found.value.base) (empty : v.spare = []) :
      GetStep v size i (.error .noDescriptor, v)
  | cutShort (found : Node) (search : v.first size i = some found) (mem : found ∈ v.lists (.free i))
      (fits : size ≤ minus 64 found.value.endAddr found.value.base) (addr : Nat) (spare : List Nat)
      (some : v.spare = addr :: spare) (e : Errno) (v' : View)
      (failed : View.cut found.value.base (wrap 64 (found.value.base + size)) (List.finRange (mmMaxAlignment + 1))
        {v with held := ⟨addr, found.value.base, wrap 64 (found.value.base + size)⟩ :: v.held, spare := spare} =
          (.error e, v')) :
      GetStep v size i (.error .noDescriptor, {v' with held := v.held, spare := addr :: v'.spare})
  | done (found : Node) (search : v.first size i = some found) (mem : found ∈ v.lists (.free i))
      (fits : size ≤ minus 64 found.value.endAddr found.value.base) (addr : Nat) (spare : List Nat)
      (some : v.spare = addr :: spare) (v' : View)
      (cut : View.cut found.value.base (wrap 64 (found.value.base + size)) (List.finRange (mmMaxAlignment + 1))
        {v with held := ⟨addr, found.value.base, wrap 64 (found.value.base + size)⟩ :: v.held, spare := spare} =
          (.ok (), v')) :
      GetStep v size i (.ok found.value.base,
        {v'.setList .busy
            (busyNodes ⟨addr, found.value.base, wrap 64 (found.value.base + size)⟩ (v'.lists .busy)) with
          held := v.held, freeMemSize := minus 64 v'.freeMemSize size})

theorem getStep (v : View) (size : Nat) (i : Index) : GetStep v size i (v.getAlignment size i) := by
  unfold getAlignment
  split
  · rename_i nil
    exact .noBlock (Or.inl nil)
  rename_i head rest list
  split_ifs with dead
  · exact .noBlock (Or.inr (Or.inl ⟨head, rest, list, dead⟩))
  split
  · rename_i none
    refine .noBlock (Or.inr (Or.inr ?_))
    rw [list]
    simpa using none
  rename_i found search
  have here : v.first size i = some found := by rw [View.first, list]; exact search
  have mem : found ∈ v.lists (.free i) := List.mem_of_find?_eq_some here
  have fits : size ≤ minus 64 found.value.endAddr found.value.base := by simpa using List.find?_some search
  split
  · rename_i empty
    exact .noDescriptor found here mem fits empty
  rename_i addr spare some
  simp only []
  split
  · rename_i e v' failed
    exact .cutShort found here mem fits addr spare some e v' failed
  · rename_i v' cut
    exact .done found here mem fits addr spare some v' cut

inductive PutStep (v : View) (base : Nat) : Except Refusal Nat × View → Prop where
  | notBusy (none : takeBusy base (v.lists .busy) = none) : PutStep v base (.error .notBusy, v)
  | addShort (busy : Node) (rest : List Node) (taken : takeBusy base (v.lists .busy) = some (busy, rest))
      (e : Errno) (v' : View) (failed : v.add (List.finRange (mmMaxAlignment + 1)) busy.value = (.error e, v')) :
      PutStep v base (.error .noDescriptor, v')
  | done (busy : Node) (rest : List Node) (taken : takeBusy base (v.lists .busy) = some (busy, rest))
      (v' : View) (added : v.add (List.finRange (mmMaxAlignment + 1)) busy.value = (.ok (), v')) :
      PutStep v base (.ok (minus 64 busy.value.endAddr busy.value.base),
        {v'.setList .busy rest with
          spare := busy.addr :: v'.spare,
          freeMemSize := wrap 64 (v'.freeMemSize + minus 64 busy.value.endAddr busy.value.base)})

theorem putStep (v : View) (base : Nat) : PutStep v base (v.put base) := by
  unfold put
  split
  · rename_i none
    exact .notBusy none
  rename_i busy rest taken
  split
  · rename_i e v' failed
    exact .addShort busy rest taken e v' failed
  · rename_i v' added
    exact .done busy rest taken v' added

end View

end Flexbuild.Slob
