import Flexbuild.IprArrivals

/-! Closing a context. The frames are concatenated in the order of the prefix and then of the
list, the first as it is and every other one without its header; on a timeout all but one are
discarded and that one goes to the callback. -/
namespace Flexbuild.IprFragments
open Words Links Tilings

structure Piece where
  slot : Nat
  fd : Option Fd
  trim : Nat
  deriving DecidableEq, Repr

def Context.presented (c : Context) (slot : Nat) : Piece := ⟨slot, c.fdAt slot, 0⟩

def Context.concatenated (c : Context) (slot : Nat) : Piece :=
  ⟨slot, c.fdAt slot, ((c.fdAt slot).map fun fd => wrap 8 fd.frc).getD 0⟩

def closingRest (c : Context) : Nat → Nat → List Piece
  | _, 0 => []
  | slot, 1 => [c.concatenated slot]
  | slot, numOfFrags + 2 =>
      c.concatenated slot :: c.concatenated (slot + 1) :: closingRest c (slot + 2) numOfFrags

def closingInOrder (c : Context) (numOfFrags : Nat) : List Piece :=
  c.presented 0 :: c.concatenated 1 :: closingRest c 2 (minus 8 numOfFrags 2)

def closingWalk (c : Context) : Nat → Nat → Nat → LinkList → List Piece
  | 0, _, _, _ => []
  | numOfFrags + 1, current, octetIndex, linkList =>
      let linkList := if current / 8 = octetIndex then linkList else readOctet c.links (current / 8)
      let current' := (linkList (current % 8)).nextIndex
      c.concatenated current' :: closingWalk c numOfFrags current' (current / 8) linkList

def invalidOctet : Nat := 255

def closingWithReordering (c : Context) : List Piece :=
  let r := c.rfdc
  let current := r.firstFragIndex
  if r.orderAndOoo then
    if r.indexToOutOfOrder = 1 then
      c.presented 0 :: c.concatenated current ::
        closingWalk c (minus 8 r.numOfFrags 2) current invalidOctet default
    else
      closingInOrder c r.indexToOutOfOrder ++ c.concatenated current ::
        closingWalk c (minus 8 (minus 8 r.numOfFrags r.indexToOutOfOrder) 1) current invalidOctet
          default
  else
    let octetIndex := current / 8
    let linkList := readOctet c.links octetIndex
    let second := (linkList (current % 8)).nextIndex
    c.presented current :: c.concatenated second ::
      closingWalk c (minus 8 r.numOfFrags 2) second octetIndex linkList

def Context.firstSlot (c : Context) : Nat :=
  if c.rfdc.outOfOrder && !c.rfdc.orderAndOoo then c.rfdc.firstFragIndex else 0

structure Expired where
  discarded : List (Nat × Option Fd)
  handed : Option ((Nat × Option Fd) × Bool)
  deriving DecidableEq, Repr

def Context.close (c : Context) : Context := { c with rfdc := { c.rfdc with valid := false } }

def Context.taken (c : Context) (slot : Nat) : Nat × Option Fd := (slot, c.fdAt slot)

def iprTimeOut (c : Context) : Context × Expired :=
  if !c.rfdc.valid then (c, ⟨[], none⟩)
  else if c.rfdc.numOfFrags = 0 then (c.close, ⟨[], none⟩)
  else
    let others := (List.range c.rfdc.numOfFrags).filter fun index => index != c.firstSlot
    (c.close, ⟨others.map c.taken, some (c.taken c.firstSlot, c.rfdc.firstArrived)⟩)

section
variable {c : Context}

def Context.pieces (c : Context) : List Nat → List Piece
  | [] => []
  | slot :: slots => c.presented slot :: slots.map c.concatenated

theorem closingRestSlots (numOfFrags slot : Nat) :
    closingRest c slot numOfFrags = (List.range' slot numOfFrags).map c.concatenated := by
  induction numOfFrags using Nat.twoStepInduction generalizing slot with
  | zero => rfl
  | one => rfl
  | more numOfFrags ih _ => simp [closingRest, ih, List.range'_succ]

theorem closingInOrderPieces {n : Nat} (two : 2 ≤ n) (few : n ≤ maxNumOfFrags) :
    closingInOrder c n = c.pieces (List.range n) := by
  obtain ⟨m, rfl⟩ : ∃ m, n = m + 2 := ⟨n - 2, by omega⟩
  have narrow : m + 2 ≤ 64 := few
  have rest : minus 8 (m + 2) 2 = m := by rw [minusExact (by omega) (by omega), Nat.add_sub_cancel]
  rw [closingInOrder, rest, closingRestSlots, List.range_eq_range', List.range'_succ,
    List.range'_succ]
  rfl

theorem closingWalkSlots {l : List Nat} {current octetIndex : Nat} {linkList : LinkList}
    (linked : LinkedBy c.links (current :: l)) (small : ∀ i ∈ current :: l, i < maxNumOfFrags)
    (inHand : octetIndex = invalidOctet ∨ linkList = readOctet c.links octetIndex) :
    closingWalk c l.length current octetIndex linkList = l.map c.concatenated := by
  induction l generalizing current octetIndex linkList with
  | nil => rfl
  | cons b l ih =>
    obtain ⟨⟨here, -⟩, rest⟩ := List.isChain_cons_cons.mp linked
    have low := small current List.mem_cons_self
    have buffer : (if current / 8 = octetIndex then linkList else readOctet c.links (current / 8)) =
        readOctet c.links (current / 8) := by
      split
      · next same =>
        rcases inHand with invalid | read
        · simp only [maxNumOfFrags, invalidOctet] at low invalid
          omega
        · rw [read, same]
      · rfl
    have next : (c.links current).nextIndex = b := here
    rw [List.length_cons, closingWalk]
    simp only [buffer, readOctetSame, next]
    rw [ih rest (fun i inside => small i (List.mem_cons_of_mem _ inside)) (.inr rfl)]
    rfl

theorem closingPieces {k n : Nat} {order : List Nat} (listed : Listed c k n order) (two : 2 ≤ n)
    (ooo : c.rfdc.outOfOrder = true) :
    closingWithReordering c = c.pieces (List.range k ++ order) := by
  have few : n ≤ 64 := listed.few
  have length := listed.length
  have begun := listed.begun ooo
  obtain ⟨a, rest, rfl⟩ := List.exists_cons_of_ne_nil (listed.nonempty ooo)
  have first : c.rfdc.firstFragIndex = a := listed.first a rfl
  have small : ∀ i ∈ a :: rest, i < maxNumOfFrags := fun i inside =>
    ((listed.mem.mp inside).2).trans_le listed.few
  simp only [List.length_cons] at length
  unfold closingWithReordering
  simp only [first, listed.counted, readOctetSame]
  have lessTwo : minus 8 n 2 = n - 2 := minusExact two (by omega)
  cases mixed : c.rfdc.orderAndOoo with
  | true =>
    obtain ⟨index, positive⟩ := listed.mixed ooo mixed
    rw [← index, if_pos rfl]
    by_cases one : k = 1
    · subst one
      have walked : n - 2 = rest.length := by omega
      rw [if_pos rfl, lessTwo, walked, closingWalkSlots listed.linked small (.inl rfl)]
      rfl
    · have lessPrefix : minus 8 n k = n - k := minusExact listed.below (by omega)
      have lessOne : minus 8 (n - k) 1 = rest.length := by
        rw [minusExact (by omega) (by omega)]
        omega
      rw [if_neg one, lessPrefix, lessOne, closingWalkSlots listed.linked small (.inl rfl),
        closingInOrderPieces (by omega) (by simp only [maxNumOfFrags]; omega)]
      obtain ⟨m, rfl⟩ : ∃ m, k = m + 1 := ⟨k - 1, by omega⟩
      simp [List.range_succ_eq_map, Context.pieces]
  | false =>
    obtain ⟨rfl, -⟩ := listed.alone ooo mixed
    obtain ⟨b, l, rfl⟩ : ∃ b l, rest = b :: l :=
      List.exists_cons_of_ne_nil (by rintro rfl; simp at length; omega)
    obtain ⟨⟨here, -⟩, linked⟩ := List.isChain_cons_cons.mp listed.linked
    have next : (c.links a).nextIndex = b := here
    have walked : n - 2 = l.length := by
      simp only [List.length_cons] at length
      omega
    simp only [next, lessTwo, walked]
    rw [closingWalkSlots linked (fun i inside => small i (List.mem_cons_of_mem _ inside)) (.inr rfl)]
    simp [Context.pieces]

end

end Flexbuild.IprFragments
