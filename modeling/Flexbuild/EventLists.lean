import Flexbuild.EventManager

/-! The cells of the registrations. Every entry of the two tables heads a list of
cells, no cell is in two lists or in the pool as well, and an insertion or a removal
edits one list and moves the border of the pool by one. -/
namespace Flexbuild.EventManager
open Chains PriorityOrders

abbrev Cell := Node Registration

structure Heap (s : State) (lists : Slot → List Cell) : Prop where
  chains : ∀ slot, Seg layout s.memory (s.entry slot).head (lists slot) 0
  nodup : ∀ slot, (addrs (lists slot)).Nodup
  apart : ∀ a b, a ≠ b → ∀ p ∈ addrs (lists a), p ∉ addrs (lists b)
  nonzero : ∀ i, s.poolPointer ≤ i → i < numEvmngRegistrations → s.pool i ≠ 0
  free : ∀ i, s.poolPointer ≤ i → i < numEvmngRegistrations → ∀ slot, s.pool i ∉ addrs (lists slot)
  fresh : ∀ i j, s.poolPointer ≤ i → i < j → j < numEvmngRegistrations → s.pool i ≠ s.pool j
  room : s.poolPointer ≤ numEvmngRegistrations

def BehindHead (r : Registration) : List Registration → Prop
  | first :: second :: _ => first.priority ≤ r.priority ∧ r.priority < second.priority
  | _ => False

instance (r : Registration) : (l : List Registration) → Decidable (BehindHead r l)
  | [] => isFalse id
  | [_] => isFalse id
  | first :: second :: _ =>
    inferInstanceAs (Decidable (first.priority ≤ r.priority ∧ r.priority < second.priority))

section walks
variable {m : Nat → PriorityList} {r : Registration} {l pre post : List Cell} {x : Cell}
variable {fuel tmp a p : Nat}

theorem lastAddrCons : lastAddr (x :: pre) = if pre = [] then x.addr else lastAddr pre := by
  cases pre <;> rfl

theorem seekStop (chain : Seg layout m a l 0) (occupied : l ≠ []) (enough : l.length ≤ fuel) :
    ∃ pre x post, l = pre ++ x :: post ∧ (∀ n ∈ pre, n.value.priority ≤ p) ∧
      (post = [] ∨ p < x.value.priority) ∧
      seek m p fuel tmp a = (if pre = [] then tmp else lastAddr pre, x.addr) := by
  induction l generalizing a tmp fuel with
  | nil => exact absurd rfl occupied
  | cons x rest ih =>
    obtain ⟨fuel, rfl⟩ : ∃ n, fuel = n + 1 := Nat.exists_eq_succ_of_ne_zero (by simp at enough; omega)
    obtain ⟨rfl, nonzero, value, tail⟩ := chain
    have priority : (m x.addr).priority = x.value.priority := congrArg Registration.priority value
    by_cases onward : (m x.addr).next ≠ 0 ∧ (m x.addr).priority ≤ p
    · have occupied : rest ≠ [] := by
        rintro rfl
        exact onward.1 tail
      obtain ⟨pre, y, post, rfl, before, stop, found⟩ :=
        @ih _ x.addr _ tail occupied (by simpa using enough)
      refine ⟨x :: pre, y, post, rfl, ?_, stop, ?_⟩
      · rintro n (_ | ⟨_, member⟩)
        · exact priority ▸ onward.2
        · exact before n member
      · rw [seek, if_pos onward, if_neg (List.cons_ne_nil _ _), lastAddrCons]
        exact found
    · refine ⟨[], x, rest, rfl, by simp, ?_, by rw [seek, if_neg onward]; rfl⟩
      by_cases last : (m x.addr).next = 0
      · left
        cases rest with
        | nil => rfl
        | cons y rest => exact absurd (last.symm.trans tail.1).symm tail.2.1
      · right
        rw [← priority]
        exact Nat.not_le.mp fun small => onward ⟨last, small⟩

theorem locateStop (chain : Seg layout m a l 0) (enough : l.length ≤ fuel) :
    (r ∉ l.map Node.value ∧ (locate m r fuel tmp a).2 = 0) ∨
    ∃ pre x post, l = pre ++ x :: post ∧ x.value = r ∧ r ∉ pre.map Node.value ∧
      locate m r fuel tmp a = (if pre = [] then tmp else lastAddr pre, x.addr) := by
  induction l generalizing a tmp fuel with
  | nil =>
    left
    have zero : a = 0 := chain
    cases fuel <;> simp [locate, zero]
  | cons x rest ih =>
    obtain ⟨fuel, rfl⟩ : ∃ n, fuel = n + 1 := Nat.exists_eq_succ_of_ne_zero (by simp at enough; omega)
    obtain ⟨rfl, nonzero, value, tail⟩ := chain
    have here : ((m x.addr).cb = r.cb ∧ (m x.addr).priority = r.priority ∧
        (m x.addr).appCtx = r.appCtx) ↔ x.value = r := by
      rw [← value]
      change _ ↔ (m x.addr).toRegistration = r
      cases (m x.addr).toRegistration
      cases r
      simp only [Registration.mk.injEq]
      tauto
    rw [locate, if_neg nonzero]
    by_cases same : x.value = r
    · right
      refine ⟨[], x, rest, rfl, same, by simp, ?_⟩
      rw [if_pos (here.mpr same)]
      rfl
    · rw [if_neg (fun eq => same (here.mp eq))]
      rcases @ih _ x.addr _ tail (by simpa using enough) with ⟨absent, zero⟩ |
        ⟨pre, y, post, rfl, eq, absent, found⟩
      · exact .inl ⟨by simpa [Ne.symm same] using absent, zero⟩
      · refine .inr ⟨x :: pre, y, post, rfl, eq, by simpa [Ne.symm same] using absent, ?_⟩
        rw [if_neg (List.cons_ne_nil _ _), lastAddrCons]
        exact found

end walks

section heads
variable (s : State) (slot : Slot) (head : Nat)

theorem entrySetHead (a : Slot) : (s.setHead slot head).entry a =
    if a = slot then { s.entry slot with head := head } else s.entry a := by
  cases slot <;> cases a <;> simp [State.setHead, State.entry, Function.update_apply]

theorem entryClear (a : Slot) : (s.clearGenerator slot).entry a =
    if a = slot then { s.entry slot with generatorId := 0 } else s.entry a := by
  cases slot <;> cases a <;> simp [State.clearGenerator, State.entry, Function.update_apply]

@[simp] theorem memorySetHead : (s.setHead slot head).memory = s.memory := by cases slot <;> rfl
@[simp] theorem poolSetHead : (s.setHead slot head).pool = s.pool := by cases slot <;> rfl
@[simp] theorem pointerSetHead : (s.setHead slot head).poolPointer = s.poolPointer := by
  cases slot <;> rfl
@[simp] theorem lastUsedSetHead : (s.setHead slot head).lastUsedIndex = s.lastUsedIndex := by
  cases slot <;> rfl
@[simp] theorem memoryClear : (s.clearGenerator slot).memory = s.memory := by cases slot <;> rfl
@[simp] theorem poolClear : (s.clearGenerator slot).pool = s.pool := by cases slot <;> rfl
@[simp] theorem pointerClear : (s.clearGenerator slot).poolPointer = s.poolPointer := by
  cases slot <;> rfl
@[simp] theorem lastUsedClear : (s.clearGenerator slot).lastUsedIndex = s.lastUsedIndex := by
  cases slot <;> rfl

theorem setHeadSame : s.setHead slot (s.entry slot).head = s := by
  cases slot <;> simp [State.setHead, State.entry, Function.update_eq_self]

end heads

def State.linked (s : State) (slot : Slot) (link : (Nat → PriorityList) × Nat) : State :=
  { s with memory := link.1 }.setHead slot link.2

theorem linkedSame {s : State} {slot : Slot} {link : (Nat → PriorityList) × Nat}
    (same : link.2 = (s.entry slot).head) : s.linked slot link = { s with memory := link.1 } := by
  rw [State.linked, same]
  exact setHeadSame { s with memory := link.1 } slot

theorem relinkInside {m : Nat → PriorityList} {head prev new : Nat} (inside : prev ≠ 0) :
    relink layout m head prev new = (Function.update m prev { m prev with next := new }, head) := by
  rw [relink, if_neg inside]
  rfl

section edits
variable {s : State} {lists : Slot → List Cell} {slot : Slot} {r : Registration}
variable {pre post : List Cell} {x : Cell}

theorem addLinked (heap : Heap s lists) (space : s.poolPointer ≠ numEvmngRegistrations)
    (short : (lists slot).length ≤ numEvmngRegistrations)
    (careful : ¬ BehindHead r ((lists slot).map Node.value)) :
    ∃ pre post next, lists slot = pre ++ post ∧ (∀ n ∈ pre, n.value.priority ≤ r.priority) ∧
      (∀ n ∈ post.head?, r.priority < n.value.priority) ∧
      Seg layout s.memory next post 0 ∧
      addEventRegistration s r slot = ({ s with poolPointer := s.poolPointer + 1 }.linked slot
        (relink layout (Function.update s.memory (s.pool s.poolPointer) ⟨r, next⟩)
          (s.entry slot).head (lastAddr pre) (s.pool s.poolPointer)), .ok) := by
  have inside := lt_of_le_of_ne heap.room space
  have other := heap.free _ le_rfl inside
  have chain := heap.chains slot
  have nodup := heap.nodup slot
  simp only [addEventRegistration, if_neg space]
  generalize heap.nonzero _ le_rfl inside = nonzero
  generalize s.pool s.poolPointer = new at *
  have headSame : ({ s with
      poolPointer := s.poolPointer + 1
      memory := Function.update s.memory new ⟨r, 0⟩ } : State).entry slot = s.entry slot := by
    cases slot <;> rfl
  rw [headSame]
  by_cases empty : lists slot = []
  · rw [empty] at chain
    have zero : (s.entry slot).head = 0 := chain
    refine ⟨[], [], 0, empty, by simp, by simp, rfl, ?_⟩
    rw [if_neg (by simp [zero])]
    rfl
  have started : (s.entry slot).head ≠ 0 := by
    cases l : lists slot with
    | nil => exact absurd l empty
    | cons n rest =>
      rw [l] at chain
      exact chain.1 ▸ chain.2.1
  rw [if_pos started]
  have chain' := segUpdate (c := ⟨r, 0⟩) (other slot) chain
  obtain ⟨pre, x, post, split, before, stop, found⟩ :=
    @seekStop _ _ _ (s.entry slot).head _ r.priority chain' empty short
  simp only [found]
  rw [split] at chain chain' nodup
  obtain ⟨u, left, rfl, nonzeroX, value, right⟩ := segAppend.mp chain
  have valueX : (Function.update s.memory new ⟨r, 0⟩ x.addr).priority = x.value.priority := by
    rw [Function.update_of_ne (fun eq => other slot (by simp [split, ← eq]))]
    exact congrArg Registration.priority value
  rw [valueX]
  by_cases greater : r.priority < x.value.priority
  · refine ⟨pre, x :: post, x.addr, split, before, by simpa using greater,
      ⟨rfl, nonzeroX, value, right⟩, ?_⟩
    rw [if_pos greater]
    cases pre with
    | nil =>
      simp [State.setNext, State.linked, relink, lastAddr]
    | cons first pre =>
      cases pre with
      | nil =>
        -- The one place where the code takes the second cell for the first.
        refine absurd ?_ careful
        rw [split]
        exact ⟨before first (by simp), greater⟩
      | cons second pre =>
        have nonempty : lastAddr (second :: pre) ≠ 0 := by
          simpa using (lastAddrZero left.2.2.2).not.mpr (List.cons_ne_nil _ _)
        have inside := (lastAddrMem (second :: pre)).resolve_left nonempty
        have distinct : first.addr ∉ addrs (second :: pre) := by
          rw [List.cons_append, addrsCons, addrsAppend] at nodup
          exact fun member => (List.nodup_cons.mp nodup).1 (List.mem_append_left _ member)
        have apart : lastAddr (first :: second :: pre) ≠ (s.entry slot).head := by
          rw [left.1]
          exact fun eq => distinct (eq ▸ inside)
        rw [if_neg (List.cons_ne_nil _ _), if_pos apart]
        have linkedHere : lastAddr (first :: second :: pre) ≠ 0 := nonempty
        rw [relinkInside linkedHere, linkedSame (by cases slot <;> rfl)]
        simp [State.setNext]
  · have last : post = [] := stop.resolve_right greater
    subst last
    refine ⟨pre ++ [x], [], 0, by simpa using split, ?_, by simp, rfl, ?_⟩
    · intro n member
      rcases List.mem_append.mp member with member | member
      · exact before n member
      · rw [List.mem_singleton.mp member]
        exact not_lt.mp greater
    · rw [if_neg greater, lastAddrConcat, relinkInside nonzeroX,
        linkedSame (by cases slot <;> rfl)]
      simp [State.setNext]

@[simp] theorem memoryLinked (link : (Nat → PriorityList) × Nat) :
    (s.linked slot link).memory = link.1 := by simp [State.linked]

theorem linkChains {t : State} {link : (Nat → PriorityList) × Nat} {l : List Cell}
    (same : ∀ a, t.entry a = s.entry a) (chain : Seg layout link.1 link.2 l 0)
    (others : ∀ a ≠ slot, Seg layout link.1 (s.entry a).head (lists a) 0) (a : Slot) :
    Seg layout (t.linked slot link).memory ((t.linked slot link).entry a).head
      (Function.update lists slot l a) 0 := by
  by_cases here : a = slot
  · subst here
    simpa [State.linked, entrySetHead] using chain
  · have other : ({ t with memory := link.1 } : State).entry a = s.entry a := by
      rw [← same a]
      cases a <;> rfl
    simpa [State.linked, entrySetHead, here, other] using others a here

theorem apartUpdate {l : List Cell} (apart : ∀ a b, a ≠ b → ∀ p ∈ addrs (lists a), p ∉ addrs (lists b))
    (others : ∀ a ≠ slot, ∀ p ∈ addrs l, p ∉ addrs (lists a)) (a b : Slot) (different : a ≠ b) :
    ∀ p ∈ addrs (Function.update lists slot l a), p ∉ addrs (Function.update lists slot l b) := by
  intro p belongs
  by_cases first : a = slot
  · rw [first, Function.update_self] at belongs
    rw [Function.update_of_ne (fun eq => different (first.trans eq.symm))]
    exact others b (fun eq => different (first.trans eq.symm)) p belongs
  · rw [Function.update_of_ne first] at belongs
    by_cases second : b = slot
    · rw [second, Function.update_self]
      exact fun inserted => others a first p inserted belongs
    · rw [Function.update_of_ne second]
      exact apart a b different p belongs

theorem Heap.add {next : Nat} (heap : Heap s lists) (space : s.poolPointer ≠ numEvmngRegistrations)
    (split : lists slot = pre ++ post) (right : Seg layout s.memory next post 0) :
    Heap ({ s with poolPointer := s.poolPointer + 1 }.linked slot
        (relink layout (Function.update s.memory (s.pool s.poolPointer) ⟨r, next⟩)
          (s.entry slot).head (lastAddr pre) (s.pool s.poolPointer)))
      (Function.update lists slot (pre ++ ⟨s.pool s.poolPointer, r⟩ :: post)) := by
  have inside := lt_of_le_of_ne heap.room space
  have other := heap.free _ le_rfl inside
  have chain := heap.chains slot
  have nodup := heap.nodup slot
  rw [split] at chain nodup
  obtain ⟨u, left, -⟩ := segAppend.mp chain
  have absent : s.pool s.poolPointer ∉ addrs pre ++ addrs post := by
    rw [← addrsAppend, ← split]
    exact other slot
  rw [List.mem_append, not_or] at absent
  have nodup' : (addrs (pre ++ ⟨s.pool s.poolPointer, r⟩ :: post)).Nodup := by
    rw [addrsAppend] at nodup
    rw [addrsAppend, addrsCons]
    exact List.nodup_middle.mpr (List.nodup_cons.mpr ⟨by simpa using absent, nodup⟩)
  have member : ∀ p, p ∈ addrs (pre ++ ⟨s.pool s.poolPointer, r⟩ :: post) →
      p = s.pool s.poolPointer ∨ p ∈ addrs (lists slot) := by
    intro p
    rw [split]
    simp only [addrsAppend, addrsCons, List.mem_append, List.mem_cons]
    tauto
  have after : ∀ i, ({ s with poolPointer := s.poolPointer + 1 }.linked slot
      (relink layout (Function.update s.memory (s.pool s.poolPointer) ⟨r, next⟩)
        (s.entry slot).head (lastAddr pre) (s.pool s.poolPointer))).poolPointer ≤ i →
      s.poolPointer + 1 ≤ i := by
    simp [State.linked]
  constructor
  case chains =>
    refine linkChains (fun a => by cases a <;> rfl) ?_ fun a different => ?_
    · exact segInsert (segUpdate absent.1 left) (segUpdate absent.2 right) nodup'
        (heap.nonzero _ le_rfl inside) (by rw [Function.update_self]; rfl)
        (by rw [Function.update_self]; rfl)
    · refine relinkApart (fun p belongs earlier => ?_) (segUpdate (other a) (heap.chains a))
      exact heap.apart a slot different p belongs (by rw [split]; simp [earlier])
  case nodup =>
    intro a
    by_cases here : a = slot
    · simpa [here] using nodup'
    · simpa [here] using heap.nodup a
  case apart =>
    refine apartUpdate heap.apart fun a different p inserted => ?_
    rcases member p inserted with rfl | belongs
    · exact other a
    · exact heap.apart slot a different.symm p belongs
  case nonzero =>
    intro i above
    have above := after i above
    simpa [State.linked] using heap.nonzero i (by omega)
  case free =>
    intro i above bound a belongs
    have above := after i above
    have apart := heap.free i (by omega) bound
    simp only [State.linked, poolSetHead] at belongs
    by_cases here : a = slot
    · rw [here, Function.update_self] at belongs
      rcases member _ belongs with same | belongs
      · exact heap.fresh _ i le_rfl (by omega) bound same.symm
      · exact apart _ belongs
    · rw [Function.update_of_ne here] at belongs
      exact apart a belongs
  case fresh =>
    intro i j above
    have above := after i above
    simpa [State.linked] using heap.fresh i j (by omega)
  case room => simpa [State.linked] using Nat.succ_le_of_lt inside

def State.unlinked (s : State) (slot : Slot) (pre post : List Cell) (x : Cell) : State :=
  let t := s.linked slot
    (relink layout s.memory (s.entry slot).head (lastAddr pre) (s.memory x.addr).next)
  let t := if pre ++ post = [] then t.clearGenerator slot else t
  { t with
    poolPointer := s.poolPointer - 1
    pool := Function.update s.pool (s.poolPointer - 1) x.addr }

theorem removeUnlinked (heap : Heap s lists) (short : (lists slot).length ≤ numEvmngRegistrations) :
    (r ∉ (lists slot).map Node.value ∧ removeEventRegistration s slot r = (s, .navail)) ∨
    ∃ pre x post, lists slot = pre ++ x :: post ∧ x.value = r ∧ r ∉ pre.map Node.value ∧
      removeEventRegistration s slot r = (s.unlinked slot pre post x, .ok) := by
  have chain := heap.chains slot
  have nodup := heap.nodup slot
  rcases @locateStop _ r _ _ (s.entry slot).head _ chain short with ⟨absent, zero⟩ |
    ⟨pre, x, post, split, value, absent, found⟩
  · refine .inl ⟨absent, ?_⟩
    rw [removeEventRegistration]
    by_cases empty : (s.entry slot).head = 0
    · rw [if_pos empty]
    · simp only [if_neg empty, zero, if_true]
  · refine .inr ⟨pre, x, post, split, value, absent, ?_⟩
    rw [split] at chain nodup
    obtain ⟨u, left, rfl, nonzero, -, right⟩ := segAppend.mp chain
    have started : (s.entry slot).head ≠ 0 := by
      cases pre with
      | nil => exact left ▸ nonzero
      | cons first pre => exact left.1 ▸ left.2.1
    simp only [removeEventRegistration, if_neg started, found, if_neg nonzero]
    cases pre with
    | nil =>
      have same : x.addr = (s.entry slot).head := left.symm
      have right : Seg layout s.memory (s.memory x.addr).next post 0 := right
      have ends : (s.memory x.addr).next = 0 ↔ post = [] :=
        ⟨fun zero => segHeadZero (zero ▸ right), fun empty => by subst empty; exact right⟩
      have moved : s.linked slot (relink layout s.memory (s.entry slot).head
          (lastAddr ([] : List Cell)) (s.memory x.addr).next) = s.setHead slot (s.memory x.addr).next := rfl
      simp only [State.unlinked, moved, List.nil_append, ← ends]
      by_cases zero : (s.memory x.addr).next = 0 <;> simp [← same, zero]
    | cons first pre =>
      have nonempty : lastAddr (first :: pre) ≠ 0 := (lastAddrZero left).not.mpr (List.cons_ne_nil _ _)
      have apart : x.addr ≠ (s.entry slot).head := by
        rw [left.1, ne_comm]
        rw [List.cons_append, addrsCons] at nodup
        exact fun eq => (List.nodup_cons.mp nodup).1 (by simp [eq])
      have next : (if (s.memory x.addr).next ≠ 0 then
          s.setNext (lastAddr (first :: pre)) (s.memory x.addr).next
          else s.setNext (lastAddr (first :: pre)) 0) =
          s.setNext (lastAddr (first :: pre)) (s.memory x.addr).next := by
        split
        · rfl
        · rename_i zero
          rw [not_not.mp zero]
      simp only [if_neg (List.cons_ne_nil first pre), if_pos apart, next, State.unlinked,
        relinkInside nonempty, List.cons_append, if_neg (List.cons_ne_nil _ _)]
      rw [linkedSame rfl]
      rfl

theorem entryUnlinkedHead (a : Slot) : ((s.unlinked slot pre post x).entry a).head =
    ((s.linked slot (relink layout s.memory (s.entry slot).head (lastAddr pre)
      (s.memory x.addr).next)).entry a).head := by
  have pooled (t : State) (p : Nat) (pool : Nat → Nat) :
      ({ t with poolPointer := p, pool := pool } : State).entry a = t.entry a := by cases a <;> rfl
  rw [State.unlinked, pooled]
  split
  · rw [entryClear]
    split
    · rename_i same
      rw [same]
    · rfl
  · rfl

theorem memoryUnlinked : (s.unlinked slot pre post x).memory =
    (relink layout s.memory (s.entry slot).head (lastAddr pre) (s.memory x.addr).next).1 := by
  rw [State.unlinked]
  split <;> simp [State.linked]

theorem Heap.remove (heap : Heap s lists) (taken : 0 < s.poolPointer)
    (split : lists slot = pre ++ x :: post) :
    Heap (s.unlinked slot pre post x) (Function.update lists slot (pre ++ post)) := by
  have chain := heap.chains slot
  have nodup := heap.nodup slot
  rw [split] at chain nodup
  have member : ∀ p ∈ addrs (pre ++ post), p ∈ addrs (lists slot) := by
    intro p
    rw [split]
    simp only [addrsAppend, addrsCons, List.mem_append, List.mem_cons]
    tauto
  have here : x.addr ∈ addrs (lists slot) := by simp [split]
  have gone : x.addr ∉ addrs (pre ++ post) := by
    have middle := (List.perm_middle (a := x.addr)).nodup_iff.mp
      (by simpa only [addrsAppend, addrsCons] using nodup)
    simpa using (List.nodup_cons.mp middle).1
  constructor
  case chains =>
    intro a
    rw [memoryUnlinked, entryUnlinkedHead]
    have linked := @linkChains s lists slot s _ _ (fun a => rfl)
      (segUnlink chain nodup) (fun a different => ?_) a
    · rw [memoryLinked] at linked
      exact linked
    · refine relinkApart (fun p belongs earlier => ?_) (heap.chains a)
      exact heap.apart a slot different p belongs (by rw [split]; simp [earlier])
  case nodup =>
    intro a
    by_cases same : a = slot
    · subst same
      rw [Function.update_self]
      refine nodup.sublist ?_
      simp
    · simpa [same] using heap.nodup a
  case apart =>
    exact apartUpdate heap.apart fun a different p inserted =>
      heap.apart slot a different.symm p (member p inserted)
  case nonzero =>
    intro i (above : s.poolPointer - 1 ≤ i) bound
    change Function.update s.pool (s.poolPointer - 1) x.addr i ≠ 0
    by_cases top : i = s.poolPointer - 1
    · rw [top, Function.update_self]
      exact fun zero => segNonzero (heap.chains slot) (zero ▸ here)
    · rw [Function.update_of_ne top]
      exact heap.nonzero i (by omega) bound
  case free =>
    intro i (above : s.poolPointer - 1 ≤ i) bound a
    change Function.update s.pool (s.poolPointer - 1) x.addr i ∉ _
    by_cases top : i = s.poolPointer - 1
    · rw [top, Function.update_self]
      by_cases same : a = slot
      · simpa [same] using gone
      · rw [Function.update_of_ne same]
        exact heap.apart slot a (Ne.symm same) _ here
    · rw [Function.update_of_ne top]
      have apart := heap.free i (by omega) bound
      by_cases same : a = slot
      · rw [same, Function.update_self]
        exact fun kept => apart slot (member _ kept)
      · rw [Function.update_of_ne same]
        exact apart a
  case fresh =>
    intro i j (above : s.poolPointer - 1 ≤ i) less bound
    change Function.update s.pool (s.poolPointer - 1) x.addr i ≠
      Function.update s.pool (s.poolPointer - 1) x.addr j
    rw [Function.update_of_ne (a := j) (by omega)]
    by_cases top : i = s.poolPointer - 1
    · rw [top, Function.update_self]
      exact fun eq => heap.free j (by omega) bound slot (eq ▸ here)
    · rw [Function.update_of_ne top]
      exact heap.fresh i j (by omega) less bound
  case room => exact Nat.le_trans (Nat.sub_le _ _) heap.room

end edits

end Flexbuild.EventManager
