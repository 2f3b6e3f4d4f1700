import Flexbuild.EventLists

/-! The event manager as a registry of priorities. The two tables and their lists
hold what was registered and not removed since, in the order of priority and then of
registration, as long as no call meets one of the two places that lose registrations:
a cell that belongs right behind the head, and a removal from the last used entry that
leaves others there. -/
namespace Flexbuild.EventManager
open Chains PriorityOrders

def State.Used (s : State) : Slot → Prop
  | .irq i => i < numOfIrqEvents
  | .event i => i < s.lastUsedIndex ∧ (s.events i).generatorId ≠ 0

def State.keyOf (s : State) : Slot → Key
  | .irq i => .irq i
  | .event i => .event (s.events i).generatorId (s.events i).eventId

structure Kept (s : State) (live : Live) (lists : Slot → List Cell) : Prop where
  heap : Heap s lists
  bound : s.lastUsedIndex ≤ maxNumOfEvents
  unused : ∀ slot, ¬ s.Used slot → lists slot = []
  unique : ∀ a b, s.Used a → s.Used b → s.keyOf a = s.keyOf b → a = b
  ordered : ∀ slot, s.Used slot →
    Stable Registration.priority (among (s.keyOf slot) live) ((lists slot).map Node.value)
  housed : ∀ k r, (k, r) ∈ live → ∃ slot, s.Used slot ∧ s.keyOf slot = k
  taken : s.poolPointer = live.length

section
variable {s s' : State} {live live' : Live} {lists : Slot → List Cell} {slot : Slot} {k : Key}
variable {r : Registration} {l : List Cell}

theorem Kept.short (kept : Kept s live lists) (slot : Slot) :
    (lists slot).length ≤ numEvmngRegistrations := by
  by_cases used : s.Used slot
  · have same := (kept.ordered slot used).perm.length_eq
    rw [List.length_map] at same
    calc (lists slot).length = (among (s.keyOf slot) live).length := same
      _ ≤ live.length := amongLength
      _ = s.poolPointer := kept.taken.symm
      _ ≤ numEvmngRegistrations := kept.heap.room
  · simp [kept.unused slot used]

theorem Kept.registrations (kept : Kept s live lists) (slot : Slot) :
    s.registrations slot = (lists slot).map Node.value := by
  rw [State.registrations, walkSeg (kept.heap.chains slot) (kept.short slot)]

theorem Kept.edit (kept : Kept s live lists) (used : s.Used slot)
    (heap : Heap s' (Function.update lists slot l)) (bound : s'.lastUsedIndex ≤ s.lastUsedIndex)
    (same : ∀ a, s'.Used a → s.Used a ∧ s'.keyOf a = s.keyOf a)
    (dropped : ∀ a, s.Used a → ¬ s'.Used a → a = slot ∧ l = [])
    (stable : Stable Registration.priority (among (s.keyOf slot) live') (l.map Node.value))
    (elsewhere : ∀ k ≠ s.keyOf slot, among k live' = among k live)
    (taken : s'.poolPointer = live'.length) : Kept s' live' (Function.update lists slot l) := by
  refine ⟨heap, bound.trans kept.bound, ?_, ?_, ?_, ?_, taken⟩
  · intro a gone
    by_cases before : s.Used a
    · obtain ⟨rfl, empty⟩ := dropped a before gone
      rw [Function.update_self, empty]
    · have different : a ≠ slot := fun eq => before (eq ▸ used)
      rw [Function.update_of_ne different, kept.unused a before]
  · intro a b usedA usedB keys
    obtain ⟨beforeA, keyA⟩ := same a usedA
    obtain ⟨beforeB, keyB⟩ := same b usedB
    exact kept.unique a b beforeA beforeB (by rw [← keyA, keys, keyB])
  · intro a usedA
    obtain ⟨before, key⟩ := same a usedA
    rw [key]
    by_cases here : a = slot
    · rw [here, Function.update_self]
      exact stable
    · rw [Function.update_of_ne here,
        elsewhere _ (fun eq => here (kept.unique a slot before used eq))]
      exact kept.ordered a before
  · intro k r member
    by_cases here : k = s.keyOf slot
    · subst here
      have listed := stable.perm.mem_iff.mpr (memAmong.mpr member)
      have still : s'.Used slot := by
        by_contra gone
        simp [(dropped slot used gone).2] at listed
      exact ⟨slot, still, (same slot still).2⟩
    · have old : (k, r) ∈ live := by
        rw [← memAmong, ← elsewhere k here, memAmong]
        exact member
      obtain ⟨a, before, key⟩ := kept.housed k r old
      have still : s'.Used a := by
        by_contra gone
        exact here (by rw [← key, (dropped a before gone).1])
      exact ⟨a, still, (same a still).2.trans key⟩

theorem Kept.enter (kept : Kept s live lists) (free : ¬ s.Used slot) (heap : Heap s' lists)
    (bound : s'.lastUsedIndex ≤ maxNumOfEvents) (used : ∀ a, s'.Used a ↔ s.Used a ∨ a = slot)
    (keys : ∀ a ≠ slot, s'.keyOf a = s.keyOf a)
    (fresh : ∀ a, s.Used a → s.keyOf a ≠ s'.keyOf slot) (taken : s'.poolPointer = s.poolPointer) :
    Kept s' live lists := by
  have other (a : Slot) (before : s.Used a) : a ≠ slot := fun eq => free (eq ▸ before)
  refine ⟨heap, bound, ?_, ?_, ?_, ?_, taken.trans kept.taken⟩
  · intro a unused
    exact kept.unused a fun before => unused ((used a).mpr (.inl before))
  · intro a b usedA usedB same
    rcases (used a).mp usedA with beforeA | rfl <;> rcases (used b).mp usedB with beforeB | rfl
    · rw [keys a (other a beforeA), keys b (other b beforeB)] at same
      exact kept.unique a b beforeA beforeB same
    · rw [keys a (other a beforeA)] at same
      exact absurd same (fresh a beforeA)
    · rw [keys b (other b beforeB)] at same
      exact absurd same.symm (fresh b beforeB)
    · rfl
  · intro a usedA
    rcases (used a).mp usedA with before | rfl
    · rw [keys a (other a before)]
      exact kept.ordered a before
    · have none : among (s'.keyOf a) live = [] := by
        refine List.eq_nil_iff_forall_not_mem.mpr fun r member => ?_
        obtain ⟨b, before, key⟩ := kept.housed _ r (memAmong.mp member)
        exact fresh b before key
      rw [none, kept.unused a free]
      exact stableNil
  · intro k r member
    obtain ⟨a, before, key⟩ := kept.housed k r member
    exact ⟨a, (used a).mpr (.inl before), (keys a (other a before)).trans key⟩

theorem idsSetHead (slot : Slot) (head i : Nat) :
    ((s.setHead slot head).events i).generatorId = (s.events i).generatorId ∧
      ((s.setHead slot head).events i).eventId = (s.events i).eventId := by
  have entry := entrySetHead s slot head (.event i)
  change (s.setHead slot head).events i = _ at entry
  rw [entry]
  split
  · rename_i same
    rw [← same]
    exact ⟨rfl, rfl⟩
  · exact ⟨rfl, rfl⟩

theorem usedLinked (link : (Nat → PriorityList) × Nat) (a : Slot) :
    (s.linked slot link).Used a ↔ s.Used a := by
  cases a with
  | irq i => exact Iff.rfl
  | event i =>
    have ids := idsSetHead (s := { s with memory := link.1 }) slot link.2 i
    simp only [State.Used, State.linked, lastUsedSetHead, ids.1]

theorem keyLinked (link : (Nat → PriorityList) × Nat) (a : Slot) :
    (s.linked slot link).keyOf a = s.keyOf a := by
  cases a with
  | irq i => rfl
  | event i =>
    have ids := idsSetHead (s := { s with memory := link.1 }) slot link.2 i
    simp only [State.keyOf, State.linked, ids.1, ids.2]

theorem usedPointer (p : Nat) (a : Slot) : State.Used { s with poolPointer := p } a ↔ s.Used a := by
  cases a <;> rfl

theorem keyPointer (p : Nat) (a : Slot) : State.keyOf { s with poolPointer := p } a = s.keyOf a := by
  cases a <;> rfl

theorem Kept.add (kept : Kept s live lists) (used : s.Used slot)
    (careful : s.poolPointer ≠ numEvmngRegistrations → ¬ BehindHead r (s.registrations slot)) :
    addEventRegistration s r slot = (s, .nomem) ∨ ∃ s' lists',
      addEventRegistration s r slot = (s', .ok) ∧
        Kept s' (live ++ [(s.keyOf slot, r)]) lists' := by
  by_cases full : s.poolPointer = numEvmngRegistrations
  · left
    rw [addEventRegistration, if_pos full]
  · right
    have careful := careful full
    rw [kept.registrations] at careful
    obtain ⟨pre, post, next, split, before, after, right, added⟩ :=
      addLinked kept.heap full (kept.short slot) careful
    refine ⟨_, _, added, kept.edit used (kept.heap.add full split right) ?_ ?_ ?_ ?_ ?_ ?_⟩
    · simp [State.linked]
    · intro a still
      exact ⟨(usedPointer _ a).mp ((usedLinked _ a).mp still), (keyLinked _ a).trans (keyPointer _ a)⟩
    · intro a before gone
      exact absurd ((usedLinked _ a).mpr ((usedPointer _ a).mpr before)) gone
    · have stable := kept.ordered slot used
      rw [split, List.map_append] at stable
      rw [amongSnoc, if_pos rfl, List.map_append, List.map_cons]
      refine stable.insert (by simpa using before) fun a member => ?_
      cases post with
      | nil => simp at member
      | cons first rest =>
        have first_after : r.priority < first.value.priority := after first rfl
        have sorted := (List.pairwise_append.mp stable.sorted).2.1
        rcases List.mem_cons.mp member with rfl | member
        · exact first_after
        · exact lt_of_lt_of_le first_after ((List.pairwise_cons.mp sorted).1 a member)
    · exact fun k different => by rw [amongSnoc, if_neg (Ne.symm different)]
    · simp [State.linked, kept.taken]

variable {pre post : List Cell} {x : Cell}

theorem unlinkedLastUsed : (s.unlinked slot pre post x).lastUsedIndex = s.lastUsedIndex := by
  rw [State.unlinked]
  split <;> simp [State.linked]

theorem unlinkedIds (i : Nat) (kept : slot ≠ .event i ∨ pre ++ post ≠ []) :
    ((s.unlinked slot pre post x).events i).generatorId = (s.events i).generatorId ∧
      ((s.unlinked slot pre post x).events i).eventId = (s.events i).eventId := by
  have linked : ∀ link, ((s.linked slot link).events i).generatorId = (s.events i).generatorId ∧
      ((s.linked slot link).events i).eventId = (s.events i).eventId :=
    fun link => idsSetHead (s := { s with memory := link.1 }) slot link.2 i
  rw [State.unlinked]
  split
  · rename_i empty
    have other := kept.resolve_right (not_not.mpr empty)
    have entry := entryClear (s.linked slot (relink layout s.memory (s.entry slot).head (lastAddr pre)
      (s.memory x.addr).next)) slot (.event i)
    rw [if_neg (Ne.symm other)] at entry
    change State.events _ i = State.events _ i at entry
    simp only [entry]
    exact linked _
  · exact linked _

theorem unlinkedUsed (a : Slot) (kept : a ≠ slot ∨ pre ++ post ≠ []) :
    ((s.unlinked slot pre post x).Used a ↔ s.Used a) ∧
      (s.unlinked slot pre post x).keyOf a = s.keyOf a := by
  cases a with
  | irq i => exact ⟨Iff.rfl, rfl⟩
  | event i =>
    obtain ⟨generator, event⟩ := unlinkedIds (s := s) (x := x) i (kept.imp_left Ne.symm)
    simp only [State.Used, State.keyOf, unlinkedLastUsed, generator, event, and_self]

theorem unlinkedEmptied (empty : pre ++ post = []) (i : Nat)
    (here : slot = .event i) : ¬ (s.unlinked slot pre post x).Used slot := by
  subst here
  rw [State.unlinked, if_pos empty]
  simp [State.Used, State.clearGenerator]

theorem Heap.same (heap : Heap s lists) (heads : ∀ a, (s'.entry a).head = (s.entry a).head)
    (cells : s'.memory = s.memory ∧ s'.pool = s.pool ∧ s'.poolPointer = s.poolPointer) :
    Heap s' lists := by
  obtain ⟨memory, pool, pointer⟩ := cells
  obtain ⟨chains, nodup, apart, nonzero, free, fresh, room⟩ := heap
  constructor
  case chains => exact fun a => by rw [memory, heads]; exact chains a
  case nodup => exact nodup
  case apart => exact apart
  case nonzero => rw [pointer, pool]; exact nonzero
  case free => rw [pointer, pool]; exact free
  case fresh => rw [pointer, pool]; exact fresh
  case room => rw [pointer]; exact room

theorem unlinkedSame (a : Slot) (still : (s.unlinked slot pre post x).Used a) :
    s.Used a ∧ (s.unlinked slot pre post x).keyOf a = s.keyOf a := by
  by_cases kept : a ≠ slot ∨ pre ++ post ≠ []
  · obtain ⟨same, key⟩ := unlinkedUsed (s := s) (x := x) a kept
    exact ⟨same.mp still, key⟩
  · rw [not_or, not_not, not_not] at kept
    obtain ⟨rfl, empty⟩ := kept
    cases a with
    | irq i => exact ⟨still, rfl⟩
    | event i => exact absurd still (unlinkedEmptied empty i rfl)

theorem Kept.remove (kept : Kept s live lists) (used : s.Used slot) :
    ((s.keyOf slot, r) ∉ live ∧ removeEventRegistration s slot r = (s, .navail)) ∨
    (s.keyOf slot, r) ∈ live ∧ ∃ s' lists', removeEventRegistration s slot r = (s', .ok) ∧
      Kept s' (live.erase (s.keyOf slot, r)) lists' ∧ s'.lastUsedIndex = s.lastUsedIndex ∧
      ∀ a, s'.Used a → s'.keyOf a = s.keyOf a := by
  have listed : (s.keyOf slot, r) ∈ live ↔ r ∈ (lists slot).map Node.value := by
    rw [(kept.ordered slot used).perm.mem_iff, memAmong]
  rcases removeUnlinked (r := r) kept.heap (kept.short slot) with ⟨absent, failed⟩ |
    ⟨pre, x, post, split, value, absent, removed⟩
  · exact .inl ⟨fun member => absent (listed.mp member), failed⟩
  · have member : (s.keyOf slot, r) ∈ live := by
      rw [listed, split]
      simp [value]
    have some : 0 < live.length := List.length_pos_of_mem member
    refine .inr ⟨member, _, _, removed, kept.edit used
      (kept.heap.remove (by rw [kept.taken]; exact some) split) (by rw [unlinkedLastUsed])
      unlinkedSame ?_ ?_ ?_ ?_, unlinkedLastUsed, fun a still => (unlinkedSame a still).2⟩
    · intro a before gone
      by_contra kept
      rw [not_and_or] at kept
      exact gone ((unlinkedUsed (s := s) (x := x) a kept).1.mpr before)
    · have stable := (kept.ordered slot used).erase r
      rw [amongErase, if_pos rfl]
      rw [split, List.map_append, List.map_cons, List.erase_append_right _ absent, value,
        List.erase_cons_head, ← List.map_append] at stable
      exact stable
    · exact fun k different => by rw [amongErase, if_neg (Ne.symm different)]
    · change s.poolPointer - 1 = _
      rw [List.length_erase_of_mem member, kept.taken]

theorem Kept.drop (kept : Kept s live lists) {i : Nat} (last : i + 1 = s.lastUsedIndex)
    (empty : lists (.event i) = []) :
    Kept { s with lastUsedIndex := s.lastUsedIndex - 1 } live lists := by
  have used (a : Slot) : State.Used { s with lastUsedIndex := s.lastUsedIndex - 1 } a ↔
      s.Used a ∧ a ≠ .event i := by
    cases a with
    | irq j => simp [State.Used]
    | event j =>
      simp only [State.Used, ne_eq, Slot.event.injEq]
      constructor
      · rintro ⟨below, named⟩
        exact ⟨⟨by omega, named⟩, by omega⟩
      · rintro ⟨⟨below, named⟩, different⟩
        exact ⟨by omega, named⟩
  have key (a : Slot) : State.keyOf { s with lastUsedIndex := s.lastUsedIndex - 1 } a = s.keyOf a := by
    cases a <;> rfl
  refine ⟨kept.heap.same (fun a => by cases a <;> rfl) ⟨rfl, rfl, rfl⟩,
    (Nat.sub_le _ _).trans kept.bound, ?_, ?_, ?_, ?_, kept.taken⟩
  · intro a unused
    by_cases here : a = .event i
    · rw [here, empty]
    · exact kept.unused a fun before => unused ((used a).mpr ⟨before, here⟩)
  · intro a b usedA usedB same
    rw [key, key] at same
    exact kept.unique a b ((used a).mp usedA).1 ((used b).mp usedB).1 same
  · intro a usedA
    rw [key]
    exact kept.ordered a ((used a).mp usedA).1
  · intro k r member
    obtain ⟨a, before, named⟩ := kept.housed k r member
    have occupied : a ≠ .event i := by
      rintro rfl
      have stable := kept.ordered _ before
      rw [empty, named] at stable
      have listed := stable.perm.mem_iff.mpr (memAmong.mpr member)
      simp at listed
    exact ⟨a, (used a).mpr ⟨before, occupied⟩, (key a).trans named⟩

theorem removeLastUsed (n : Nat) :
    removeEventRegistration { s with lastUsedIndex := n } slot r =
      ({ (removeEventRegistration s slot r).1 with lastUsedIndex := n },
        (removeEventRegistration s slot r).2) := by
  have head : State.entry { s with lastUsedIndex := n } slot = s.entry slot := by cases slot <;> rfl
  simp only [removeEventRegistration, head]
  split
  · rfl
  · split
    · rfl
    · congr 1
      split <;> split <;> cases slot <;> rfl

theorem findSearch (events : Nat → Evmng) (g e count i : Nat) (empty : Option Nat) :
    find events g e count i = (search events g e count i empty).1 := by
  induction count generalizing i empty with
  | zero => rfl
  | succ count ih =>
    rw [find, search]
    split
    · rfl
    · exact ih _ _

theorem searchStop (events : Nat → Evmng) (g e count i : Nat) (empty : Option Nat) :
    i ≤ (search events g e count i empty).1 ∧ (search events g e count i empty).1 ≤ i + count ∧
    (∀ k, i ≤ k → k < (search events g e count i empty).1 →
      ¬ ((events k).generatorId = g ∧ (events k).eventId = e)) ∧
    ((search events g e count i empty).1 < i + count →
      (events (search events g e count i empty).1).generatorId = g ∧
        (events (search events g e count i empty).1).eventId = e) ∧
    (∀ k, (search events g e count i empty).2 = some k →
      empty = some k ∨ i ≤ k ∧ k < i + count ∧ (events k).generatorId = 0) := by
  induction count generalizing i empty with
  | zero => exact ⟨le_rfl, le_rfl, fun k low high => absurd high (by simp [search]; omega),
      fun less => absurd less (by simp [search]), fun k found => .inl found⟩
  | succ count ih =>
    rw [search]
    split
    · rename_i here
      exact ⟨le_rfl, by simp, fun k low high => absurd high (by simp; omega), fun _ => here,
        fun k found => .inl found⟩
    · rename_i here
      obtain ⟨low, high, before, stop, gap⟩ := ih (i + 1)
        (if (events i).generatorId = 0 ∧ empty = none then some i else empty)
      refine ⟨by omega, by omega, fun k above below => ?_, fun less => stop (by omega), fun k found => ?_⟩
      · rcases Nat.eq_or_lt_of_le above with rfl | above
        · exact here
        · exact before k above below
      · rcases gap k found with first | ⟨above, below, zero⟩
        · split at first
          · rename_i hole
            cases first
            exact .inr ⟨le_rfl, by omega, hole.1⟩
          · exact .inl first
        · exact .inr ⟨by omega, by omega, zero⟩

theorem Kept.clear (kept : Kept s live lists) {i : Nat} (used : s.Used (.event i))
    (empty : lists (.event i) = []) : Kept (s.clearGenerator (.event i)) live lists := by
  have same : Function.update lists (.event i) [] = lists := by
    rw [← empty, Function.update_eq_self]
  have other (a : Slot) (different : a ≠ .event i) :
      ((s.clearGenerator (.event i)).Used a ↔ s.Used a) ∧
        (s.clearGenerator (.event i)).keyOf a = s.keyOf a := by
    cases a with
    | irq j => exact ⟨Iff.rfl, rfl⟩
    | event j =>
      have apart : j ≠ i := fun eq => different (by rw [eq])
      simp [State.Used, State.keyOf, State.clearGenerator, Function.update_of_ne apart]
  have gone : ¬ (s.clearGenerator (.event i)).Used (.event i) := by
    simp [State.Used, State.clearGenerator]
  rw [← same]
  refine kept.edit used ?_ (by simp) ?_ ?_ ?_ (fun _ _ => rfl) (by simp [kept.taken])
  · rw [same]
    refine kept.heap.same (fun a => ?_) ⟨by simp, by simp, by simp⟩
    rw [entryClear]
    split
    · rename_i here
      rw [here]
    · rfl
  · intro a still
    by_cases here : a = .event i
    · exact absurd (here ▸ still) gone
    · exact ⟨(other a here).1.mp still, (other a here).2⟩
  · intro a before lost
    by_cases here : a = .event i
    · exact ⟨here, rfl⟩
    · exact absurd ((other a here).1.mpr before) lost
  · have stable := kept.ordered _ used
    rwa [empty] at stable

theorem Kept.addNew (kept : Kept s live lists) {i g e : Nat} (used : s.Used (.event i))
    (key : s.keyOf (.event i) = .event g e) (empty : lists (.event i) = []) (full : Prop) [Decidable full] :
    let added := addEventRegistration s r (.event i)
    let left := if added.2 ≠ .ok ∧ full then (added.1.clearGenerator (.event i), added.2) else (added.1, added.2)
    ∃ lists', Kept left.1 (note live left.2 (.register g e r)) lists' := by
  have careful : ¬ BehindHead r (s.registrations (.event i)) := by
    rw [kept.registrations, empty]
    exact id
  dsimp only
  rcases kept.add (r := r) used (fun _ => careful) with failed | ⟨s', lists', added, kept'⟩
  · rw [failed]
    by_cases cleared : full
    · exact ⟨lists, by simpa [cleared, note] using kept.clear used empty⟩
    · exact ⟨lists, by simpa [cleared, note] using kept⟩
  · rw [added]
    exact ⟨lists', by simpa [note, ← key] using kept'⟩

theorem Kept.name (kept : Kept s live lists) {i g e n : Nat} (named : g ≠ 0)
    (free : ¬ s.Used (.event i)) (grown : n = s.lastUsedIndex ∧ i < n ∨ n = s.lastUsedIndex + 1 ∧
      i = s.lastUsedIndex) (room : n ≤ maxNumOfEvents)
    (fresh : ∀ j < s.lastUsedIndex, ¬ ((s.events j).generatorId = g ∧ (s.events j).eventId = e)) :
    Kept { s.setIds i g e with lastUsedIndex := n } live lists ∧
      State.Used { s.setIds i g e with lastUsedIndex := n } (.event i) ∧
      State.keyOf { s.setIds i g e with lastUsedIndex := n } (.event i) = .event g e := by
  have key : State.keyOf { s.setIds i g e with lastUsedIndex := n } (.event i) = .event g e := by
    simp [State.keyOf, State.setIds]
  have used : State.Used { s.setIds i g e with lastUsedIndex := n } (.event i) := by
    have inside : i < n := by omega
    simp [State.Used, State.setIds, inside, named]
  refine ⟨@Kept.enter _ _ _ _ (.event i) kept free ?_ room ?_ ?_ ?_ rfl, used, key⟩
  · refine kept.heap.same (fun a => ?_) ⟨rfl, rfl, rfl⟩
    cases a with
    | irq j => rfl
    | event j =>
      by_cases here : j = i <;> simp [State.entry, State.setIds, here]
  · intro a
    cases a with
    | irq j => simp [State.Used]
    | event j =>
      by_cases here : j = i
      · subst here
        simp [used]
      · have bounds : j < n ↔ j < s.lastUsedIndex := by omega
        simp [State.Used, State.setIds, here, bounds]
  · intro a different
    cases a with
    | irq j => rfl
    | event j =>
      have apart : j ≠ i := fun eq => different (by rw [eq])
      simp [State.keyOf, State.setIds, apart]
  · intro a before
    rw [key]
    cases a with
    | irq j => simp [State.keyOf]
    | event j =>
      intro same
      simp only [State.keyOf, Key.event.injEq] at same
      exact fresh j before.1 same

end

end Flexbuild.EventManager
