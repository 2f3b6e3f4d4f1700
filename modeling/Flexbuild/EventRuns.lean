import Flexbuild.EventRegistry

/-! Whole runs of the event manager from its initialization. A run that never meets the
two places that lose registrations raises every event to exactly the live registrations,
by priority and then by age, answers every removal right and keeps the pool in balance. -/
namespace Flexbuild.EventManager
open Chains PriorityOrders

def State.findEvent (s : State) (generatorId eventId : Nat) : Nat :=
  find s.events generatorId eventId s.lastUsedIndex 0

def Loses (s : State) : Call → Prop
  | .register g e r => r.cb ≠ 0 ∧ s.poolPointer ≠ numEvmngRegistrations ∧
      s.findEvent g e < s.lastUsedIndex ∧ BehindHead r (s.registrations (.event (s.findEvent g e)))
  | .unregister g e r => r.cb ≠ 0 ∧ s.findEvent g e + 1 = s.lastUsedIndex ∧
      (s.registrations (.event (s.findEvent g e))).erase r ≠ []
  | .irqRegister g e r => r.cb ≠ 0 ∧ s.poolPointer ≠ numEvmngRegistrations ∧
      e < numOfIrqEvents ∧ g = generatorAiopsl ∧ BehindHead r (s.registrations (.irq e))
  | .irqUnregister _ _ _ => False

instance (s : State) : (c : Call) → Decidable (Loses s c)
  | .register _ _ _ => inferInstanceAs (Decidable (_ ∧ _ ∧ _ ∧ _))
  | .unregister _ _ _ => inferInstanceAs (Decidable (_ ∧ _ ∧ _))
  | .irqRegister _ _ _ => inferInstanceAs (Decidable (_ ∧ _ ∧ _ ∧ _ ∧ _))
  | .irqUnregister _ _ _ => inferInstanceAs (Decidable False)

def Call.generatorId : Call → Nat
  | .register g _ _ | .unregister g _ _ | .irqRegister g _ _ | .irqUnregister g _ _ => g

section
variable {s : State} {live : Live} {lists : Slot → List Cell} {g e : Nat} {r : Registration}

theorem findCases (s : State) (g e : Nat) : s.findEvent g e ≤ s.lastUsedIndex ∧
    (∀ j < s.findEvent g e, ¬ ((s.events j).generatorId = g ∧ (s.events j).eventId = e)) ∧
    (s.findEvent g e < s.lastUsedIndex → (s.events (s.findEvent g e)).generatorId = g ∧
      (s.events (s.findEvent g e)).eventId = e) := by
  obtain ⟨-, high, before, stop, -⟩ := searchStop s.events g e s.lastUsedIndex 0 none
  rw [← findSearch, Nat.zero_add] at high stop
  rw [← findSearch] at before
  exact ⟨high, fun j => before j (Nat.zero_le j), stop⟩

theorem foundUsed (named : g ≠ 0) (found : s.findEvent g e < s.lastUsedIndex) :
    s.Used (.event (s.findEvent g e)) ∧ s.keyOf (.event (s.findEvent g e)) = .event g e := by
  obtain ⟨generator, event⟩ := (findCases s g e).2.2 found
  exact ⟨⟨found, by rw [generator]; exact named⟩, by rw [State.keyOf, generator, event]⟩

theorem notFound (kept : Kept s live lists) (absent : s.findEvent g e = s.lastUsedIndex) :
    (.event g e, r) ∉ live := by
  intro member
  obtain ⟨slot, used, key⟩ := kept.housed _ _ member
  cases slot with
  | irq i => simp [State.keyOf] at key
  | event i =>
    simp only [State.keyOf, Key.event.injEq] at key
    exact (findCases s g e).2.1 i (absent ▸ used.1) key

theorem Kept.register (kept : Kept s live lists) (named : g ≠ 0)
    (careful : ¬ Loses s (.register g e r)) :
    ∃ lists', Kept (evmngRegister s g e r).1
      (note live (evmngRegister s g e r).2 (.register g e r)) lists' := by
  rw [evmngRegister]
  by_cases null : r.cb = 0
  · exact ⟨lists, by simpa [null, note] using kept⟩
  obtain ⟨-, high, before, stop, gap⟩ := searchStop s.events g e s.lastUsedIndex 0 none
  have first := findSearch s.events g e s.lastUsedIndex 0 none
  rw [Nat.zero_add] at high stop
  rw [if_neg null]
  generalize search s.events g e s.lastUsedIndex 0 none = result at *
  obtain ⟨i, empty⟩ := result
  have here : s.findEvent g e = i := first
  by_cases found : i < s.lastUsedIndex
  · have below : ¬ i = maxNumOfEvents := by
      have := kept.bound
      omega
    simp only [if_pos found, below, and_false, if_false]
    obtain ⟨used, key⟩ := foundUsed named (here.symm ▸ found)
    rw [here] at used key
    have careful' : s.poolPointer ≠ numEvmngRegistrations →
        ¬ BehindHead r (s.registrations (.event i)) :=
      fun space behind => careful ⟨null, space, here.symm ▸ found, by rw [here]; exact behind⟩
    have result : ∃ lists', Kept (addEventRegistration s r (.event i)).1
        (note live (addEventRegistration s r (.event i)).2 (.register g e r)) lists' := by
      rcases kept.add (r := r) used careful' with failed | ⟨s', lists', added, kept'⟩
      · exact ⟨lists, by simpa [failed, note] using kept⟩
      · exact ⟨lists', by simpa [added, note, ← key] using kept'⟩
    cases empty <;> exact result
  · have all : i = s.lastUsedIndex := by omega
    have absent : ∀ j < s.lastUsedIndex,
        ¬ ((s.events j).generatorId = g ∧ (s.events j).eventId = e) :=
      fun j below => before j (Nat.zero_le j) (by omega)
    simp only [if_neg found]
    cases empty with
    | some k =>
      obtain ⟨-, below, zero⟩ := (gap k rfl).resolve_left (by simp)
      rw [Nat.zero_add] at below
      have free : ¬ s.Used (.event k) := fun used => used.2 zero
      obtain ⟨kept', used, key⟩ := kept.name (n := s.lastUsedIndex) named free (.inl ⟨rfl, below⟩)
        kept.bound absent
      exact kept'.addNew (r := r) used key (kept.unused _ free) (i = maxNumOfEvents)
    | none =>
      by_cases room : s.lastUsedIndex < maxNumOfEvents
      · have free : ¬ s.Used (.event s.lastUsedIndex) := fun used => absurd used.1 (lt_irrefl _)
        obtain ⟨kept', used, key⟩ := kept.name (n := s.lastUsedIndex + 1) named free
          (.inr ⟨rfl, rfl⟩) room absent
        simp only [if_pos room]
        exact kept'.addNew (r := r) used key (kept.unused _ free) (i = maxNumOfEvents)
      · exact ⟨lists, by simpa [room, note] using kept⟩

theorem unregisterShape (cb : r.cb ≠ 0) : evmngUnregister s g e r =
    if s.findEvent g e = s.lastUsedIndex then (s, .navail)
    else removeEventRegistration (if s.findEvent g e + 1 = s.lastUsedIndex then
      { s with lastUsedIndex := s.lastUsedIndex - 1 } else s) (.event (s.findEvent g e)) r := by
  rw [evmngUnregister, if_neg cb]
  rfl

theorem Kept.unregister (kept : Kept s live lists) (named : g ≠ 0) (cb : r.cb ≠ 0)
    (careful : ¬ Loses s (.unregister g e r)) :
    (∃ lists', Kept (evmngUnregister s g e r).1
      (note live (evmngUnregister s g e r).2 (.unregister g e r)) lists') ∧
    ((evmngUnregister s g e r).2 = .navail ↔ (.event g e, r) ∉ live) := by
  rw [unregisterShape cb]
  by_cases absent : s.findEvent g e = s.lastUsedIndex
  · simp only [if_pos absent]
    exact ⟨⟨lists, kept⟩, fun _ => notFound kept absent, fun _ => trivial⟩
  have found : s.findEvent g e < s.lastUsedIndex := lt_of_le_of_ne (findCases s g e).1 absent
  obtain ⟨used, key⟩ := foundUsed named found
  have removal := kept.remove (r := r) used
  rw [key] at removal
  rw [if_neg absent]
  have cleared : s.findEvent g e + 1 = s.lastUsedIndex →
      (s.registrations (.event (s.findEvent g e))).erase r = [] := by
    intro last
    by_contra others
    exact careful ⟨cb, last, others⟩
  generalize s.findEvent g e = i at *
  by_cases last : i + 1 = s.lastUsedIndex
  · rw [if_pos last, removeLastUsed]
    have alone : among (.event g e) (live.erase (.event g e, r)) = [] := by
      have none := cleared last
      rw [kept.registrations] at none
      have stable := (kept.ordered _ used).erase r
      rw [none, key] at stable
      rw [amongErase, if_pos rfl]
      exact stable.perm.symm.eq_nil
    rcases removal with ⟨missing, failed⟩ | ⟨member, s', lists', removed, kept', same, keys⟩
    · rw [failed]
      refine ⟨⟨lists, ?_⟩, fun _ => missing, fun _ => rfl⟩
      rw [List.erase_of_not_mem missing] at alone
      have stable := kept.ordered _ used
      rw [key, alone] at stable
      exact kept.drop last (List.map_eq_nil_iff.mp stable.perm.eq_nil)
    · rw [removed]
      refine ⟨⟨lists', ?_⟩, fun eq => Status.noConfusion eq, fun missing => absurd member missing⟩
      have empty : lists' (.event i) = [] := by
        by_cases still : s'.Used (.event i)
        · have stable := kept'.ordered _ still
          rw [keys _ still, key, alone] at stable
          exact List.map_eq_nil_iff.mp stable.perm.eq_nil
        · exact kept'.unused _ still
      have dropped := kept'.drop (last.trans same.symm) empty
      rw [same] at dropped
      exact dropped
  · rw [if_neg last]
    rcases removal with ⟨missing, failed⟩ | ⟨member, s', lists', removed, kept', -, -⟩
    · rw [failed]
      exact ⟨⟨lists, kept⟩, fun _ => missing, fun _ => rfl⟩
    · rw [removed]
      exact ⟨⟨lists', kept'⟩, fun eq => Status.noConfusion eq, fun missing => absurd member missing⟩

theorem Kept.irqRegister (kept : Kept s live lists) (cb : r.cb ≠ 0)
    (valid : e < numOfIrqEvents ∧ g = generatorAiopsl) (careful : ¬ Loses s (.irqRegister g e r)) :
    ∃ lists', Kept (evmngIrqRegister s g e r).1
      (note live (evmngIrqRegister s g e r).2 (.irqRegister g e r)) lists' := by
  have shape : evmngIrqRegister s g e r = addEventRegistration s r (.irq e) := by
    rw [evmngIrqRegister, if_neg cb, if_neg (by simp [valid])]
  rw [shape]
  have used : s.Used (.irq e) := valid.1
  rcases kept.add (r := r) used fun space behind => careful ⟨cb, space, valid.1, valid.2, behind⟩ with
    failed | ⟨s', lists', added, kept'⟩
  · exact ⟨lists, by simpa [failed, note] using kept⟩
  · exact ⟨lists', by simpa [added, note, State.keyOf] using kept'⟩

theorem Kept.irqUnregister (kept : Kept s live lists) (cb : r.cb ≠ 0)
    (valid : e < numOfIrqEvents ∧ g = generatorAiopsl) :
    (∃ lists', Kept (evmngIrqUnregister s g e r).1
      (note live (evmngIrqUnregister s g e r).2 (.irqUnregister g e r)) lists') ∧
    ((evmngIrqUnregister s g e r).2 = .navail ↔ (.irq e, r) ∉ live) := by
  have shape : evmngIrqUnregister s g e r = removeEventRegistration s (.irq e) r := by
    rw [evmngIrqUnregister, if_neg cb, if_neg (by simp [valid])]
  rw [shape]
  have used : s.Used (.irq e) := valid.1
  rcases kept.remove (r := r) used with ⟨missing, failed⟩ | ⟨member, s', lists', removed, kept', -, -⟩
  · rw [failed]
    exact ⟨⟨lists, kept⟩, fun _ => missing, fun _ => rfl⟩
  · rw [removed]
    exact ⟨⟨lists', kept'⟩, fun eq => Status.noConfusion eq, fun missing => absurd member missing⟩

end

def Call.Accepted : Call → Prop
  | .register _ _ r | .unregister _ _ r => r.cb ≠ 0
  | .irqRegister g e r | .irqUnregister g e r => r.cb ≠ 0 ∧ e < numOfIrqEvents ∧ g = generatorAiopsl

def Call.entry : Call → Key × Registration
  | .register g e r | .unregister g e r => (.event g e, r)
  | .irqRegister _ e r | .irqUnregister _ e r => (.irq e, r)

def Call.removal : Call → Bool
  | .register _ _ _ | .irqRegister _ _ _ => false
  | .unregister _ _ _ | .irqUnregister _ _ _ => true

structure Faithful (s : State) (live : Live) : Prop where
  events : ∀ g e data, g ≠ 0 → ∃ order, Stable Registration.priority (among (.event g e) live) order ∧
    raiseEvent s g e data = order.map (·.invoke g e data)
  irqs : ∀ cmd size e val, cmd &&& (0xFFFF ^^^ noRespCmd) = eventSend → irqParamsSize ≤ size →
    ∃ order, Stable Registration.priority (among (.irq e) live) order ∧
      (evmngRaiseIrqEventCb s cmd size e val).2 = order.map (·.invoke generatorAiopsl e val)
  buffers : s.poolPointer = live.length

structure Answered (s : State) (live : Live) (c : Call) : Prop where
  refused : ¬ c.Accepted → step s c = (s, .inval)
  removal : c.removal → ((step s c).2 = .navail ↔ c.Accepted ∧ c.entry ∉ live)
  unseen : (step s c).2 ≠ .ok →
    (∀ g e data, g ≠ 0 → raiseEvent (step s c).1 g e data = raiseEvent s g e data) ∧
    ∀ cmd size addr val,
      evmngRaiseIrqEventCb (step s c).1 cmd size addr val = evmngRaiseIrqEventCb s cmd size addr val

def Careful (s : State) : List Call → Prop
  | [] => True
  | c :: rest => ¬ Loses s c ∧ Careful (step s c).1 rest

section
variable {s s' : State} {live : Live} {lists lists' : Slot → List Cell} {c : Call}

theorem refusedCall (refused : ¬ c.Accepted) : step s c = (s, .inval) := by
  cases c with
  | register g e r => simp_all [Call.Accepted, step, evmngRegister]
  | unregister g e r => simp_all [Call.Accepted, step, evmngUnregister]
  | irqRegister g e r =>
    simp only [Call.Accepted, not_and_or, not_not, not_lt] at refused
    rw [step, evmngIrqRegister]
    split <;> simp_all
  | irqUnregister g e r =>
    simp only [Call.Accepted, not_and_or, not_not, not_lt] at refused
    rw [step, evmngIrqUnregister]
    split <;> simp_all

theorem Kept.step (kept : Kept s live lists) (named : c.generatorId ≠ 0) (careful : ¬ Loses s c) :
    (∃ lists', Kept (step s c).1 (note live (step s c).2 c) lists') ∧
      (c.removal → ((step s c).2 = .navail ↔ c.Accepted ∧ c.entry ∉ live)) := by
  by_cases accepted : c.Accepted
  · cases c with
    | register g e r => exact ⟨kept.register named careful, fun no => absurd no (by simp [Call.removal])⟩
    | unregister g e r =>
      obtain ⟨kept', answer⟩ := kept.unregister (g := g) named accepted careful
      exact ⟨kept', fun _ => answer.trans (by simp [accepted, Call.entry])⟩
    | irqRegister g e r =>
      exact ⟨kept.irqRegister accepted.1 accepted.2 careful, fun no => absurd no (by simp [Call.removal])⟩
    | irqUnregister g e r =>
      obtain ⟨kept', answer⟩ := kept.irqUnregister (r := r) accepted.1 accepted.2
      exact ⟨kept', fun _ => answer.trans (by simp [accepted, Call.entry])⟩
  · rw [refusedCall accepted]
    refine ⟨⟨lists, ?_⟩, fun _ => ⟨fun eq => Status.noConfusion eq, fun yes => absurd yes.1 accepted⟩⟩
    cases c <;> exact kept

theorem Kept.faithful (kept : Kept s live lists) : Faithful s live := by
  refine ⟨fun g e data named => ?_, fun cmd size e val send large => ?_, kept.taken⟩
  · change ∃ order, _ ∧ (if s.findEvent g e = s.lastUsedIndex then [] else
      (s.registrations (.event (s.findEvent g e))).map _) = _
    by_cases absent : s.findEvent g e = s.lastUsedIndex
    · refine ⟨[], ?_, by rw [if_pos absent]; rfl⟩
      have none : among (.event g e) live = [] := List.eq_nil_iff_forall_not_mem.mpr fun r member =>
        notFound kept absent (memAmong.mp member)
      rw [none]
      exact stableNil
    · obtain ⟨used, key⟩ := foundUsed named (lt_of_le_of_ne (findCases s g e).1 absent)
      have stable := kept.ordered _ used
      rw [key] at stable
      exact ⟨_, stable, by rw [if_neg absent, kept.registrations]⟩
  · rw [evmngRaiseIrqEventCb, if_neg (by simp [send, large])]
    by_cases beyond : numOfIrqEvents ≤ e
    · refine ⟨[], ?_, by rw [if_pos beyond]; rfl⟩
      have none : among (.irq e) live = [] := by
        refine List.eq_nil_iff_forall_not_mem.mpr fun r member => ?_
        obtain ⟨slot, used, key⟩ := kept.housed _ _ (memAmong.mp member)
        cases slot with
        | irq i =>
          cases key
          exact absurd used (not_lt.mpr beyond)
        | event i => simp [State.keyOf] at key
      rw [none]
      exact stableNil
    · have used : s.Used (.irq e) := not_le.mp beyond
      exact ⟨_, kept.ordered _ used, by rw [if_neg beyond, kept.registrations]⟩

theorem Faithful.unseen (here : Faithful s live) (there : Faithful s' live) :
    (∀ g e data, g ≠ 0 → raiseEvent s' g e data = raiseEvent s g e data) ∧
    ∀ cmd size addr val,
      evmngRaiseIrqEventCb s' cmd size addr val = evmngRaiseIrqEventCb s cmd size addr val := by
  refine ⟨fun g e data named => ?_, fun cmd size addr val => ?_⟩
  · obtain ⟨order, stable, raised⟩ := here.events g e data named
    obtain ⟨order', stable', raised'⟩ := there.events g e data named
    rw [raised, raised', stable.unique stable']
  · by_cases turned : cmd &&& (0xFFFF ^^^ noRespCmd) ≠ eventSend ∨ size < irqParamsSize
    · rw [evmngRaiseIrqEventCb, evmngRaiseIrqEventCb, if_pos turned, if_pos turned]
    · have accepted := turned
      rw [not_or, not_not, not_lt] at accepted
      obtain ⟨order, stable, raised⟩ := here.irqs cmd size addr val accepted.1 accepted.2
      obtain ⟨order', stable', raised'⟩ := there.irqs cmd size addr val accepted.1 accepted.2
      refine Prod.ext ?_ (by rw [raised, raised', stable.unique stable'])
      rw [evmngRaiseIrqEventCb, evmngRaiseIrqEventCb, if_neg turned, if_neg turned]
      split <;> rfl

theorem noteFailed {status : Status} (failed : status ≠ .ok) : note live status c = live := by
  cases c <;> simp [note, failed]

theorem Kept.answered (kept : Kept s live lists) (named : c.generatorId ≠ 0)
    (careful : ¬ Loses s c) : Answered s live c := by
  obtain ⟨⟨lists', kept'⟩, removal⟩ := kept.step named careful
  refine ⟨refusedCall, removal, fun failed => ?_⟩
  rw [noteFailed failed] at kept'
  exact kept.faithful.unseen kept'.faithful

theorem keptInit {memory : Nat → PriorityList} {malloc : Nat}
    (start : evmngEarlyInit memory malloc = some s) : Kept s [] fun _ => [] := by
  rw [evmngEarlyInit] at start
  split at start
  · cases start
  rename_i nonzero
  cases start
  constructor
  case heap =>
    constructor
    case chains =>
      intro slot
      cases slot with
      | irq i =>
        simp only [State.entry, segNil]
        split <;> rfl
      | event i => rfl
    case nodup => exact fun _ => List.nodup_nil
    case apart => simp
    case nonzero =>
      intro i _ _
      have positive : 0 < malloc := Nat.pos_of_ne_zero nonzero
      dsimp only
      omega
    case free => simp
    case fresh =>
      intro i j _ less _
      dsimp only
      omega
    case room => exact Nat.zero_le _
  case bound => exact Nat.zero_le _
  case unused => exact fun _ _ => rfl
  case unique =>
    intro a b usedA usedB same
    cases a with
    | irq i =>
      cases b with
      | irq j => exact congrArg Slot.irq (Key.irq.inj same)
      | event j => exact absurd usedB.1 (Nat.not_lt_zero _)
    | event i => exact absurd usedA.1 (Nat.not_lt_zero _)
  case ordered => exact fun _ _ => stableNil
  case housed => simp
  case taken => rfl

theorem Kept.play (calls : List Call) (kept : Kept s live lists)
    (named : ∀ c ∈ calls, c.generatorId ≠ 0) (careful : Careful s calls) :
    ∃ lists', Kept (play s live calls).1 (play s live calls).2 lists' := by
  induction calls generalizing s live lists with
  | nil => exact ⟨lists, kept⟩
  | cons c rest ih =>
    obtain ⟨⟨lists', kept'⟩, -⟩ := kept.step (named c (by simp)) careful.1
    exact ih kept' (fun c member => named c (by simp [member])) careful.2

end

theorem registryKept {memory : Nat → PriorityList} {malloc : Nat} {s₀ : State} (calls : List Call)
    (start : evmngEarlyInit memory malloc = some s₀) (named : ∀ c ∈ calls, c.generatorId ≠ 0)
    (careful : Careful s₀ calls) :
    Faithful (play s₀ [] calls).1 (play s₀ [] calls).2 ∧
    ∀ c, c.generatorId ≠ 0 → ¬ Loses (play s₀ [] calls).1 c →
      Answered (play s₀ [] calls).1 (play s₀ [] calls).2 c := by
  obtain ⟨lists, kept⟩ := (keptInit start).play calls named careful
  exact ⟨kept.faithful, fun c named careful => kept.answered named careful⟩

def exampleCalls : List Call :=
  [.register 2 9 ⟨10, 1, 100⟩, .register 2 9 ⟨10, 2, 200⟩, .register 3 9 ⟨5, 1, 100⟩,
    .irqRegister 1 1 ⟨7, 0, 300⟩, .unregister 2 9 ⟨10, 1, 100⟩]

def exampleStart : State where
  irqEvents := fun i => if i < numOfIrqEvents then ⟨generatorAiopsl, i, 0⟩ else ⟨0, 0, 0⟩
  events := fun _ => ⟨0, 0, 0⟩
  lastUsedIndex := 0
  memory := fun _ => ⟨⟨0, 0, 0⟩, 0⟩
  pool := fun i => 0x1000 + 4 * numEvmngRegistrations + 24 * i
  poolPointer := 0

instance (s : State) : (calls : List Call) → Decidable (Careful s calls)
  | [] => isTrue trivial
  | c :: rest =>
    have := instDecidableCareful (step s c).1 rest
    inferInstanceAs (Decidable (¬ Loses s c ∧ Careful (step s c).1 rest))

theorem registryKeptExample :
    Faithful (play exampleStart [] exampleCalls).1 (play exampleStart [] exampleCalls).2 ∧
    ∀ c, c.generatorId ≠ 0 → ¬ Loses (play exampleStart [] exampleCalls).1 c →
      Answered (play exampleStart [] exampleCalls).1 (play exampleStart [] exampleCalls).2 c :=
  @registryKept (fun _ => ⟨⟨0, 0, 0⟩, 0⟩) 0x1000 exampleStart exampleCalls rfl (by decide) (by decide)

def overtakingCalls : List Call :=
  [.register 2 9 ⟨10, 1, 100⟩, .register 2 9 ⟨30, 3, 300⟩, .register 2 9 ⟨20, 2, 200⟩]

def strandingCalls : List Call :=
  [.register 2 9 ⟨10, 1, 100⟩, .register 2 9 ⟨10, 2, 200⟩, .unregister 2 9 ⟨10, 1, 100⟩]

theorem unfaithful {calls : List Call} {raised : List Invocation}
    (same : raiseEvent (play exampleStart [] calls).1 2 9 0 = raised)
    (short : raised.length ≠ (among (.event 2 9) (play exampleStart [] calls).2).length) :
    ¬ Faithful (play exampleStart [] calls).1 (play exampleStart [] calls).2 := by
  intro faithful
  obtain ⟨order, stable, listed⟩ := faithful.events 2 9 0 (by decide)
  apply short
  rw [← same, listed, List.length_map, stable.perm.length_eq]

theorem registrationsLost :
    (raiseEvent (play exampleStart [] overtakingCalls).1 2 9 0 =
      [⟨200, 2, 9, 2, 0⟩, ⟨300, 2, 9, 3, 0⟩] ∧
      ¬ Faithful (play exampleStart [] overtakingCalls).1 (play exampleStart [] overtakingCalls).2) ∧
    raiseEvent (play exampleStart [] strandingCalls).1 2 9 0 = [] ∧
      ¬ Faithful (play exampleStart [] strandingCalls).1 (play exampleStart [] strandingCalls).2 := by
  have overtaking : raiseEvent (play exampleStart [] overtakingCalls).1 2 9 0 =
      [⟨200, 2, 9, 2, 0⟩, ⟨300, 2, 9, 3, 0⟩] := by decide
  have stranding : raiseEvent (play exampleStart [] strandingCalls).1 2 9 0 = [] := by decide
  exact ⟨⟨overtaking, unfaithful overtaking (by decide)⟩, stranding, unfaithful stranding (by decide)⟩

end Flexbuild.EventManager
