import Flexbuild.RcuModel
import Mathlib.Data.Nat.Basic

/-! The queue of jobs over all interleavings. The linked list is the queue, jobs run in the
order they were queued, and a single token goes round: whoever queued the first job and was told
to start the timer, the timer, or its callback. -/
namespace Flexbuild.ReadCopyUpdate
open Chains

def Entry.job (e : Entry) : Nat × Nat := (e.cb, e.param)

def World.outstanding (w : World) : Nat := w.timers.length + w.callbacks.length

def Within (batch : Int) (n : Nat) : Prop := batch = -1 ∨ 0 < batch ∧ batch ≤ n

def Phase.Within (n : Nat) : Phase → Prop
  | .entered batch | .begun batch => ReadCopyUpdate.Within batch n
  | .priming batch _ | .polling batch _ _ | .rearming batch | .draining batch => 0 < batch ∧ batch ≤ n
  | .restarting => 0 < n

structure Kept (w : World) : Prop where
  chain : Seg layout w.memory w.rcu.listHead (w.queue.map Entry.node) 0
  nodup : (addrs (w.queue.map Entry.node)).Nodup
  tail : w.rcu.listTail = lastAddr (w.queue.map Entry.node)
  size : w.rcu.listSize = w.queue.length
  order : w.ran ++ w.queue.map Entry.job = w.enqueued
  timers : ∀ batch ∈ w.timers, Within batch w.queue.length
  phases : ∀ c ∈ w.callbacks, c.phase.Within w.queue.length
  single : w.outstanding + w.starters ≤ 1
  idle : w.queue = [] → w.outstanding + w.starters = 0
  alive : w.failures = 0 → w.queue ≠ [] → w.outstanding + w.starters = 1
  stranded : w.failures ≠ 0 → w.queue ≠ [] ∧ w.outstanding + w.starters = 0

structure SameQueue (w w' : World) : Prop where
  memory : w'.memory = w.memory
  head : w'.rcu.listHead = w.rcu.listHead
  tail : w'.rcu.listTail = w.rcu.listTail
  size : w'.rcu.listSize = w.rcu.listSize
  nodes : w'.queue.map Entry.node = w.queue.map Entry.node
  ran : w'.ran = w.ran
  enqueued : w'.enqueued = w.enqueued
  timers : w'.timers = w.timers
  callbacks : w'.callbacks = w.callbacks
  starters : w'.starters = w.starters
  failures : w'.failures = w.failures

section
variable {cfg : Config} {w w' : World} {core task : Nat} {t : Task}

theorem SameQueue.refl (w : World) : SameQueue w w :=
  ⟨rfl, rfl, rfl, rfl, rfl, rfl, rfl, rfl, rfl, rfl, rfl⟩

theorem SameQueue.length (same : SameQueue w w') : w'.queue.length = w.queue.length := by
  simpa using congrArg List.length same.nodes

theorem SameQueue.jobs (same : SameQueue w w') : w'.queue.map Entry.job = w.queue.map Entry.job := by
  have nodes := congrArg (List.map Node.value) same.nodes
  rw [List.map_map, List.map_map] at nodes
  exact nodes

theorem SameQueue.empty (same : SameQueue w w') : w'.queue = [] ↔ w.queue = [] := by
  rw [← List.length_eq_zero_iff, ← List.length_eq_zero_iff, same.length]

theorem Kept.same (kept : Kept w) (same : SameQueue w w') : Kept w' := by
  obtain ⟨chain, nodup, tail, size, order, timers, phases, single, idle, alive, stranded⟩ := kept
  have outstanding : w'.outstanding = w.outstanding := by
    rw [World.outstanding, same.timers, same.callbacks, World.outstanding]
  constructor
  case chain => rw [same.memory, same.head, same.nodes]; exact chain
  case nodup => rw [same.nodes]; exact nodup
  case tail => rw [same.tail, same.nodes]; exact tail
  case size => rw [same.size, same.length]; exact size
  case order => rw [same.ran, same.jobs, same.enqueued]; exact order
  case timers => rw [same.timers, same.length]; exact timers
  case phases => rw [same.callbacks, same.length]; exact phases
  case single => rw [outstanding, same.starters]; exact single
  case idle => rw [same.empty, outstanding, same.starters]; exact idle
  case alive => rw [same.failures, Ne, same.empty, outstanding, same.starters]; exact alive
  case stranded => rw [same.failures, Ne, Ne, same.empty, outstanding, same.starters]; exact stranded

theorem sameStart (w : World) (core task : Nat) : SameQueue w (w.startTask core task) :=
  ⟨rfl, rfl, rfl, rfl, rfl, rfl, rfl, rfl, rfl, rfl, rfl⟩

theorem sameUnlock (cfg : Config) (w : World) (core task : Nat) (t : Task) :
    SameQueue w (w.readUnlock cfg core task t) := by
  refine ⟨rfl, rfl, rfl, rfl, ?_, rfl, rfl, rfl, rfl, rfl, rfl⟩
  change (w.queue.map _).map Entry.node = _
  rw [List.map_map]
  rfl

theorem sameLock (cfg : Config) (w : World) (core task : Nat) (t : Task) :
    SameQueue w (w.readLock cfg core task t) := ⟨rfl, rfl, rfl, rfl, rfl, rfl, rfl, rfl, rfl, rfl, rfl⟩

theorem sameFinish (cfg : Config) (w : World) (core task : Nat) (t : Task) :
    SameQueue w (w.finishTask cfg core task t) := by
  rw [World.finishTask]
  split
  · exact ⟨rfl, rfl, rfl, rfl, rfl, rfl, rfl, rfl, rfl, rfl, rfl⟩
  · exact ⟨rfl, rfl, rfl, rfl, rfl, rfl, rfl, rfl, rfl, rfl, rfl⟩

theorem sameTerminate (cfg : Config) (w : World) (c : Callback) : SameQueue w (w.terminate cfg c) := by
  rw [World.terminate]
  split
  · exact sameFinish cfg w _ _ _
  · exact SameQueue.refl w

theorem Within.grow {batch : Int} {n m : Nat} (within : Within batch n) (le : n ≤ m) :
    Within batch m := by
  rcases within with rfl | ⟨positive, small⟩
  · exact .inl rfl
  · exact .inr ⟨positive, by omega⟩

theorem Phase.Within.grow {phase : Phase} {n m : Nat} (within : phase.Within n) (le : n ≤ m) :
    phase.Within m := by
  cases phase with
  | entered batch => exact ReadCopyUpdate.Within.grow within le
  | begun batch => exact ReadCopyUpdate.Within.grow within le
  | priming batch core => exact ⟨within.1, Nat.le_trans within.2 le⟩
  | polling batch core ctstws => exact ⟨within.1, Nat.le_trans within.2 le⟩
  | rearming batch => exact ⟨within.1, Nat.le_trans within.2 le⟩
  | draining left => exact ⟨within.1, Nat.le_trans within.2 le⟩
  | restarting => exact Nat.lt_of_lt_of_le within le

theorem nodeAddr (queue : List Entry) : addrs (queue.map Entry.node) = queue.map Entry.addr := by
  simp [addrs, Entry.node]

theorem Kept.enqueue (kept : Kept w) (calls : List Call) (c : Call) {job : Nat}
    (fresh : job ≠ 0 ∧ job ∉ w.queue.map Entry.addr) : Kept (w.enqueueCall calls c job) := by
  obtain ⟨chain, nodup, tail, size, order, timers, phases, single, idle, alive, stranded⟩ := kept
  have absent : job ∉ addrs (w.queue.map Entry.node) := by
    rw [nodeAddr]
    exact fresh.2
  have apart : (addrs (w.queue.map Entry.node ++ [⟨job, (c.cb, c.param)⟩])).Nodup := by
    rw [addrsAppend, List.nodup_append]
    refine ⟨nodup, List.nodup_singleton _, fun a here b there eq => absent ?_⟩
    rw [addrsCons, addrsNil, List.mem_singleton] at there
    have same : a = job := eq.trans there
    exact same ▸ here
  have written := segUpdate (c := ⟨0, c.param, c.cb⟩) absent chain
  have inserted := @segInsert _ _ _ _ 0 _ _ [] _ 0 _ written rfl apart fresh.1
    (by rw [Function.update_self]; rfl) (by rw [Function.update_self]; rfl)
  have nodes : (w.enqueueCall calls c job).queue.map Entry.node =
      w.queue.map Entry.node ++ [⟨job, (c.cb, c.param)⟩] := by
    simp [World.enqueueCall, Entry.node]
  have length : (w.enqueueCall calls c job).queue.length = w.queue.length + 1 := by
    simp [World.enqueueCall]
  have linked : (w.enqueueCall calls c job).rcu.listSize = w.queue.length + 1 ∧
      (w.enqueueCall calls c job).rcu.listTail = job ∧
      Seg layout (w.enqueueCall calls c job).memory (w.enqueueCall calls c job).rcu.listHead
        (w.queue.map Entry.node ++ [⟨job, (c.cb, c.param)⟩]) 0 := by
    simp only [World.enqueueCall, ReadCopyUpdate.enqueue]
    by_cases empty : w.queue = []
    · have none : w.rcu.listSize = 0 := by rw [size, empty]; rfl
      rw [if_pos none, empty]
      rw [empty] at inserted
      exact ⟨by rw [size, empty], rfl, inserted⟩
    · have some : w.rcu.listSize ≠ 0 := by rw [size]; simpa using empty
      have inside : lastAddr (w.queue.map Entry.node) ≠ 0 :=
        (lastAddrZero chain).not.mpr (by simpa using empty)
      rw [relink, if_neg inside, ← tail] at inserted
      rw [if_neg some]
      exact ⟨by rw [size], rfl, inserted⟩
  obtain ⟨size', tail', chain'⟩ := linked
  have told : (w.enqueueCall calls c job).starters =
      if w.queue = [] then w.starters + 1 else w.starters := by
    change (if (w.enqueueCall calls c job).rcu.listSize = 1 then _ else _) = _
    rw [size']
    simp
  have outstanding : (w.enqueueCall calls c job).outstanding = w.outstanding := rfl
  constructor
  case chain => rw [nodes]; exact chain'
  case nodup => rw [nodes]; exact apart
  case tail => rw [nodes, lastAddrConcat]; exact tail'
  case size => rw [length]; exact size'
  case order =>
    change w.ran ++ (w.queue ++ _).map Entry.job = w.enqueued ++ _
    rw [List.map_append, ← List.append_assoc, order]
    rfl
  case timers => exact fun batch member => length ▸ (timers batch member).grow (Nat.le_succ _)
  case phases => exact fun c member => length ▸ (phases c member).grow (Nat.le_succ _)
  case single =>
    rw [outstanding, told]
    split
    · rename_i empty
      have := idle empty
      omega
    · exact single
  case idle =>
    intro empty
    rw [← List.length_eq_zero_iff, length] at empty
    omega
  case alive =>
    intro failures _
    rw [outstanding, told]
    split
    · rename_i empty
      have := idle empty
      omega
    · rename_i occupied
      exact alive failures occupied
  case stranded =>
    intro failed
    obtain ⟨occupied, lost⟩ := stranded failed
    rw [outstanding, told, if_neg occupied]
    exact ⟨by simp [World.enqueueCall], lost⟩

theorem Kept.dequeued (kept : Kept w) {e : Entry} {rest : List Entry} (queue : w.queue = e :: rest) :
    (dequeue w.memory w.rcu).2 = e.job ∧
    Seg layout w.drain.memory w.drain.rcu.listHead (w.drain.queue.map Entry.node) 0 ∧
    (addrs (w.drain.queue.map Entry.node)).Nodup ∧
    w.drain.rcu.listTail = lastAddr (w.drain.queue.map Entry.node) ∧
    w.drain.rcu.listSize = rest.length ∧
    w.drain.queue = rest ∧
    w.drain.ran ++ w.drain.queue.map Entry.job = w.drain.enqueued := by
  obtain ⟨chain, nodup, tail, size, order, -⟩ := kept
  have left : w.drain.queue = rest := by
    change w.queue.tail = rest
    rw [queue, List.tail_cons]
  rw [queue, List.map_cons] at chain nodup tail
  obtain ⟨head, nonzero, value, chain⟩ := chain
  have job : (dequeue w.memory w.rcu).2 = e.job := by
    change layout.payload (w.memory w.rcu.listHead) = _
    rw [head]
    exact value
  refine ⟨job, ?_, ?_, ?_, ?_, left, ?_⟩
  · rw [left]
    simp only [World.drain, dequeue]
    split
    all_goals
      rw [head]
      exact chain
  · rw [left]
    exact (List.nodup_cons.mp nodup).2
  · rw [left]
    have ends : (w.memory w.rcu.listHead).next = 0 ↔ rest = [] := by
      rw [head]
      constructor
      · intro zero
        have chain : Seg layout w.memory (w.memory e.node.addr).next (rest.map Entry.node) 0 := chain
        rw [zero] at chain
        simpa using segHeadZero chain
      · rintro rfl
        exact chain
    simp only [World.drain, dequeue]
    cases rest with
    | nil => rw [if_pos (ends.mpr rfl)]; rfl
    | cons e' rest =>
      rw [if_neg (ends.not.mpr (List.cons_ne_nil _ _))]
      exact tail
  · simp only [World.drain, dequeue]
    split <;> simp [size, queue]
  · change (w.ran ++ [(dequeue w.memory w.rcu).2]) ++ w.drain.queue.map Entry.job = w.enqueued
    rw [job, left, ← order, queue]
    simp

theorem SameQueue.withCallbacks (same : SameQueue w w') (callbacks : List Callback) :
    SameQueue { w with callbacks := callbacks } { w' with callbacks := callbacks } :=
  ⟨same.memory, same.head, same.tail, same.size, same.nodes, same.ran, same.enqueued, same.timers,
    rfl, same.starters, same.failures⟩

theorem SameQueue.cleared (same : SameQueue w w') (none : w.callbacks = []) :
    SameQueue w { w' with callbacks := [] } :=
  ⟨same.memory, same.head, same.tail, same.size, same.nodes, same.ran, same.enqueued, same.timers,
    none.symm, same.starters, same.failures⟩

theorem Kept.alone {pre post : List Callback} {c : Callback} (kept : Kept w)
    (callbacks : w.callbacks = pre ++ c :: post) :
    pre = [] ∧ post = [] ∧ w.timers = [] ∧ w.starters = 0 ∧ w.queue ≠ [] := by
  have single := kept.single
  have idle := kept.idle
  have lengths := congrArg List.length callbacks
  simp only [List.length_append, List.length_cons] at lengths
  simp only [World.outstanding] at single idle
  refine ⟨List.length_eq_zero_iff.mp (by omega), List.length_eq_zero_iff.mp (by omega),
    List.length_eq_zero_iff.mp (by omega), by omega, fun empty => ?_⟩
  have := idle empty
  omega

theorem Kept.move {c c' : Callback} (kept : Kept w) (callbacks : w.callbacks = [c])
    (within : c'.phase.Within w.queue.length) : Kept { w with callbacks := [c'] } := by
  have outstanding : World.outstanding { w with callbacks := [c'] } = w.outstanding := by
    rw [World.outstanding, World.outstanding, callbacks]
    rfl
  obtain ⟨chain, nodup, tail, size, order, timers, phases, single, idle, alive, stranded⟩ := kept
  refine ⟨chain, nodup, tail, size, order, timers, ?_, ?_, ?_, ?_, ?_⟩
  · intro c member
    rw [List.mem_singleton.mp member]
    exact within
  · rw [outstanding]; exact single
  · rw [outstanding]; exact idle
  · rw [outstanding]; exact alive
  · rw [outstanding]; exact stranded

theorem Kept.timer {batch : Int} (kept : Kept w) (token : w.outstanding + w.starters ≠ 0)
    (within : Within batch w.queue.length) (ok : Bool) :
    Kept ({ w with starters := 0, timers := [], callbacks := [] }.initOneShotTimer batch ok) := by
  obtain ⟨chain, nodup, tail, size, order, timers, phases, single, idle, alive, stranded⟩ := kept
  have occupied : w.queue ≠ [] := fun empty => token (idle empty)
  have sound : w.failures = 0 := by
    by_contra failed
    exact token (stranded failed).2
  cases ok with
  | true =>
    refine ⟨chain, nodup, tail, size, order, ?_, by simp [World.initOneShotTimer], le_rfl, ?_, ?_, ?_⟩
    · intro b member
      rw [List.mem_singleton.mp member]
      exact within
    · exact fun empty => absurd empty occupied
    · exact fun _ _ => rfl
    · exact fun failed => absurd sound failed
  | false =>
    refine ⟨chain, nodup, tail, size, order, by simp [World.initOneShotTimer],
      by simp [World.initOneShotTimer], Nat.zero_le _, fun _ => rfl, ?_, fun _ => ⟨occupied, rfl⟩⟩
    exact fun none => absurd none (Nat.succ_ne_zero _)

theorem Kept.drained {c : Callback} {e : Entry} {rest : List Entry} {callbacks : List Callback}
    (kept : Kept w) (before : w.callbacks = [c]) (queue : w.queue = e :: rest)
    (within : ∀ c ∈ callbacks, c.phase.Within rest.length)
    (goes : callbacks.length = if rest = [] then 0 else 1) :
    Kept { w.drain with callbacks := callbacks } := by
  obtain ⟨-, -, timers, starters, -⟩ := @Kept.alone w [] [] c kept before
  obtain ⟨-, chain, nodup, tail, size, left, order⟩ := kept.dequeued queue
  have outstanding : World.outstanding { w.drain with callbacks := callbacks } +
      { w.drain with callbacks := callbacks }.starters = if rest = [] then 0 else 1 := by
    change w.timers.length + callbacks.length + w.starters = _
    rw [timers, starters, goes]
    simp
  have sound : w.failures = 0 := by
    by_contra failed
    have lost := (kept.stranded failed).2
    simp [World.outstanding, before] at lost
  refine ⟨chain, nodup, tail, size.trans (by rw [left]), order, ?_, ?_, ?_, ?_, ?_,
    fun failed => absurd sound failed⟩
  · intro batch member
    have member : batch ∈ w.timers := member
    simp [timers] at member
  · intro c member
    rw [left]
    exact within c member
  · rw [outstanding]
    split <;> omega
  · intro empty
    rw [outstanding, if_pos (left.symm.trans empty)]
  · intro _ occupied
    rw [outstanding, if_neg (fun empty => occupied (left.trans empty))]

theorem Kept.advance {c : Callback} {c' : Option Callback} {ok : Bool} (kept : Kept w)
    (callbacks : w.callbacks = [c])
    (moved : { w with callbacks := [] }.advance cfg c ok = some (w', c')) :
    Kept { w' with callbacks := c'.toList } := by
  obtain ⟨-, -, timers, starters, occupied⟩ := @Kept.alone w [] [] c kept callbacks
  have within := kept.phases c (by simp [callbacks])
  have stays (phase : Phase) (within : phase.Within w.queue.length) (w₁ : World)
      (same : SameQueue { w with callbacks := [] } w₁) :
      Kept { w₁ with callbacks := [{ c with phase := phase }] } :=
    (@Kept.move w c { c with phase := phase } kept callbacks within).same (same.withCallbacks _)
  have ends (batch : Int) (within : ReadCopyUpdate.Within batch w.queue.length) :
      Kept { ({ w with callbacks := [] }.initOneShotTimer batch ok).terminate cfg c with
        callbacks := [] } := by
    have timed := kept.timer (by simp [World.outstanding, callbacks]) within ok
    rw [← starters, ← timers] at timed
    refine timed.same ((sameTerminate cfg _ c).cleared ?_)
    cases ok <;> rfl
  have positive : 0 < w.queue.length := List.length_pos_of_ne_nil occupied
  obtain ⟨core, task, phase⟩ := c
  cases phase with
  | entered batch =>
    simp only [World.advance] at moved
    split at moved
    · cases moved
      exact stays (.begun batch) within _ (sameUnlock cfg _ core task _)
    · cases moved
  | begun batch =>
    simp only [World.advance] at moved
    split at moved
    · cases moved
      have counted : 0 < w.rcu.listSize ∧ w.rcu.listSize ≤ w.queue.length := by
        rw [kept.size]
        exact ⟨positive, le_rfl⟩
      exact stays (.priming w.rcu.listSize 0) counted _ (SameQueue.refl _)
    · rename_i counted
      cases moved
      obtain ⟨some, small⟩ := (show ReadCopyUpdate.Within _ _ from within).resolve_left counted
      have bounds : 0 < batch.toNat ∧ batch.toNat ≤ w.queue.length := ⟨by omega, by omega⟩
      exact stays (.polling batch.toNat 0 none) bounds _ (SameQueue.refl _)
  | priming batch next =>
    simp only [World.advance] at moved
    split at moved <;> cases moved
    · exact stays (.priming batch (next + 1)) within _ ⟨rfl, rfl, rfl, rfl, rfl, rfl, rfl, rfl, rfl, rfl, rfl⟩
    · exact stays (.polling batch 0 none) within _ (SameQueue.refl _)
  | polling batch next seen =>
    cases seen with
    | none =>
      simp only [World.advance] at moved
      split at moved
      · cases moved
        exact stays (.polling batch next (some (w.ctstws next))) within _ (SameQueue.refl _)
      · split at moved <;> cases moved
        exact stays (.draining batch) within _ (SameQueue.refl _)
    | some seen =>
      simp only [World.advance] at moved
      split at moved <;> cases moved
      · exact stays (.rearming batch) within _ (SameQueue.refl _)
      · exact stays (.polling batch (next + 1) none) within _ (SameQueue.refl _)
  | rearming batch =>
    cases moved
    have within : 0 < batch ∧ batch ≤ w.queue.length := within
    exact ends batch (.inr ⟨by omega, by omega⟩)
  | restarting =>
    cases moved
    exact ends (-1) (.inl rfl)
  | draining left =>
    have within : 0 < left ∧ left ≤ w.queue.length := within
    obtain ⟨e, rest, queue⟩ := List.exists_cons_of_ne_nil occupied
    rw [queue, List.length_cons] at within
    have size : (World.drain { w with callbacks := [] }).rcu.listSize = rest.length :=
      (kept.dequeued queue).2.2.2.2.1
    simp only [World.advance] at moved
    split at moved
    · cases moved
      refine kept.drained callbacks queue ?_ ?_
      · intro c member
        rw [List.mem_singleton.mp member]
        exact ⟨by omega, by omega⟩
      · rw [if_neg (List.ne_nil_of_length_pos (by omega))]
        rfl
    · rw [size] at moved
      split at moved
      · rename_i some
        cases moved
        refine kept.drained callbacks queue ?_ ?_
        · intro c member
          rw [List.mem_singleton.mp member]
          exact Nat.pos_of_ne_zero some
        · rw [if_neg (List.ne_nil_of_length_pos (Nat.pos_of_ne_zero some))]
          rfl
      · rename_i none
        cases moved
        have empty : rest = [] := List.length_eq_zero_iff.mp (not_not.mp none)
        have past := @Kept.drained w _ _ _ [] kept callbacks queue (by simp) (by simp [empty])
        exact past.same ((sameTerminate cfg _ _).cleared rfl)

theorem Kept.step (kept : Kept w) (step : Step cfg w w') : Kept w' := by
  cases step with
  | start inside free => exact kept.same (sameStart w _ _)
  | unlock running => exact kept.same (sameUnlock cfg w _ _ _)
  | lock running => exact kept.same (sameLock cfg w _ _ _)
  | finish running plain => exact kept.same (sameFinish cfg w _ _ _)
  | call cb param => exact kept.same ⟨rfl, rfl, rfl, rfl, rfl, rfl, rfl, rfl, rfl, rfl, rfl⟩
  | enqueue calls fresh => exact kept.enqueue _ _ fresh
  | refuse calls => exact kept.same ⟨rfl, rfl, rfl, rfl, rfl, rfl, rfl, rfl, rfl, rfl, rfl⟩
  | arm told ok =>
    have single := kept.single
    rw [World.outstanding] at single
    have timers : w.timers = [] := List.length_eq_zero_iff.mp (by omega)
    have callbacks : w.callbacks = [] := List.length_eq_zero_iff.mp (by omega)
    have one : w.starters - 1 = 0 := by omega
    have timed := @Kept.timer w (-1) kept (by omega) (.inl rfl) ok
    rw [one]
    rw [← timers, ← callbacks] at timed
    exact timed
  | @fire pre post batch core task timers inside free =>
    have single := kept.single
    have lengths := congrArg List.length timers
    simp only [List.length_append, List.length_cons] at lengths
    rw [World.outstanding] at single
    obtain rfl : pre = [] := List.length_eq_zero_iff.mp (by omega)
    obtain rfl : post = [] := List.length_eq_zero_iff.mp (by omega)
    have callbacks : w.callbacks = [] := List.length_eq_zero_iff.mp (by omega)
    have within := kept.timers batch (by simp [timers])
    have outstanding : World.outstanding { w.startTask core task with
        timers := [] ++ [], callbacks := w.callbacks ++ [⟨core, task, .entered batch⟩] } =
        w.outstanding := by
      simp [World.outstanding, timers, callbacks]
    refine ⟨kept.chain, kept.nodup, kept.tail, kept.size, kept.order, by simp, ?_, ?_, ?_, ?_, ?_⟩
    · intro c member
      rw [callbacks] at member
      rw [List.mem_singleton.mp member]
      exact within
    · rw [outstanding]; exact kept.single
    · rw [outstanding]; exact kept.idle
    · rw [outstanding]; exact kept.alive
    · rw [outstanding]; exact kept.stranded
  | @advance w₁ pre post c c' ok callbacks moved =>
    obtain ⟨rfl, rfl, -⟩ := kept.alone callbacks
    have result := kept.advance callbacks moved
    simpa using result

theorem keptStart : Kept .start := by
  refine ⟨rfl, List.nodup_nil, rfl, rfl, rfl, by simp [World.start], by simp [World.start], ?_, ?_, ?_, ?_⟩
  · exact Nat.zero_le _
  · exact fun _ => rfl
  · exact fun _ occupied => absurd rfl occupied
  · exact fun failed => absurd rfl failed

theorem Reachable.kept (reached : Reachable cfg w) : Kept w := by
  induction reached with
  | start => exact keptStart
  | step reached next ih => exact ih.step next

end

theorem jobsInOrder {cfg : Config} {w : World} (reached : Reachable cfg w) :
    (∃ nodes, Seg layout w.memory w.rcu.listHead nodes 0 ∧ nodes.length = w.rcu.listSize ∧
      lastAddr nodes = w.rcu.listTail ∧ w.ran ++ nodes.map Node.value = w.enqueued) ∧
    w.timers.length + w.callbacks.length ≤ 1 ∧
    ((0 < w.rcu.listSize → w.starters = 0 → w.timers.length + w.callbacks.length = 1) ↔
      w.failures = 0) := by
  have kept := reached.kept
  have occupied : 0 < w.rcu.listSize ↔ w.queue ≠ [] := by
    rw [kept.size, List.length_pos_iff]
  refine ⟨⟨w.queue.map Entry.node, kept.chain, ?_, kept.tail.symm, ?_⟩, ?_, ?_⟩
  · rw [List.length_map, kept.size]
  · rw [List.map_map]
    exact kept.order
  · have := kept.single
    rw [World.outstanding] at this
    omega
  · constructor
    · intro waits
      by_contra failed
      obtain ⟨some, lost⟩ := kept.stranded failed
      rw [World.outstanding] at lost
      have := waits (occupied.mpr some) (by omega)
      omega
    · intro sound some settled
      have alive := kept.alive sound (occupied.mp some)
      rw [World.outstanding] at alive
      omega

def exampleConfig : Config := ⟨4, 2, by decide⟩

def queuedWorld (ok : Bool) : World :=
  let c : Call := ⟨7, 8, World.start.holders exampleConfig⟩
  let w := { World.start with calls := [c] }.enqueueCall [] c 0x100
  { w with starters := w.starters - 1 }.initOneShotTimer (-1) ok

theorem queuedReachable (ok : Bool) : Reachable exampleConfig (queuedWorld ok) := by
  have called := Reachable.step .start (@Step.call exampleConfig .start 7 8)
  have queued := Reachable.step called (@Step.enqueue _ _ [] [] _ 0x100 rfl ⟨by decide, by decide⟩)
  exact .step queued (.arm (by decide) ok)

theorem jobsInOrderQueued :
    (∃ nodes, Seg layout (queuedWorld true).memory (queuedWorld true).rcu.listHead nodes 0 ∧
      nodes.length = (queuedWorld true).rcu.listSize ∧
      lastAddr nodes = (queuedWorld true).rcu.listTail ∧
      (queuedWorld true).ran ++ nodes.map Node.value = (queuedWorld true).enqueued) ∧
    (queuedWorld true).timers.length + (queuedWorld true).callbacks.length ≤ 1 ∧
    ((0 < (queuedWorld true).rcu.listSize → (queuedWorld true).starters = 0 →
      (queuedWorld true).timers.length + (queuedWorld true).callbacks.length = 1) ↔
      (queuedWorld true).failures = 0) :=
  jobsInOrder (queuedReachable true)

theorem jobStranded : Reachable exampleConfig (queuedWorld false) ∧
    0 < (queuedWorld false).rcu.listSize ∧ (queuedWorld false).starters = 0 ∧
    (queuedWorld false).timers = [] ∧ (queuedWorld false).callbacks = [] :=
  ⟨queuedReachable false, by decide, by decide, rfl, rfl⟩

end Flexbuild.ReadCopyUpdate
