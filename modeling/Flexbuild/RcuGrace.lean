import Flexbuild.RcuQueue

/-! The grace period. As long as tasks and the callback address the same word of the
mask, which they do exactly when there are as many clusters as cores in one, a job only
runs after every task that held the read lock at its call, and kept it, has ended. -/
namespace Flexbuild.ReadCopyUpdate
open Chains

def Has (bits : BitVec 32) (task : Nat) : Prop := bits.getLsbD (31 - task) = true

section bits
variable {bits mask : BitVec 32} {task other : Nat}

theorem taskBitRead (small : task < numTasks) (i : Nat) :
    (taskBit task).getLsbD i = decide (i = 31 - task) := by
  have power : ctstwsTask0Bit = BitVec.twoPow 32 31 := by decide
  rw [taskBit, power, BitVec.getLsbD_ushiftRight, BitVec.getLsbD_twoPow]
  unfold numTasks at small
  by_cases here : i = 31 - task
  · have : task + (31 - task) = 31 := by omega
    simp [here, this]
  · have : 31 ≠ task + i := by omega
    simp [here, this]

theorem hasSet (small : task < numTasks) (small' : other < numTasks) :
    Has (bits ||| taskBit other) task ↔ Has bits task ∨ task = other := by
  unfold Has
  rw [BitVec.getLsbD_or, taskBitRead small']
  unfold numTasks at small small'
  have : 31 - task = 31 - other ↔ task = other := by omega
  simp [this]

theorem hasClear (small : task < numTasks) (small' : other < numTasks) :
    Has (bits &&& ~~~taskBit other) task ↔ Has bits task ∧ task ≠ other := by
  unfold Has
  rw [BitVec.getLsbD_and, BitVec.getLsbD_not, taskBitRead small']
  unfold numTasks at small small'
  have : 31 - task = 31 - other ↔ task = other := by omega
  have inside : 31 - task < 32 := by omega
  simp [this, inside]

theorem hasBoth (left : Has bits task) (right : Has mask task) : bits &&& mask ≠ 0 := by
  intro zero
  have read := congrArg (fun v => v.getLsbD (31 - task)) zero
  unfold Has at left right
  simp [left, right] at read

theorem hasMask (small : task < numTasks) : Has ctstwsTasksMask task := by
  have all : ∀ task < 16, ctstwsTasksMask.getLsbD (31 - task) = true := by decide
  exact all task small

end bits

def Waits (w : World) (n core task : Nat) : Prop :=
  ∃ e ∈ w.queue.take n, ∃ x, w.tasks core task = some x ∧ x.id ∈ e.guards

def Primed (w : World) (n : Nat) : Prop :=
  ∀ core task, Waits w n core task → Has (w.ctstws core) task

def Phase.Guards (w : World) : Phase → Prop
  | .entered batch | .begun batch => Primed w batch.toNat
  | .priming batch next => ∀ core task, Waits w batch core task → core < next → Has (w.ctstws core) task
  | .polling batch next seen => Primed w batch ∧ (∀ core task, Waits w batch core task → next ≤ core) ∧
      ∀ bits, seen = some bits → ∀ task, Waits w batch next task → Has bits task
  | .rearming batch => Primed w batch
  | .draining left => ∀ core task, ¬ Waits w left core task
  | .restarting => True

structure Guarded (cfg : Config) (w : World) : Prop where
  slots : ∀ core task x, w.tasks core task = some x → core < cfg.total ∧ task < numTasks
  ids : ∀ core task core' task' x y, w.tasks core task = some x → w.tasks core' task' = some y →
    x.id = y.id → core = core' ∧ task = task'
  fresh : ∀ core task x, w.tasks core task = some x → x.id < w.nextId
  old : (∀ c ∈ w.calls, ∀ g ∈ c.guards, g < w.nextId) ∧ ∀ e ∈ w.queue, ∀ g ∈ e.guards, g < w.nextId
  mask : ∀ core task, core < cfg.total → task < numTasks →
    (Has (w.rcu.swCtstws core) task ↔ ∀ x, w.tasks core task = some x → x.locked = true)
  never : ∀ core task x, w.tasks core task = some x → x.rcuUnlock = false → x.locked = true
  keeps : ∀ core task x, w.tasks core task = some x →
    (∀ c ∈ w.calls, x.id ∈ c.guards → x.locked = true) ∧
      ∀ e ∈ w.queue, x.id ∈ e.guards → x.locked = true
  timers : ∀ batch ∈ w.timers, Primed w batch.toNat
  phases : ∀ c ∈ w.callbacks, c.phase.Guards w

theorem maskIndexSame {cfg : Config} (square : cfg.clusters = cfg.cores) (core : Nat) :
    cfg.maskIndex core = core := by
  rw [Config.maskIndex, square, Config.cores, Nat.and_two_pow_sub_one_eq_mod]
  exact Nat.div_add_mod' core _

theorem maskIndexAgrees (cfg : Config) :
    (∀ core < cfg.total, cfg.maskIndex core = core) ↔ cfg.clusters = cfg.cores := by
  constructor
  · intro agree
    have some := cfg.some_cluster
    have positive : 0 < cfg.cores := Nat.two_pow_pos _
    have split (core : Nat) (inside : core < cfg.total) : core / cfg.clusters = core / cfg.cores := by
      have same := agree core inside
      rw [Config.maskIndex, Config.cores, Nat.and_two_pow_sub_one_eq_mod] at same
      have parts := Nat.div_add_mod' core (2 ^ cfg.coreBits)
      have equal : core / cfg.clusters * 2 ^ cfg.coreBits = core / 2 ^ cfg.coreBits * 2 ^ cfg.coreBits := by
        omega
      exact Nat.eq_of_mul_eq_mul_right (Nat.two_pow_pos _) equal
    rcases Nat.lt_trichotomy cfg.clusters cfg.cores with less | same | more
    · have here := split cfg.clusters ((Nat.lt_mul_iff_one_lt_right some).mpr (by omega))
      rw [Nat.div_self some, Nat.div_eq_of_lt less] at here
      exact absurd here Nat.one_ne_zero
    · exact same
    · have here := split cfg.cores ((Nat.lt_mul_iff_one_lt_left positive).mpr (by omega))
      rw [Nat.div_self positive, Nat.div_eq_of_lt more] at here
      exact absurd here.symm Nat.one_ne_zero
  · exact fun square core _ => maskIndexSame square core

section
variable {cfg : Config} {w w' : World} {core task : Nat} {t : Task}

structure Quieter (w w' : World) : Prop where
  waits : ∀ n ≤ w.queue.length, ∀ core task, Waits w' n core task → Waits w n core task
  bits : ∀ n ≤ w.queue.length, ∀ core task, Waits w' n core task →
    Has (w.ctstws core) task → Has (w'.ctstws core) task

theorem Quieter.primed {n : Nat} (quieter : Quieter w w') (small : n ≤ w.queue.length)
    (primed : Primed w n) : Primed w' n := fun core task waits =>
  quieter.bits n small core task waits (primed core task (quieter.waits n small core task waits))

theorem Within.small {batch : Int} {n : Nat} (within : Within batch n) : batch.toNat ≤ n := by
  rcases within with rfl | ⟨_, small⟩ <;> omega

theorem Quieter.guards {phase : Phase} (quieter : Quieter w w') (within : phase.Within w.queue.length)
    (guards : phase.Guards w) : phase.Guards w' := by
  cases phase with
  | entered batch => exact quieter.primed (ReadCopyUpdate.Within.small within) guards
  | begun batch => exact quieter.primed (ReadCopyUpdate.Within.small within) guards
  | priming batch next =>
    intro core task waits below
    exact quieter.bits _ within.2 core task waits
      (guards core task (quieter.waits _ within.2 core task waits) below)
  | polling batch next seen =>
    obtain ⟨primed, passed, read⟩ := guards
    exact ⟨quieter.primed within.2 primed,
      fun core task waits => passed core task (quieter.waits _ within.2 core task waits),
      fun bits here task waits => read bits here task (quieter.waits _ within.2 next task waits)⟩
  | rearming batch => exact quieter.primed within.2 guards
  | draining left =>
    exact fun core task waits => guards core task (quieter.waits _ within.2 core task waits)
  | restarting => trivial

def Bounded (w : World) : Prop :=
  (∀ batch ∈ w.timers, ReadCopyUpdate.Within batch w.queue.length) ∧
    ∀ c ∈ w.callbacks, c.phase.Within w.queue.length

theorem Kept.bounded (kept : Kept w) : Bounded w := ⟨kept.timers, kept.phases⟩

theorem Bounded.same (bounded : Bounded w) (same : SameQueue w w') : Bounded w' := by
  rw [Bounded, same.timers, same.callbacks, same.length]
  exact bounded

theorem Quieter.batches (quieter : Quieter w w') (bounded : Bounded w) (guarded : Guarded cfg w)
    (timers : w'.timers = w.timers) (callbacks : w'.callbacks = w.callbacks) :
    (∀ batch ∈ w'.timers, Primed w' batch.toNat) ∧ ∀ c ∈ w'.callbacks, c.phase.Guards w' := by
  rw [timers, callbacks]
  exact ⟨fun batch member => quieter.primed (bounded.1 batch member).small (guarded.timers batch member),
    fun c member => quieter.guards (bounded.2 c member) (guarded.phases c member)⟩

theorem setTaskRead (w : World) (core task : Nat) (new : Option Task) (core' task' : Nat) :
    (w.setTask core task new).tasks core' task' =
      if core' = core ∧ task' = task then new else w.tasks core' task' := by
  simp only [World.setTask, Function.update_apply]
  by_cases here : core' = core <;> by_cases there : task' = task <;> simp [here, there]

theorem Guarded.start (guarded : Guarded cfg w) (bounded : Bounded w)
    (inside : core < cfg.total ∧ task < numTasks) (free : w.tasks core task = none) :
    Guarded cfg (w.startTask core task) := by
  have read (core' task' : Nat) (x : Task) :
      (w.startTask core task).tasks core' task' = some x ↔
        core' = core ∧ task' = task ∧ x = ⟨w.nextId, true, false⟩ ∨ w.tasks core' task' = some x := by
    change (w.setTask core task _).tasks core' task' = _ ↔ _
    rw [setTaskRead]
    by_cases here : core' = core ∧ task' = task
    · obtain ⟨rfl, rfl⟩ := here
      simp [free, eq_comm]
    · rw [if_neg here]
      tauto
  obtain ⟨slots, ids, fresh, old, mask, never, keeps, timers, phases⟩ := guarded
  have quieter : Quieter w (w.startTask core task) := by
    have waits (n core' task' : Nat) (waits : Waits (w.startTask core task) n core' task') :
        Waits w n core' task' := by
      obtain ⟨e, member, x, running, guard⟩ := waits
      rcases (read _ _ _).mp running with ⟨rfl, rfl, rfl⟩ | before
      · exact absurd (old.2 e (List.mem_of_mem_take member) _ guard) (lt_irrefl _)
      · exact ⟨e, member, x, before, guard⟩
    exact ⟨fun n _ => waits n, fun n _ core' task' _ bit => bit⟩
  obtain ⟨timers', phases'⟩ := quieter.batches bounded
    ⟨slots, ids, fresh, old, mask, never, keeps, timers, phases⟩ rfl rfl
  refine ⟨?_, ?_, ?_, ?_, ?_, ?_, ?_, timers', phases'⟩
  · intro core' task' x running
    rcases (read _ _ _).mp running with ⟨rfl, rfl, -⟩ | before
    · exact inside
    · exact slots _ _ _ before
  · intro c₁ t₁ c₂ t₂ x y first second same
    rcases (read _ _ _).mp first with ⟨rfl, rfl, rfl⟩ | before <;>
      rcases (read _ _ _).mp second with ⟨rfl, rfl, rfl⟩ | before'
    · exact ⟨rfl, rfl⟩
    · exact absurd (fresh _ _ _ before') (by rw [← same]; exact lt_irrefl _)
    · exact absurd (fresh _ _ _ before) (by rw [same]; exact lt_irrefl _)
    · exact ids _ _ _ _ _ _ before before' same
  · intro core' task' x running
    rcases (read _ _ _).mp running with ⟨-, -, rfl⟩ | before
    · exact Nat.lt_succ_self _
    · exact Nat.lt_succ_of_lt (fresh _ _ _ before)
  · exact ⟨fun c member g guard => Nat.lt_succ_of_lt (old.1 c member g guard),
      fun e member g guard => Nat.lt_succ_of_lt (old.2 e member g guard)⟩
  · intro core' task' small small'
    refine (mask core' task' small small').trans ⟨fun all x running => ?_, fun all x running => ?_⟩
    · rcases (read _ _ _).mp running with ⟨-, -, rfl⟩ | before
      · rfl
      · exact all x before
    · exact all x ((read _ _ _).mpr (.inr running))
  · intro core' task' x running
    rcases (read _ _ _).mp running with ⟨-, -, rfl⟩ | before
    · exact fun _ => rfl
    · exact never _ _ _ before
  · intro core' task' x running
    rcases (read _ _ _).mp running with ⟨-, -, rfl⟩ | before
    · exact ⟨fun _ _ _ => rfl, fun _ _ _ => rfl⟩
    · exact keeps _ _ _ before

theorem replacedRead (w : World) (core task : Nat) (new : Option Task) (core' task' : Nat) (x : Task) :
    (w.setTask core task new).tasks core' task' = some x ↔
      core' = core ∧ task' = task ∧ new = some x ∨
        ¬ (core' = core ∧ task' = task) ∧ w.tasks core' task' = some x := by
  rw [setTaskRead]
  by_cases here : core' = core ∧ task' = task
  · simp [here]
  · rw [if_neg here]
    tauto

theorem taskRenewed (running : w.tasks core task = some t) {y : Task}
    (same : y.id = t.id) {core' task' : Nat} {x : Task}
    (here : (w.setTask core task (some y)).tasks core' task' = some x) :
    ∃ x₀, w.tasks core' task' = some x₀ ∧ x₀.id = x.id ∧ (x = x₀ ∨ core' = core ∧ task' = task ∧ x = y) := by
  rcases (replacedRead w core task (some y) core' task' x).mp here with ⟨rfl, rfl, new⟩ | ⟨-, before⟩
  · obtain rfl := Option.some.inj new
    exact ⟨t, running, same.symm, .inr ⟨rfl, rfl, rfl⟩⟩
  · exact ⟨x, before, rfl, .inl rfl⟩

theorem replacedElsewhere {core' task' : Nat} (other : ¬ (core' = core ∧ task' = task)) (new : Option Task) (x : Task) :
    (w.setTask core task new).tasks core' task' = some x ↔ w.tasks core' task' = some x := by
  rw [setTaskRead, if_neg other]

theorem Guarded.numbered (guarded : Guarded cfg w) (renewed : ∀ {core task x}, w'.tasks core task = some x →
      ∃ x₀, w.tasks core task = some x₀ ∧ x₀.id = x.id) :
    (∀ core task x, w'.tasks core task = some x → core < cfg.total ∧ task < numTasks) ∧
      (∀ core task core' task' x y, w'.tasks core task = some x → w'.tasks core' task' = some y →
        x.id = y.id → core = core' ∧ task = task') ∧
      ∀ core task x, w'.tasks core task = some x → x.id < w.nextId := by
  refine ⟨fun core task x here => ?_, fun core task core' task' x y first second same => ?_, fun core task x here => ?_⟩
  · obtain ⟨x₀, before, -⟩ := renewed here
    exact guarded.slots _ _ _ before
  · obtain ⟨x₀, before, id⟩ := renewed first
    obtain ⟨y₀, before', id'⟩ := renewed second
    exact guarded.ids _ _ _ _ _ _ before before' (by rw [id, id', same])
  · obtain ⟨x₀, before, same⟩ := renewed here
    exact same ▸ guarded.fresh _ _ _ before

theorem Guarded.replaced {bits : BitVec 32} {y : Task} (guarded : Guarded cfg w) (square : cfg.clusters = cfg.cores)
    (own : Has bits task ↔ y.locked = true)
    (others : ∀ task' < numTasks, task' ≠ task → (Has bits task' ↔ Has (w.rcu.swCtstws core) task'))
    (core' task' : Nat) (small : core' < cfg.total) (small' : task' < numTasks) :
    Has (Function.update w.rcu.swCtstws (cfg.maskIndex core) bits core') task' ↔
      ∀ x, (w.setTask core task (some y)).tasks core' task' = some x → x.locked = true := by
  have old := guarded.mask core' task' small small'
  rw [maskIndexSame square]
  by_cases here : core' = core ∧ task' = task
  · obtain ⟨rfl, rfl⟩ := here
    simp [setTaskRead, own]
  · simp only [replacedElsewhere here]
    refine Iff.trans ?_ old
    rw [Function.update_apply]
    split
    · next same =>
      subst same
      exact others task' small' fun slot => here ⟨rfl, slot⟩
    · rfl

theorem Guarded.lock (guarded : Guarded cfg w) (bounded : Bounded w) (square : cfg.clusters = cfg.cores)
    (running : w.tasks core task = some t) : Guarded cfg (w.readLock cfg core task t) := by
  have inside := guarded.slots _ _ _ running
  have renewed {core' task' : Nat} {x : Task}
      (here : (w.readLock cfg core task t).tasks core' task' = some x) :=
    taskRenewed running (y := { t with locked := true }) rfl here
  have quieter : Quieter w (w.readLock cfg core task t) := by
    refine ⟨fun n _ core' task' waits => ?_, fun n _ core' task' _ bit => bit⟩
    obtain ⟨e, member, x, here, guard⟩ := waits
    obtain ⟨x₀, before, same, -⟩ := renewed here
    exact ⟨e, member, x₀, before, same ▸ guard⟩
  obtain ⟨timers', phases'⟩ := quieter.batches bounded guarded rfl rfl
  obtain ⟨slots, ids, fresh⟩ := guarded.numbered fun here =>
    have ⟨x₀, before, same, _⟩ := renewed here
    ⟨x₀, before, same⟩
  refine ⟨slots, ids, fresh, guarded.old, ?_, ?_, ?_, timers', phases'⟩
  · exact guarded.replaced square (by simp [hasSet inside.2 inside.2])
      fun task' small other => by simp [maskIndexSame square, hasSet small inside.2, other]
  · intro core' task' x here flag
    obtain ⟨x₀, before, -, rfl | ⟨-, -, rfl⟩⟩ := renewed here
    · exact guarded.never _ _ _ before flag
    · rfl
  · intro core' task' x here
    obtain ⟨x₀, before, -, rfl | ⟨-, -, rfl⟩⟩ := renewed here
    · exact guarded.keeps _ _ _ before
    · exact ⟨fun _ _ _ => rfl, fun _ _ _ => rfl⟩

theorem Guarded.unlock (guarded : Guarded cfg w) (bounded : Bounded w) (square : cfg.clusters = cfg.cores)
    (running : w.tasks core task = some t) : Guarded cfg (w.readUnlock cfg core task t) := by
  have inside := guarded.slots _ _ _ running
  have renewed {core' task' : Nat} {x : Task}
      (here : (w.readUnlock cfg core task t).tasks core' task' = some x) :=
    taskRenewed running (y := { t with locked := false, rcuUnlock := true }) rfl here
  have quieter : Quieter w (w.readUnlock cfg core task t) := by
    refine ⟨fun n _ core' task' waits => ?_, fun n _ core' task' _ bit => bit⟩
    obtain ⟨e', member, x, here, guard⟩ := waits
    obtain ⟨x₀, before, same, -⟩ := renewed here
    change e' ∈ (w.queue.map _).take n at member
    rw [← List.map_take] at member
    obtain ⟨e, original, rfl⟩ := List.mem_map.mp member
    exact ⟨e, original, x₀, before, same ▸ List.mem_of_mem_filter guard⟩
  obtain ⟨timers', phases'⟩ := quieter.batches bounded guarded rfl rfl
  obtain ⟨slots, ids, fresh⟩ := guarded.numbered fun here =>
    have ⟨x₀, before, same, _⟩ := renewed here
    ⟨x₀, before, same⟩
  refine ⟨slots, ids, fresh, ⟨?_, ?_⟩, ?_, ?_, ?_, timers', phases'⟩
  · intro c' member g guard
    obtain ⟨c, original, rfl⟩ := List.mem_map.mp member
    exact guarded.old.1 c original g (List.mem_of_mem_filter guard)
  · intro e' member g guard
    obtain ⟨e, original, rfl⟩ := List.mem_map.mp member
    exact guarded.old.2 e original g (List.mem_of_mem_filter guard)
  · exact guarded.replaced square (by simp [hasClear inside.2 inside.2])
      fun task' small other => by simp [maskIndexSame square, hasClear small inside.2, other]
  · intro core' task' x here flag
    obtain ⟨x₀, before, -, rfl | ⟨-, -, rfl⟩⟩ := renewed here
    · exact guarded.never _ _ _ before flag
    · exact absurd flag (by simp)
  · intro core' task' x here
    obtain ⟨x₀, before, -, same⟩ := renewed here
    have dropped (guards : List Nat) (listed : x.id ∈ guards.filter (· ≠ t.id)) : x = x₀ := by
      rcases same with rfl | ⟨-, -, rfl⟩
      · rfl
      · simp at listed
    constructor
    · intro c' member guard
      obtain ⟨c, original, rfl⟩ := List.mem_map.mp member
      obtain rfl := dropped _ guard
      exact (guarded.keeps _ _ _ before).1 c original (List.mem_of_mem_filter guard)
    · intro e' member guard
      obtain ⟨e, original, rfl⟩ := List.mem_map.mp member
      obtain rfl := dropped _ guard
      exact (guarded.keeps _ _ _ before).2 e original (List.mem_of_mem_filter guard)

theorem Guarded.leave (guarded : Guarded cfg w) (bounded : Bounded w)
    (running : w.tasks core task = some t) (locked : t.locked = true) :
    Guarded cfg { w.setTask core task none with
      ctstws := Function.update w.ctstws core (w.ctstws core &&& ~~~taskBit task) } := by
  have inside := guarded.slots _ _ _ running
  have left {core' task' : Nat} {x : Task}
      (here : (w.setTask core task none).tasks core' task' = some x) :
      ¬ (core' = core ∧ task' = task) ∧ w.tasks core' task' = some x := by
    rcases (replacedRead _ _ _ _ _ _ _).mp here with ⟨-, -, new⟩ | rest
    · cases new
    · exact rest
  have quieter : Quieter w { w.setTask core task none with
      ctstws := Function.update w.ctstws core (w.ctstws core &&& ~~~taskBit task) } := by
    constructor
    · rintro n - core' task' ⟨e, member, x, here, guard⟩
      exact ⟨e, member, x, (left here).2, guard⟩
    · rintro n - core' task' ⟨e, member, x, here, guard⟩ bit
      obtain ⟨other, before⟩ := left here
      change Has (Function.update w.ctstws core _ core') task'
      by_cases same : core' = core
      · subst same
        rw [Function.update_self, hasClear (guarded.slots _ _ _ before).2 inside.2]
        exact ⟨bit, fun slot => other ⟨rfl, slot⟩⟩
      · rw [Function.update_of_ne same]
        exact bit
  obtain ⟨timers', phases'⟩ := quieter.batches bounded guarded rfl rfl
  refine ⟨?_, ?_, ?_, guarded.old, ?_, ?_, ?_, timers', phases'⟩
  · exact fun core' task' x here => guarded.slots _ _ _ (left here).2
  · exact fun c₁ t₁ c₂ t₂ x y first second same =>
      guarded.ids _ _ _ _ _ _ (left first).2 (left second).2 same
  · exact fun core' task' x here => guarded.fresh _ _ _ (left here).2
  · intro core' task' small small'
    refine (guarded.mask core' task' small small').trans ⟨fun all x here => all x (left here).2, ?_⟩
    intro all x here
    by_cases slot : core' = core ∧ task' = task
    · obtain ⟨rfl, rfl⟩ := slot
      obtain rfl := Option.some.inj (running.symm.trans here)
      exact locked
    · exact all x ((replacedRead _ _ _ _ _ _ _).mpr (.inr ⟨slot, here⟩))
  · exact fun core' task' x here => guarded.never _ _ _ (left here).2
  · exact fun core' task' x here => guarded.keeps _ _ _ (left here).2

theorem Guarded.finish (guarded : Guarded cfg w) (bounded : Bounded w) (square : cfg.clusters = cfg.cores)
    (running : w.tasks core task = some t) : Guarded cfg (w.finishTask cfg core task t) := by
  rw [World.finishTask]
  split
  · have locked := guarded.lock bounded square running
    refine locked.leave (t := { t with locked := true }) (bounded.same (sameLock cfg w core task t)) ?_ rfl
    exact (replacedRead _ _ _ _ _ _ _).mpr (.inl ⟨rfl, rfl, rfl⟩)
  · rename_i never
    exact guarded.leave bounded running (guarded.never _ _ _ running (by simpa using never))

theorem Guarded.terminate (guarded : Guarded cfg w) (bounded : Bounded w) (square : cfg.clusters = cfg.cores)
    (c : Callback) : Guarded cfg (w.terminate cfg c) := by
  rw [World.terminate]
  split
  · rename_i running
    exact guarded.finish bounded square running
  · exact guarded

theorem Guarded.frame (guarded : Guarded cfg w)
    (same : w'.tasks = w.tasks ∧ w'.nextId = w.nextId ∧ w'.rcu.swCtstws = w.rcu.swCtstws)
    (old : (∀ c ∈ w'.calls, ∀ g ∈ c.guards, g < w.nextId) ∧ ∀ e ∈ w'.queue, ∀ g ∈ e.guards, g < w.nextId)
    (keeps : ∀ core task x, w.tasks core task = some x →
      (∀ c ∈ w'.calls, x.id ∈ c.guards → x.locked = true) ∧
        ∀ e ∈ w'.queue, x.id ∈ e.guards → x.locked = true)
    (timers : ∀ batch ∈ w'.timers, Primed w' batch.toNat)
    (phases : ∀ c ∈ w'.callbacks, c.phase.Guards w') : Guarded cfg w' := by
  obtain ⟨tasks, nextId, words⟩ := same
  refine ⟨?_, ?_, ?_, ?_, ?_, ?_, ?_, timers, phases⟩
  · rw [tasks]; exact guarded.slots
  · rw [tasks]; exact guarded.ids
  · rw [tasks, nextId]; exact guarded.fresh
  · rw [nextId]; exact old
  · rw [words, tasks]; exact guarded.mask
  · rw [tasks]; exact guarded.never
  · rw [tasks]; exact keeps

theorem holdersMem {g : Nat} : g ∈ w.holders cfg ↔ ∃ core < cfg.total, ∃ task < numTasks, ∃ x,
    w.tasks core task = some x ∧ x.locked = true ∧ x.id = g := by
  simp only [World.holders, List.mem_flatMap, List.mem_filterMap, List.mem_range,
    Option.bind_eq_some_iff, Option.ite_none_right_eq_some, Option.some.injEq]

theorem Guarded.call (guarded : Guarded cfg w) (cb param : Nat) :
    Guarded cfg { w with calls := w.calls ++ [⟨cb, param, w.holders cfg⟩] } := by
  refine guarded.frame ⟨rfl, rfl, rfl⟩ ⟨fun c member g guard => ?_, guarded.old.2⟩
    (fun core task x running => ⟨fun c member guard => ?_, (guarded.keeps _ _ _ running).2⟩)
    guarded.timers guarded.phases
  · rcases List.mem_append.mp member with member | member
    · exact guarded.old.1 c member g guard
    · rw [List.mem_singleton.mp member] at guard
      obtain ⟨_, _, _, _, x, running, -, rfl⟩ := holdersMem.mp guard
      exact guarded.fresh _ _ _ running
  · rcases List.mem_append.mp member with member | member
    · exact (guarded.keeps _ _ _ running).1 c member guard
    · rw [List.mem_singleton.mp member] at guard
      obtain ⟨_, _, _, _, y, there, locked, same⟩ := holdersMem.mp guard
      obtain ⟨rfl, rfl⟩ := guarded.ids _ _ _ _ _ _ there running same
      obtain rfl := Option.some.inj (running.symm.trans there)
      exact locked

theorem Guarded.enqueue {pre post : List Call} {c : Call} (guarded : Guarded cfg w)
    (bounded : Bounded w) (calls : w.calls = pre ++ c :: post) (job : Nat) :
    Guarded cfg (w.enqueueCall (pre ++ post) c job) := by
  have inside {c' : Call} (member : c' ∈ pre ++ post) : c' ∈ w.calls := by
    rw [calls]
    rcases List.mem_append.mp member with member | member <;> simp [member]
  have here : c ∈ w.calls := by simp [calls]
  have words : (w.enqueueCall (pre ++ post) c job).rcu.swCtstws = w.rcu.swCtstws := by
    simp only [World.enqueueCall, ReadCopyUpdate.enqueue]
    split <;> rfl
  have quieter : Quieter w (w.enqueueCall (pre ++ post) c job) := by
    refine ⟨fun n small core task waits => ?_, fun n _ core task _ bit => bit⟩
    obtain ⟨e, member, waiting⟩ := waits
    change e ∈ (w.queue ++ [_]).take n at member
    rw [List.take_append_of_le_length small] at member
    exact ⟨e, member, waiting⟩
  obtain ⟨timers', phases'⟩ := quieter.batches bounded guarded rfl rfl
  refine guarded.frame ⟨rfl, rfl, words⟩
    ⟨fun c' member => guarded.old.1 c' (inside member), fun e member g guard => ?_⟩
    (fun core task x running => ⟨fun c' member => (guarded.keeps _ _ _ running).1 c' (inside member),
      fun e member guard => ?_⟩) timers' phases'
  · rcases List.mem_append.mp member with member | member
    · exact guarded.old.2 e member g guard
    · rw [List.mem_singleton.mp member] at guard
      exact guarded.old.1 c here g guard
  · rcases List.mem_append.mp member with member | member
    · exact (guarded.keeps _ _ _ running).2 e member guard
    · rw [List.mem_singleton.mp member] at guard
      exact (guarded.keeps _ _ _ running).1 c here guard

theorem primedNone (w : World) : Primed w 0 := by
  rintro core task ⟨e, member, -⟩
  simp at member

theorem Guarded.timer (guarded : Guarded cfg w) {batch : Int} (primed : Primed w batch.toNat)
    (ok : Bool) : Guarded cfg (w.initOneShotTimer batch ok) := by
  rw [World.initOneShotTimer]
  split
  · refine guarded.frame ⟨rfl, rfl, rfl⟩ guarded.old guarded.keeps (fun b member => ?_) guarded.phases
    rcases List.mem_append.mp member with member | member
    · exact guarded.timers b member
    · rw [List.mem_singleton.mp member]
      exact primed
  · exact guarded.frame ⟨rfl, rfl, rfl⟩ guarded.old guarded.keeps guarded.timers guarded.phases

theorem Guarded.withCallbacks (guarded : Guarded cfg w) {callbacks : List Callback}
    (phases : ∀ c ∈ callbacks, c.phase.Guards w) : Guarded cfg { w with callbacks := callbacks } :=
  guarded.frame ⟨rfl, rfl, rfl⟩ guarded.old guarded.keeps guarded.timers phases

theorem occupiedHas (w : World) (core : Nat) (small : task < numTasks)
    (here : (w.tasks core task).isSome) : Has (w.occupied core) task := by
  have grows (slots : List Nat) (inside : ∀ u ∈ slots, u < numTasks) (bits : BitVec 32)
      (reached : Has bits task ∨ task ∈ slots) : Has (slots.foldl (fun bits task =>
        if (w.tasks core task).isSome then bits ||| taskBit task else bits) bits) task := by
    induction slots generalizing bits with
    | nil => simpa using reached
    | cons u rest ih =>
      refine ih (fun v member => inside v (by simp [member])) _ ?_
      have smallU := inside u (by simp)
      dsimp only
      rcases reached with bit | member
      · left
        split
        · exact (hasSet small smallU).mpr (.inl bit)
        · exact bit
      · rcases List.mem_cons.mp member with rfl | member
        · left
          rw [if_pos here]
          exact (hasSet small smallU).mpr (.inr rfl)
        · exact .inr member
  exact grows _ (fun u member => List.mem_range.mp member) _ (.inr (List.mem_range.mpr small))

theorem Guarded.locks (guarded : Guarded cfg w) {n : Nat} (waits : Waits w n core task) :
    core < cfg.total ∧ task < numTasks ∧ Has (w.rcu.swCtstws core) task := by
  obtain ⟨e, member, x, running, guard⟩ := waits
  obtain ⟨inside, small⟩ := guarded.slots _ _ _ running
  refine ⟨inside, small, (guarded.mask core task inside small).mpr fun y there => ?_⟩
  obtain rfl := Option.some.inj (running.symm.trans there)
  exact (guarded.keeps _ _ _ running).2 e (List.mem_of_mem_take member) guard

theorem Guarded.advance {c : Callback} {c' : Option Callback} {ok : Bool} (guarded : Guarded cfg w)
    (kept : Kept w) (square : cfg.clusters = cfg.cores) (callbacks : w.callbacks = [c])
    (moved : { w with callbacks := [] }.advance cfg c ok = some (w', c')) :
    Guarded cfg { w' with callbacks := c'.toList } := by
  have guards := guarded.phases c (by simp [callbacks])
  have within := kept.phases c (by simp [callbacks])
  have base : Guarded cfg { w with callbacks := [] } := guarded.withCallbacks (by simp)
  have bounded : Bounded { w with callbacks := [] } := ⟨kept.timers, by simp⟩
  have stays (phase : Phase) {w₁ : World} (guarded : Guarded cfg w₁) (guards : phase.Guards w₁) :
      Guarded cfg { w₁ with callbacks := [{ c with phase := phase }] } :=
    guarded.withCallbacks fun c' member => by rw [List.mem_singleton.mp member]; exact guards
  obtain ⟨-, -, timers, -, -⟩ := @Kept.alone w [] [] c kept callbacks
  have ends (batch : Int) (within : ReadCopyUpdate.Within batch w.queue.length)
      (primed : Primed w batch.toNat) :
      Guarded cfg { ({ w with callbacks := [] }.initOneShotTimer batch ok).terminate cfg c with
        callbacks := [] } := by
    have timed : Bounded ({ w with callbacks := [] }.initOneShotTimer batch ok) := by
      rw [World.initOneShotTimer]
      split
      · refine ⟨fun b member => ?_, by simp⟩
        rcases List.mem_append.mp member with member | member
        · exact kept.timers b member
        · rw [List.mem_singleton.mp member]
          exact within
      · exact bounded
    exact ((base.timer primed ok).terminate timed square c).withCallbacks (by simp)
  obtain ⟨core, task, phase⟩ := c
  cases phase with
  | entered batch =>
    simp only [World.advance] at moved
    split at moved
    · rename_i running
      cases moved
      have guards' := (guarded.unlock kept.bounded square running).phases _
        (show _ ∈ w.callbacks from callbacks ▸ List.mem_singleton_self _)
      exact stays (.begun batch) (base.unlock bounded square running) guards'
    · cases moved
  | begun batch =>
    simp only [World.advance] at moved
    split at moved
    · cases moved
      exact stays (.priming w.rcu.listSize 0) base fun _ _ _ below => absurd below (Nat.not_lt_zero _)
    · cases moved
      exact stays (.polling batch.toNat 0 none) base ⟨guards, fun _ _ _ => Nat.zero_le _, by simp⟩
  | priming batch next =>
    simp only [World.advance] at moved
    split at moved
    · rename_i inside
      cases moved
      have written : Guarded cfg { w with
          callbacks := [], ctstws := Function.update w.ctstws next (w.occupied next) } :=
        base.frame ⟨rfl, rfl, rfl⟩ base.old base.keeps (by simp [timers])
          fun c member => absurd member List.not_mem_nil
      refine stays (.priming batch (next + 1)) written fun core task waits below => ?_
      change Has (Function.update w.ctstws next (w.occupied next) core) task
      by_cases here : core = next
      · subst here
        obtain ⟨-, -, x, running, -⟩ := waits
        have running : w.tasks core task = some x := running
        rw [Function.update_self]
        exact occupiedHas w core (guarded.slots _ _ _ running).2 (by rw [running]; rfl)
      · rw [Function.update_of_ne here]
        exact guards core task waits (by omega)
    · rename_i past
      cases moved
      refine stays (.polling batch 0 none) base ⟨fun core task waits => ?_, fun _ _ _ => Nat.zero_le _, by simp⟩
      have := (guarded.locks waits).1
      exact guards core task waits (by omega)
  | polling batch next seen =>
    obtain ⟨primed, passed, read⟩ := guards
    cases seen with
    | none =>
      simp only [World.advance] at moved
      split at moved
      · cases moved
        refine stays (.polling batch next (some (w.ctstws next))) base ⟨primed, passed, ?_⟩
        intro bits same task waits
        exact Option.some.inj same ▸ primed next task waits
      · rename_i past
        split at moved <;> cases moved
        refine stays (.draining batch) base fun core task waits => ?_
        have := (guarded.locks waits).1
        have := passed core task waits
        omega
    | some seen =>
      simp only [World.advance] at moved
      split at moved
      · cases moved
        exact stays (.rearming batch) base primed
      · rename_i zero
        cases moved
        refine stays (.polling batch (next + 1) none) base ⟨primed, fun core task waits => ?_, by simp⟩
        rcases Nat.eq_or_lt_of_le (passed core task waits) with rfl | later
        · exact absurd (hasBoth (read seen rfl task waits) (guarded.locks waits).2.2) zero
        · exact later
  | rearming batch =>
    cases moved
    have within : 0 < batch ∧ batch ≤ w.queue.length := within
    exact ends batch (.inr ⟨by omega, by omega⟩) guards
  | restarting =>
    cases moved
    exact ends (-1) (.inl rfl) (primedNone w)
  | draining left =>
    have drained : Guarded cfg (World.drain { w with callbacks := [] }) := by
      refine base.frame ⟨rfl, rfl, ?_⟩
        ⟨base.old.1, fun e member => base.old.2 e (List.mem_of_mem_tail member)⟩
        (fun core task x running => ⟨(base.keeps _ _ _ running).1,
          fun e member => (base.keeps _ _ _ running).2 e (List.mem_of_mem_tail member)⟩)
        (by simp [World.drain, timers]) (by simp [World.drain])
      simp only [World.drain, dequeue]
      split <;> rfl
    simp only [World.advance] at moved
    split at moved
    · rename_i more
      cases moved
      refine stays (.draining (left - 1)) drained fun core task waits => guards core task ?_
      obtain ⟨e, member, waiting⟩ := waits
      refine ⟨e, ?_, waiting⟩
      change e ∈ w.queue.tail.take (left - 1) at member
      cases queue : w.queue with
      | nil => simp [queue] at member
      | cons first rest =>
        rw [queue, List.tail_cons] at member
        rw [show left = left - 1 + 1 by omega, List.take_succ_cons]
        exact List.mem_cons_of_mem _ member
    · split at moved
      · cases moved
        exact stays .restarting drained trivial
      · cases moved
        refine (drained.terminate ⟨?_, ?_⟩ square _).withCallbacks (by simp)
        · simp [World.drain, timers]
        · simp [World.drain]

theorem Guarded.step (guarded : Guarded cfg w) (kept : Kept w) (square : cfg.clusters = cfg.cores)
    (step : Step cfg w w') : Guarded cfg w' := by
  cases step with
  | start inside free => exact guarded.start kept.bounded inside free
  | unlock running => exact guarded.unlock kept.bounded square running
  | lock running => exact guarded.lock kept.bounded square running
  | finish running plain => exact guarded.finish kept.bounded square running
  | call cb param => exact guarded.call cb param
  | enqueue calls fresh => exact guarded.enqueue kept.bounded calls _
  | refuse calls =>
    refine guarded.frame ⟨rfl, rfl, rfl⟩ ⟨fun c member => guarded.old.1 c ?_, guarded.old.2⟩
      (fun core task x running => ⟨fun c member => (guarded.keeps _ _ _ running).1 c ?_,
        (guarded.keeps _ _ _ running).2⟩) guarded.timers guarded.phases
    all_goals
      rw [calls]
      rcases List.mem_append.mp member with member | member <;> simp [member]
  | arm told ok =>
    have counted : Guarded cfg { w with starters := w.starters - 1 } :=
      guarded.frame ⟨rfl, rfl, rfl⟩ guarded.old guarded.keeps guarded.timers guarded.phases
    exact counted.timer (primedNone _) ok
  | @fire pre post batch core task timers inside free =>
    have started := guarded.start kept.bounded inside free
    have primed := started.timers batch (show batch ∈ w.timers from timers ▸ by simp)
    refine started.frame ⟨rfl, rfl, rfl⟩ started.old started.keeps (fun b member => ?_)
      (fun c member => ?_)
    · refine started.timers b (show b ∈ w.timers from ?_)
      rw [timers]
      rcases List.mem_append.mp member with member | member <;> simp [member]
    · rcases List.mem_append.mp member with member | member
      · exact started.phases c member
      · rw [List.mem_singleton.mp member]
        exact primed
  | @advance w₁ pre post c c' ok callbacks moved =>
    obtain ⟨rfl, rfl, -⟩ := kept.alone callbacks
    have result := guarded.advance kept square callbacks moved
    simpa using result

theorem guardedStart (cfg : Config) : Guarded cfg .start := by
  refine ⟨?_, ?_, ?_, ⟨?_, ?_⟩, ?_, ?_, ?_, ?_, ?_⟩
  case refine_6 => exact fun core task _ small =>
    ⟨fun _ x none => absurd none (by simp [World.start]), fun _ => hasMask small⟩
  all_goals simp [World.start]

theorem Reachable.guarded (reached : Reachable cfg w) (square : cfg.clusters = cfg.cores) :
    Guarded cfg w := by
  induction reached with
  | start => exact guardedStart cfg
  | step reached next ih => exact ih.step reached.kept square next

end

def GracePeriod (w : World) : Prop :=
  ∀ c ∈ w.callbacks, ∀ left, c.phase = .draining left →
    ∃ e rest, w.queue = e :: rest ∧ (dequeue w.memory w.rcu).2 = e.job ∧
      ∀ g ∈ e.guards, ∀ core task x, w.tasks core task = some x → x.id ≠ g

theorem Guarded.grace {cfg : Config} {w : World} (guarded : Guarded cfg w) (kept : Kept w) :
    GracePeriod w := by
  intro c member left draining
  have guards := guarded.phases c member
  have within := kept.phases c member
  rw [draining] at guards within
  have within : 0 < left ∧ left ≤ w.queue.length := within
  obtain ⟨e, rest, queue⟩ := List.exists_cons_of_length_pos (by omega : 0 < w.queue.length)
  refine ⟨e, rest, queue, (kept.dequeued queue).1, fun g guard core task x running same => ?_⟩
  refine guards core task ⟨e, ?_, x, running, same ▸ guard⟩
  rw [queue, show left = left - 1 + 1 by omega, List.take_succ_cons]
  exact List.mem_cons_self

theorem gracePeriod (cfg : Config) :
    ((∀ core < cfg.total, cfg.maskIndex core = core) ∧ ∀ w, Reachable cfg w → GracePeriod w) ↔
      cfg.clusters = cfg.cores := by
  constructor
  · exact fun holds => (maskIndexAgrees cfg).mp holds.1
  · exact fun square => ⟨(maskIndexAgrees cfg).mpr square,
      fun w reached => (reached.guarded square).grace reached.kept⟩

def World.stepCallback (cfg : Config) (w : World) : World :=
  match w.callbacks with
  | [c] =>
    match { w with callbacks := [] }.advance cfg c true with
    | some (w', c') => { w' with callbacks := c'.toList }
    | none => w
  | _ => w

def World.stepCallbacks (cfg : Config) : Nat → World → World
  | 0, w => w
  | n + 1, w => (w.stepCallback cfg).stepCallbacks cfg n

theorem Reachable.stepCallback {cfg : Config} {w : World} (reached : Reachable cfg w) :
    Reachable cfg (w.stepCallback cfg) := by
  unfold World.stepCallback
  split
  · rename_i c callbacks
    split
    · rename_i w' c' moved
      have next := reached.step (@Step.advance cfg w w' [] [] c c' true callbacks moved)
      simpa using next
    · exact reached
  · exact reached

theorem Reachable.stepCallbacks {cfg : Config} {w : World} (reached : Reachable cfg w) (n : Nat) :
    Reachable cfg (w.stepCallbacks cfg n) := by
  induction n generalizing w with
  | zero => exact reached
  | succ n ih => exact ih reached.stepCallback

def twoClusters : Config := ⟨2, 0, by decide⟩

def calledWorld : World :=
  let w := (World.start.startTask 0 0).startTask 1 0
  let w : World := { w with calls := w.calls ++ [⟨7, 8, w.holders twoClusters⟩] }
  w.readUnlock twoClusters 1 0 ⟨1, true, false⟩

def firedWorld : World :=
  let w := calledWorld.enqueueCall [] ⟨7, 8, [0]⟩ 0x100
  let w : World := { w with starters := w.starters - 1 }
  let w := w.initOneShotTimer (-1) true
  { w.startTask 0 1 with timers := [], callbacks := w.callbacks ++ [⟨0, 1, .entered (-1)⟩] }

def pollingWorld : World := firedWorld.stepCallbacks twoClusters 7

def drainingWorld : World :=
  (pollingWorld.finishTask twoClusters 1 0 ⟨1, false, true⟩).stepCallbacks twoClusters 3

theorem drainingReachable : Reachable twoClusters drainingWorld := by
  have called : Reachable twoClusters calledWorld := by
    have first := Reachable.step .start (@Step.start twoClusters .start 0 0 (by decide) rfl)
    have second := first.step (@Step.start twoClusters _ 1 0 (by decide) rfl)
    exact (second.step (.call 7 8)).step (.unlock rfl)
  have fired : Reachable twoClusters firedWorld := by
    have queued := called.step (@Step.enqueue _ _ [] [] ⟨7, 8, [0]⟩ 0x100 rfl ⟨by decide, by decide⟩)
    have armed := queued.step (.arm (by decide) true)
    exact armed.step (@Step.fire _ _ [] [] (-1) 0 1 rfl (by decide) rfl)
  exact ((fired.stepCallbacks 7).step (.finish rfl (by decide))).stepCallbacks 3

theorem gracePeriodBroken : Reachable twoClusters drainingWorld ∧ ¬ GracePeriod drainingWorld ∧
    (∃ x, drainingWorld.tasks 0 0 = some x ∧ x.id = 0 ∧ x.locked = true ∧ x.rcuUnlock = false) := by
  have queue : drainingWorld.queue = [⟨0x100, 7, 8, [0]⟩] := by decide
  have running : drainingWorld.tasks 0 0 = some ⟨0, true, false⟩ := by decide
  have callbacks : drainingWorld.callbacks = [⟨0, 1, .draining 1⟩] := by decide
  refine ⟨drainingReachable, fun grace => ?_, ⟨_, running, rfl, rfl, rfl⟩⟩
  obtain ⟨e, rest, here, -, ended⟩ := grace ⟨0, 1, .draining 1⟩ (by simp [callbacks]) 1 rfl
  rw [queue] at here
  obtain ⟨rfl, -⟩ := List.cons.inj here
  exact ended 0 (by simp) 0 0 _ running rfl

end Flexbuild.ReadCopyUpdate
