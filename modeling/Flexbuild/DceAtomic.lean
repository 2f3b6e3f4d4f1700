import Mathlib.Tactic.Common
import Flexbuild.DceSteps

/-! What a failed call leaves behind. The frame is built before it is handed to the DCE, and building
it consumes the recycle bit and moves the stream on; when the DCE does not take the frame, only the
unit goes back. -/
namespace Flexbuild.Dce

variable {κ : Type}

def enospc : Int := -28
def eacces : Int := -13
def ebusy : Int := -16

-- A call that runs to its end, with `sent` for what `enqueue_fd` returns. An assert ends the program.
def enqueueFdPair (paradigm : Paradigm) (sent : Int) (s : Session κ) (op : Op) : Option (Session κ × Int) :=
  if paradigm = .statefulRecycle ∧ s.sem = 0 then some (s, if s.recycleTodo ≠ 0 then eacces else ebusy)
  else
    let s := if paradigm = .statefulRecycle then s.acquire else s
    if s.recycleTodo ≠ 0 then none
    else
      match s.prepare paradigm op with
      | none => some (s.post paradigm, enospc)
      | some (u, s) =>
        if sent = 0 then some (((s.submit op u).post paradigm).markTodo u, 0)
        else if s.fifo.isEmpty then none
        else some ((s.post paradigm).undo.post paradigm, sent)

def recycleFdPair (paradigm : Paradigm) (sent : Int) (s : Session κ) (op : Op) : Option (Session κ × Int) :=
  if paradigm ≠ .statefulRecycle then none
  else if s.lock.isSome then some (s, ebusy)
  else if s.recyclerAllowed = false then some (s, eacces)
  else if s.recycleTodo = 0 then none
  else
    match s.prepare paradigm op with
    | none => some (s, enospc)
    | some (u, s) =>
      if sent = 0 then
        some ((s.submit op u).handledOne.markTodo u, if s.recycleTodo - 1 = 0 then 1 else 0)
      else if s.fifo.isEmpty then none
      else some (s.undo, sent)

structure Prepared (paradigm : Paradigm) (op : Op) (s t : Session κ) (u : Nat) : Prop where
  recycleTodo : t.recycleTodo = s.recycleTodo
  recyclerAllowed : t.recyclerAllowed = s.recyclerAllowed
  lock : t.lock = s.lock
  fifo : s.fifo.alloc = some (u, t.fifo)
  recycle : t.recycle = false
  streamEnd : t.streamEnd = if paradigm = .statefulRecycle then decide (op.flush = .finish) else s.streamEnd
  carried : (t.unit u).fdList = ⟨op.inputFd.length, s.recycle, decide (paradigm = .statefulRecycle) && s.streamEnd,
    if paradigm = .statefulRecycle then op.flush else .noFlush, .fullyProcessed⟩

variable {paradigm : Paradigm}

theorem prepared {op : Op} {s t : Session κ} {u : Nat} (room : s.prepare paradigm op = some (u, t)) :
    Prepared paradigm op s t u := by
  unfold Session.prepare at room
  split at room
  · cases room
  next u' fifo place =>
  cases paradigm with
  | stateless =>
    cases room
    refine ⟨rfl, rfl, rfl, place, rfl, rfl, ?_⟩
    simp only [Session.fill, Session.setUnit, Function.update_self, Op.workUnit]
    rfl
  | statefulRecycle =>
    cases room
    refine ⟨rfl, rfl, rfl, place, rfl, rfl, ?_⟩
    simp only [Session.fill, Session.setUnit, Function.update_self, Op.workUnit]
    rfl

theorem preparedSem {op : Op} {s t : Session κ} {u : Nat} (room : s.prepare paradigm op = some (u, t)) :
    t.sem = s.sem := by
  unfold Session.prepare at room
  split at room
  · cases room
  · cases paradigm <;> cases room <;> rfl

theorem prepareFull {op : Op} {s : Session κ} (full : s.fifo.isFull = true) : s.prepare paradigm op = none := by
  unfold Session.prepare Fifo.alloc
  rw [if_pos full]

theorem prepareRoom {s : Session κ} (paradigm : Paradigm) (op : Op) (room : ¬s.fifo.isFull = true) :
    ∃ u t, s.prepare paradigm op = some (u, t) := by
  unfold Session.prepare Fifo.alloc
  rw [if_neg room]
  cases paradigm <;> exact ⟨_, _, rfl⟩

structure Unmoved (paradigm : Paradigm) (op : Op) (s t : Session κ) : Prop where
  streamEnd : t.streamEnd = s.streamEnd
  recycle : t.recycle = s.recycle
  recycleTodo : t.recycleTodo = s.recycleTodo
  recyclerAllowed : t.recyclerAllowed = s.recyclerAllowed
  fifo : t.fifo = s.fifo
  sem : t.sem = s.sem
  retried : ∀ u a v b, s.prepare paradigm op = some (u, a) → t.prepare paradigm op = some (v, b) →
    v = u ∧ (b.unit v).fdList = (a.unit u).fdList

section failing

variable {paradigm : Paradigm} {sent : Int} {s t : Session κ} {op : Op} {ret : Int} {u : Nat}

theorem keptFields (streamEnd : t.streamEnd = s.streamEnd) (recycle : t.recycle = s.recycle)
    (recycleTodo : t.recycleTodo = s.recycleTodo) (recyclerAllowed : t.recyclerAllowed = s.recyclerAllowed)
    (fifo : t.fifo = s.fifo) (sem : t.sem = s.sem) : Unmoved paradigm op s t := by
  refine ⟨streamEnd, recycle, recycleTodo, recyclerAllowed, fifo, sem, fun u a v b first again => ?_⟩
  have built := prepared first
  have rebuilt := prepared again
  have place := rebuilt.fifo
  rw [fifo, built.fifo] at place
  have same : v = u := congrArg Prod.fst (Option.some.inj place).symm
  refine ⟨same, ?_⟩
  rw [rebuilt.carried, built.carried, recycle, streamEnd]

theorem keptSelf : Unmoved paradigm op s s := keptFields rfl rfl rfl rfl rfl rfl

theorem undoRestores {f g : Fifo} (valid : f.Valid) (eq : f.alloc = some (u, g)) : g.isEmpty = false ∧ g.allocUndo = f := by
  have grown := allocGrown valid eq
  constructor
  · rw [← Bool.not_eq_true, isEmptyIff grown.valid, grown.numAlloc]
    omega
  · have inside := valid.allocer
    unfold Fifo.alloc at eq
    split at eq
    · cases eq
    · cases eq
      unfold Fifo.allocUndo numBufs at *
      cases f
      congr 1
      dsimp only at *
      split <;> omega

theorem undoneKept (valid : s.fifo.Valid) (built : Prepared paradigm op s t u) (sem : Nat) :
    Unmoved paradigm op s { t.undo with sem := sem } ↔
      sem = s.sem ∧ s.recycle = false ∧ (paradigm = .statefulRecycle → (s.streamEnd = true ↔ op.flush = .finish)) := by
  have fifo := (undoRestores valid built.fifo).2
  constructor
  · intro kept
    refine ⟨kept.sem, kept.recycle.symm.trans built.recycle, fun stateful => ?_⟩
    have moved : t.streamEnd = s.streamEnd := kept.streamEnd
    rw [← moved, built.streamEnd, if_pos stateful, decide_eq_true_iff]
  · rintro ⟨same, clear, settled⟩
    refine keptFields ?_ (built.recycle.trans clear.symm) built.recycleTodo built.recyclerAllowed fifo same
    refine built.streamEnd.trans ?_
    split
    · next stateful =>
      rw [Bool.eq_iff_iff, decide_eq_true_iff]
      exact (settled stateful).symm
    · rfl

def EnqueueAtomic (paradigm : Paradigm) (sent : Int) (s : Session κ) (op : Op) : Prop :=
  ∀ t ret, enqueueFdPair paradigm sent s op = some (t, ret) → ret < 0 → Unmoved paradigm op s t

def RecycleAtomic (paradigm : Paradigm) (sent : Int) (s : Session κ) (op : Op) : Prop :=
  ∀ t ret, recycleFdPair paradigm sent s op = some (t, ret) → ret < 0 → Unmoved paradigm op s t

def EnqueueEnds (paradigm : Paradigm) (s : Session κ) : Prop :=
  paradigm = .statefulRecycle ∧ s.sem = 0 ∨ s.recycleTodo ≠ 0 ∨ s.fifo.isFull = true

def RecycleEnds (paradigm : Paradigm) (s : Session κ) : Prop :=
  paradigm ≠ .statefulRecycle ∨ s.lock ≠ none ∨ s.recyclerAllowed = false ∨ s.recycleTodo = 0 ∨ s.fifo.isFull = true

theorem postedTwice (paradigm : Paradigm) (t : Session κ) : ((t.post paradigm).undo).post paradigm =
    { t.undo with sem := if paradigm = .statefulRecycle then t.sem + 2 else t.sem } := by
  cases paradigm <;> rfl

theorem enqueueAtomic (valid : s.fifo.Valid) : EnqueueAtomic paradigm sent s op ↔
    0 ≤ sent ∨ EnqueueEnds paradigm s ∨ paradigm = .stateless ∧ s.recycle = false := by
  unfold EnqueueAtomic enqueueFdPair EnqueueEnds
  by_cases busy : paradigm = .statefulRecycle ∧ s.sem = 0
  · rw [if_pos busy]
    refine iff_of_true (fun t ret done _ => ?_) (Or.inr (Or.inl (Or.inl busy)))
    cases done
    exact keptSelf
  rw [if_neg busy]
  generalize begun : (if paradigm = .statefulRecycle then s.acquire else s) = s'
  have same : s' = { s with sem := if paradigm = .statefulRecycle then s.sem - 1 else s.sem } := by
    rw [← begun]
    split <;> rfl
  subst same
  dsimp only
  by_cases recycling : s.recycleTodo ≠ 0
  · rw [if_pos recycling]
    exact iff_of_true (fun t ret done => (nomatch done)) (Or.inr (Or.inl (Or.inr (Or.inl recycling))))
  rw [if_neg recycling]
  by_cases full : s.fifo.isFull = true
  · have none_ : Session.prepare paradigm op
        { s with sem := if paradigm = .statefulRecycle then s.sem - 1 else s.sem } = none := prepareFull full
    rw [none_]
    refine iff_of_true (fun t ret done _ => ?_) (Or.inr (Or.inl (Or.inr (Or.inr full))))
    cases done
    cases paradigm with
    | stateless => exact keptSelf
    | statefulRecycle =>
      have taken : s.sem ≠ 0 := fun empty => busy ⟨rfl, empty⟩
      exact keptFields rfl rfl rfl rfl rfl (Nat.sub_add_cancel (Nat.pos_of_ne_zero taken))
  have ends : ¬(paradigm = .statefulRecycle ∧ s.sem = 0 ∨ s.recycleTodo ≠ 0 ∨ s.fifo.isFull = true) := by
    rintro (ended | ended | ended)
    · exact busy ended
    · exact recycling ended
    · exact full ended
  obtain ⟨u, t, room⟩ : ∃ u t, Session.prepare paradigm op
      { s with sem := if paradigm = .statefulRecycle then s.sem - 1 else s.sem } = some (u, t) := prepareRoom paradigm op full
  have taken := prepared room
  have built : Prepared paradigm op s t u :=
    ⟨taken.recycleTodo, taken.recyclerAllowed, taken.lock, taken.fifo, taken.recycle, taken.streamEnd, taken.carried⟩
  rw [room, or_iff_right ends]
  dsimp only
  by_cases accepted : sent = 0
  · rw [if_pos accepted]
    refine iff_of_true (fun t ret done negative => ?_) (Or.inl (Int.le_of_eq accepted.symm))
    cases done
    cases negative
  rw [if_neg accepted, if_neg (by rw [(undoRestores valid built.fifo).1]; decide), postedTwice]
  by_cases negative : 0 ≤ sent
  · refine iff_of_true (fun t ret done refused => ?_) (Or.inl negative)
    cases done
    omega
  have kept := undoneKept valid built (if paradigm = .statefulRecycle then t.sem + 2 else t.sem)
  have sem : t.sem = if paradigm = .statefulRecycle then s.sem - 1 else s.sem := preparedSem room
  rw [or_iff_right negative]
  constructor
  · intro atomic
    obtain ⟨posted, clear, -⟩ := kept.mp (atomic _ _ rfl (by omega))
    cases paradigm with
    | stateless => exact ⟨rfl, clear⟩
    | statefulRecycle =>
      simp only [if_true] at posted sem
      omega
  · rintro ⟨rfl, clear⟩ t' ret done -
    cases done
    exact kept.mpr ⟨sem, clear, fun other => (nomatch other)⟩

theorem recycleAtomic (valid : s.fifo.Valid) : RecycleAtomic paradigm sent s op ↔
    0 ≤ sent ∨ RecycleEnds paradigm s ∨ s.recycle = false ∧ (s.streamEnd = true ↔ op.flush = .finish) := by
  unfold RecycleAtomic recycleFdPair RecycleEnds
  by_cases stateful : paradigm ≠ .statefulRecycle
  · rw [if_pos stateful]
    exact iff_of_true (fun t ret done => (nomatch done)) (Or.inr (Or.inl (Or.inl stateful)))
  rw [if_neg stateful]
  by_cases held : s.lock.isSome = true
  · rw [if_pos held]
    refine iff_of_true (fun t ret done _ => ?_) (Or.inr (Or.inl (Or.inr (Or.inl (Option.isSome_iff_ne_none.mp held)))))
    cases done
    exact keptSelf
  rw [if_neg held]
  by_cases denied : s.recyclerAllowed = false
  · rw [if_pos denied]
    refine iff_of_true (fun t ret done _ => ?_) (Or.inr (Or.inl (Or.inr (Or.inr (Or.inl denied)))))
    cases done
    exact keptSelf
  rw [if_neg denied]
  by_cases none_ : s.recycleTodo = 0
  · rw [if_pos none_]
    exact iff_of_true (fun t ret done => (nomatch done)) (Or.inr (Or.inl (Or.inr (Or.inr (Or.inr (Or.inl none_))))))
  rw [if_neg none_]
  by_cases full : s.fifo.isFull = true
  · rw [prepareFull full]
    refine iff_of_true (fun t ret done _ => ?_) (Or.inr (Or.inl (Or.inr (Or.inr (Or.inr (Or.inr full))))))
    cases done
    exact keptSelf
  obtain ⟨u, t, room⟩ := prepareRoom paradigm op full
  have built := prepared room
  have ends : ¬(paradigm ≠ .statefulRecycle ∨ s.lock ≠ none ∨ s.recyclerAllowed = false ∨ s.recycleTodo = 0 ∨ s.fifo.isFull = true) := by
    rintro (ended | ended | ended | ended | ended)
    · exact stateful ended
    · exact held (Option.isSome_iff_ne_none.mpr ended)
    · exact denied ended
    · exact none_ ended
    · exact full ended
  rw [room, or_iff_right ends]
  dsimp only
  by_cases accepted : sent = 0
  · rw [if_pos accepted]
    refine iff_of_true (fun t ret done negative => ?_) (Or.inl (Int.le_of_eq accepted.symm))
    cases done
    split at negative <;> cases negative
  rw [if_neg accepted, if_neg (by rw [(undoRestores valid built.fifo).1]; decide)]
  by_cases negative : 0 ≤ sent
  · refine iff_of_true (fun t ret done refused => ?_) (Or.inl negative)
    cases done
    omega
  · have kept := undoneKept valid built t.sem
    have sem : t.sem = s.sem := preparedSem room
    rw [or_iff_right negative]
    constructor
    · intro atomic
      obtain ⟨-, clear, settled⟩ := kept.mp (atomic _ _ rfl (by omega))
      exact ⟨clear, settled (not_not.mp stateful)⟩
    · rintro ⟨clear, settled⟩ t' ret done -
      cases done
      exact kept.mpr ⟨sem, clear, fun _ => settled⟩

theorem failuresAtomic (paradigm : Paradigm) (sent : Int) (s : Session κ) (op : Op) (valid : s.fifo.Valid) :
    (EnqueueAtomic paradigm sent s op ↔ 0 ≤ sent ∨ EnqueueEnds paradigm s ∨ paradigm = .stateless ∧ s.recycle = false) ∧
    (RecycleAtomic paradigm sent s op ↔
      0 ≤ sent ∨ RecycleEnds paradigm s ∨ s.recycle = false ∧ (s.streamEnd = true ↔ op.flush = .finish)) :=
  ⟨enqueueAtomic valid, recycleAtomic valid⟩

def smallOp : Op := ⟨⟨0x1000, 64, 0⟩, ⟨0x2000, 128, 0⟩, .noFlush, 7⟩

theorem failuresAtomicExample : EnqueueAtomic .stateless (-5) (Session.create .stateless : Session Unit) smallOp :=
  (failuresAtomic .stateless (-5) (Session.create .stateless : Session Unit) smallOp startValid).1.mpr (Or.inr (Or.inr ⟨rfl, rfl⟩))

theorem firstFrameLost : ¬EnqueueAtomic .statefulRecycle (-5) (Session.create .statefulRecycle : Session Unit) smallOp := by
  intro atomic
  have kept := (atomic _ _ rfl (by decide)).sem
  exact absurd kept (by decide)

end failing

end Flexbuild.Dce
