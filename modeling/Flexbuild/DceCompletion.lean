import Flexbuild.DceQueue

/-! One thread enqueues and one dequeues. What the callback has marked DONE is what the dequeuing
thread returns next, in the order of the enqueues, as long as no callback comes between
`enqueue_fd` and the TODO that the enqueuing thread writes after it. -/
namespace Flexbuild.Dce
open Placements

inductive Party where
  | enqueuer | dequeuer
  deriving DecidableEq, Repr

def Party.calls : Party → Action → Bool
  | .enqueuer, .dequeue _ => false
  | .dequeuer, .enqueue _ => false
  | .dequeuer, .recycleFdPair _ => false
  | _, _ => true

def Pc.marking : Pc → Option Nat
  | .posting u ok => if ok then some u else none
  | .tail u | .recycled u => some u
  | _ => none

section Parties

variable {κ : Type} {s s' : Session κ} {q q' : Queue} {e e' d d' : Pc} {u : Nat} {k : κ} {a : Action}
  {paradigm : Paradigm} {w : WorkUnit} {j : Job} {rest : List Job}

structure Last (s : Session κ) (q : Queue) (u : Nat) : Prop where
  pending : q.pending = []
  slot : ∃ i, i + 1 = q.given ∧ q.called.length ≤ i ∧ u = s.fifo.headSeek i

def Enqueues (s : Session κ) (q : Queue) : Pc → Prop
  | .idle | .alloc _ | .noSpace => q.pending = []
  | .send op u | .recycling op u =>
      (∃ j, q.pending = [j] ∧ j.op = op) ∧ u = s.fifo.headSeek q.given
  | .posting u ok => if ok then Last s q u else ∃ j, q.pending = [j]
  | .undo => ∃ j, q.pending = [j]
  | .tail u | .recycled u => Last s q u
  | _ => False

def Dequeues (s : Session κ) (q : Queue) : Pc → Prop
  | .idle => True
  | .tryLock _ u | .dequeuing _ u => u = s.fifo.head
  | .taken _ u => u = s.fifo.head ∧ q.called ≠ [] ∧ (s.unit u).state = .free
  | _ => False

structure Flow (s : Session κ) (q : Queue) (e d : Pc) : Prop where
  alive : s.failed = none
  queued : Queued s q
  enqueuer : Enqueues s q e
  dequeuer : Dequeues s q d
  done : ∀ i, i < q.called.length → (i = 0 → d.takes = false) →
    (s.unit (s.fifo.headSeek i)).state = .done
  marked : ∀ i, q.called.length ≤ i → i < q.given → (i + 1 = q.given → e.marking = none) →
    (s.unit (s.fifo.headSeek i)).state = .todo

theorem enqueuesKeep (pending : q'.pending = q.pending)
    (seek : s'.fifo.headSeek q'.given = s.fifo.headSeek q.given)
    (last : ∀ v, e.marking = some v → Last s q v → Last s' q' v) (ok : Enqueues s q e) :
    Enqueues s' q' e := by
  cases e with
  | idle => exact pending.trans ok
  | alloc op => exact pending.trans ok
  | noSpace => exact pending.trans ok
  | send op u =>
    obtain ⟨⟨j, only, eq⟩, slot⟩ := ok
    exact ⟨⟨j, pending.trans only, eq⟩, slot.trans seek.symm⟩
  | recycling op u =>
    obtain ⟨⟨j, only, eq⟩, slot⟩ := ok
    exact ⟨⟨j, pending.trans only, eq⟩, slot.trans seek.symm⟩
  | posting u sent =>
    cases sent with
    | true => exact last u rfl ok
    | false =>
      obtain ⟨j, only⟩ := ok
      exact ⟨j, pending.trans only⟩
  | undo =>
    obtain ⟨j, only⟩ := ok
    exact ⟨j, pending.trans only⟩
  | tail u => exact last u rfl ok
  | recycled u => exact last u rfl ok
  | _ => cases ok

theorem enqueuesSame (same : SameQueue s s') (ok : Enqueues s q e) : Enqueues s' q e := by
  refine enqueuesKeep rfl (by rw [same.fifo]) ?_ ok
  intro u _ last
  refine ⟨last.pending, ?_⟩
  rw [same.fifo]
  exact last.slot

theorem dequeuesSame (same : SameQueue s s') (ok : Dequeues s q d) : Dequeues s' q d := by
  cases d with
  | tryLock n u => exact ok.trans (by rw [same.fifo])
  | dequeuing n u => exact ok.trans (by rw [same.fifo])
  | taken n u =>
    refine ⟨?_, ok.2.1, ?_⟩
    · rw [same.fifo]
      exact ok.1
    · rw [same.unit]
      exact ok.2.2
  | _ => exact ok

theorem flowSame (ok : Flow s q e d) (same : SameQueue s s') (alive : s'.failed = none)
    (enqueuer : Enqueues s q e') (marking : e'.marking = e.marking) (dequeuer : Dequeues s q d')
    (takes : d'.takes = d.takes) : Flow s' q e' d' := by
  refine ⟨alive, queuedSame same ok.queued, enqueuesSame same enqueuer, dequeuesSame same dequeuer,
    ?_, ?_⟩
  · rw [same.unit, same.fifo, takes]
    exact ok.done
  · rw [same.unit, same.fifo, marking]
    exact ok.marked

theorem flowFill {fifo : Fifo} {initial : Bool} {flush : Flush} {op : Op} (streamEnd : Bool)
    (alloc : s.fifo.alloc = some (u, fifo)) (none_ : q.pending = []) (marking : e.marking = none)
    (ok : Flow s q e d) (where_ : e' = .send op u ∨ e' = .recycling op u) :
    ∃ q', Flow (s.fill u (op.workUnit s.recycle initial flush) fifo streamEnd) q' e' d := by
  have grown := allocGrown ok.queued.fifo alloc
  have seek : fifo.headSeek = s.fifo.headSeek := headSeekSame grown.freer
  have count := ok.queued.count
  have room := grown.room
  have given : q.given = q.called.length + q.waiting.length + q.out.length := rfl
  rw [none_, List.length_nil, Nat.add_zero] at count
  have slot : u = s.fifo.headSeek q.given := by
    rw [count]
    exact grown.slot
  have others : ∀ i, i < q.given →
      (Function.update s.unit u (op.workUnit s.recycle initial flush) (s.fifo.headSeek i)) =
        s.unit (s.fifo.headSeek i) := by
    intro i lt
    refine Function.update_of_ne (fun same => ?_) _ _
    rw [slot] at same
    have := headSeekInjective (by omega) (by omega) same
    omega
  refine ⟨_, ok.alive, queuedFill alloc ok.queued, ?_, ?_, ?_, ?_⟩
  · have stands : (∃ j, q.pending ++ [Job.new op s.recycle] = [j] ∧ j.op = op) ∧
        u = fifo.headSeek q.given := by
      rw [seek, none_]
      exact ⟨⟨_, rfl, rfl⟩, slot⟩
    rcases where_ with rfl | rfl <;> exact stands
  · have dequeuer := ok.dequeuer
    have head : fifo.head = s.fifo.head := congrFun seek 0
    cases d with
    | tryLock n v => exact dequeuer.trans head.symm
    | dequeuing n v => exact dequeuer.trans head.symm
    | taken n v =>
      obtain ⟨isHead, called, free⟩ := dequeuer
      have positive := List.length_pos_iff.mpr called
      refine ⟨isHead.trans head.symm, called, ?_⟩
      show (Function.update s.unit u (op.workUnit s.recycle initial flush) v).state = .free
      rw [isHead, show s.fifo.head = s.fifo.headSeek 0 from rfl, others 0 (by omega)]
      rw [isHead] at free
      exact free
    | _ => exact dequeuer
  · intro i lt takes
    show (Function.update s.unit u (op.workUnit s.recycle initial flush) (fifo.headSeek i)).state = _
    change i < q.called.length at lt
    rw [seek, others i (by omega)]
    exact ok.done i lt takes
  · intro i low high _
    show (Function.update s.unit u (op.workUnit s.recycle initial flush) (fifo.headSeek i)).state = _
    rw [seek, others i high]
    exact ok.marked i low high (fun _ => marking)

theorem flowSubmit {op : Op} (ok : Flow s q e d) (marking : e.marking = none)
    (stands : (∃ j, q.pending = [j] ∧ j.op = op) ∧ u = s.fifo.headSeek q.given)
    (where_ : e' = .posting u true ∨ e' = .recycled u) : ∃ q', Flow (s.submit op u) q' e' d := by
  obtain ⟨⟨j, only, rfl⟩, rfl⟩ := stands
  have given : q.given = q.called.length + q.waiting.length + q.out.length := rfl
  have more : ({ q with out := q.out ++ [j], pending := [] } : Queue).given = q.given + 1 := by
    simp only [Queue.given, Queue.answered, List.length_append, List.length_singleton, Nat.add_assoc]
  refine ⟨_, ok.alive, queuedSubmit only ok.queued, ?_, ?_, ok.done, ?_⟩
  · have last : Last (s.submit j.op (s.fifo.headSeek q.given))
        { q with out := q.out ++ [j], pending := [] } (s.fifo.headSeek q.given) :=
      ⟨rfl, q.given, more.symm, by show q.called.length ≤ q.given; omega, rfl⟩
    rcases where_ with rfl | rfl <;> exact last
  · have dequeuer := ok.dequeuer
    cases d <;> exact dequeuer
  · intro i low high last
    rw [more] at high last
    rcases Nat.lt_or_ge i q.given with old | new
    · exact ok.marked i low old (fun _ => marking)
    · have marks := last (by omega)
      rcases where_ with rfl | rfl <;> cases marks

theorem flowUndo (only : q.pending = [j]) (marking : e.marking = none) (ok : Flow s q e d)
    (where_ : e' = .noSpace ∨ e' = .idle) : ∃ q', Flow s.undo q' e' d := by
  refine ⟨_, ok.alive, queuedUndo only ok.queued, ?_, ?_, ok.done, ?_⟩
  · rcases where_ with rfl | rfl <;> exact rfl
  · have dequeuer := ok.dequeuer
    cases d <;> exact dequeuer
  · intro i low high _
    exact ok.marked i low high (fun _ => marking)

theorem flowMark (last : Last s q u) (ok : Flow s q e d) :
    Flow (s.markTodo u) q .idle d := by
  obtain ⟨pending, i, lastGiven, uncalled, slot⟩ := last
  have fits := queuedFits ok.queued
  have others : ∀ v, v ≠ u → (s.markTodo u).unit v = s.unit v :=
    fun v other => Function.update_of_ne other _ _
  have apart : ∀ n, n < q.given → n ≠ i → s.fifo.headSeek n ≠ u := by
    intro n lt other same
    rw [slot] at same
    exact other (headSeekInjective (by omega) (by omega) same)
  refine ⟨ok.alive, queuedBecome u (by decide) ok.queued, pending, ?_, ?_, ?_⟩
  · have dequeuer := ok.dequeuer
    cases d with
    | taken n v =>
      obtain ⟨isHead, called, free⟩ := dequeuer
      have positive := List.length_pos_iff.mpr called
      refine ⟨isHead, called, ?_⟩
      have different : v ≠ u := by
        rw [isHead]
        exact apart 0 (by omega) (by omega)
      rw [others v different]
      exact free
    | _ => exact dequeuer
  · intro n lt takes
    show ((s.markTodo u).unit (s.fifo.headSeek n)).state = .done
    rw [others _ (apart n (by omega) (by omega))]
    exact ok.done n lt takes
  · intro n low high _
    show ((s.markTodo u).unit (s.fifo.headSeek n)).state = .todo
    by_cases same : n = i
    · rw [same, ← slot]
      simp [Session.markTodo, Session.setUnit, WorkUnit.become]
    · rw [others _ (apart n high same)]
      exact ok.marked n low high (fun eq => absurd (by omega) same)

theorem pendingFew (ok : Enqueues s q e) : q.pending.length ≤ 1 ∧ (q.pending ≠ [] → e.marking = none) := by
  cases e with
  | idle => rw [show q.pending = [] from ok]; simp
  | alloc op => rw [show q.pending = [] from ok]; simp
  | noSpace => rw [show q.pending = [] from ok]; simp
  | send op u =>
    obtain ⟨⟨j, only, _⟩, _⟩ := ok
    rw [only]
    exact ⟨le_refl _, fun _ => rfl⟩
  | recycling op u =>
    obtain ⟨⟨j, only, _⟩, _⟩ := ok
    rw [only]
    exact ⟨le_refl _, fun _ => rfl⟩
  | undo =>
    obtain ⟨j, only⟩ := ok
    rw [only]
    exact ⟨le_refl _, fun _ => rfl⟩
  | posting u sent =>
    cases sent with
    | true =>
      have last : Last s q u := ok
      rw [last.pending]
      simp
    | false =>
      obtain ⟨j, only⟩ := ok
      rw [only]
      exact ⟨le_refl _, fun _ => rfl⟩
  | tail u =>
    have last : Last s q u := ok
    rw [last.pending]
    simp
  | recycled u =>
    have last : Last s q u := ok
    rw [last.pending]
    simp
  | _ => cases ok

theorem noGap (ok : Flow s q e d) (called : q.called ≠ []) (three : 2 < s.fifo.numAlloc) :
    (s.unit (s.fifo.headSeek 1)).state ≠ .free := by
  have count := ok.queued.count
  have few := pendingFew ok.enqueuer
  have positive := List.length_pos_iff.mpr called
  rcases Nat.lt_or_ge 1 q.called.length with isCalled | only
  · rw [ok.done 1 isCalled (fun no => by cases no)]
    decide
  · have marking : 1 + 1 = q.given → e.marking = none := by
      intro two
      refine few.2 (fun none_ => ?_)
      rw [none_, List.length_nil] at count
      omega
    rw [ok.marked 1 (by omega) (by omega) marking]
    decide

theorem flowTake {n : Nat} (head : u = s.fifo.head) (done : (s.unit u).state = .done)
    (ok : Flow s q e d) : Flow (s.take u) q e (.taken n u) := by
  have lt : 0 < q.called.length := by
    rw [head] at done
    exact ok.queued.done 0 (by decide) done
  have called : q.called ≠ [] := List.length_pos_iff.mp lt
  have fits := queuedFits ok.queued
  have given : q.given = q.called.length + q.waiting.length + q.out.length := rfl
  have others : ∀ i, i ≠ 0 → i < numBufs →
      (s.markFree u).unit (s.fifo.headSeek i) = s.unit (s.fifo.headSeek i) := by
    intro i positive small
    refine Function.update_of_ne (fun same => ?_) _ _
    rw [head] at same
    exact positive (headSeekInjective small (by decide) same)
  have noFailure : s.take u = s.markFree u := by
    unfold Session.take
    refine if_neg ?_
    rintro ⟨three, free⟩
    rw [others 1 (by decide) (by decide)] at free
    exact noGap ok called three free
  rw [noFailure]
  have free : ((s.markFree u).unit u).state = .free := by
    simp [Session.markFree, Session.setUnit, WorkUnit.become]
  refine ⟨ok.alive, queuedBecome u (by decide) ok.queued, ?_, ⟨head, called, free⟩, ?_, ?_⟩
  · exact enqueuesKeep (s := s) rfl rfl (fun v _ last => ⟨last.pending, last.slot⟩) ok.enqueuer
  · intro i small takes
    have positive : i ≠ 0 := fun zero => by cases takes zero
    show ((s.markFree u).unit (s.fifo.headSeek i)).state = .done
    rw [others i positive (by omega)]
    exact ok.done i small (fun zero => absurd zero positive)
  · intro i low high marking
    show ((s.markFree u).unit (s.fifo.headSeek i)).state = .todo
    rw [others i (by omega) (by omega)]
    exact ok.marked i low high marking

theorem flowSettle {n : Nat} (dequeuer : Dequeues s q (.taken n u))
    (eq : s.settle paradigm (s.unit u) = some s') (ok : Flow s q e d) :
    s'.failed = some .recycleTodo ∨ ∃ q', Flow s' q' e (.dequeuing (n - 1) s'.fifo.head) := by
  obtain ⟨rfl, called, free⟩ := dequeuer
  obtain ⟨j, rest, shape⟩ := List.exists_cons_of_ne_nil called
  rcases queuedSettle shape (by rw [free]; decide) eq ok.queued with rfl | ⟨queued, popped⟩
  · exact .inl rfl
  · have more : q.called.length = rest.length + 1 := by rw [shape, List.length_cons]
    have shift : ∀ i, s'.fifo.headSeek i = s.fifo.headSeek (i + 1) := by
      intro i
      rw [popped.fifo]
      exact freeSeek ..
    have given : q.given =
        ({ q with past := q.past ++ [j], called := rest } : Queue).given + 1 := by
      simp only [Queue.given, Queue.answered, more]
      omega
    have last : ∀ v, e.marking = some v → Last s q v →
        Last s' { q with past := q.past ++ [j], called := rest } v := by
      rintro v _ ⟨pending, i, lastGiven, uncalled, slot⟩
      refine ⟨pending, i - 1, by omega, ?_, ?_⟩
      · show rest.length ≤ i - 1
        omega
      · rw [shift, slot]
        congr 1
        omega
    have seek := givenFree s.fifo shape
    rw [← popped.fifo] at seek
    refine .inr ⟨_, popped.failed.trans ok.alive, queued,
      enqueuesKeep (q := q) rfl seek last ok.enqueuer, rfl, ?_, ?_⟩
    · intro i lt _
      change i < rest.length at lt
      rw [popped.unit, shift]
      exact ok.done (i + 1) (by omega) (fun no => by cases no)
    · intro i low high marking
      change rest.length ≤ i at low
      rw [popped.unit, shift]
      exact ok.marked (i + 1) (by omega) (by omega) (fun eq => marking (by omega))

theorem flowAnswered (status : Status) (outputLength bytesProcessed : Nat) {left : List Nat}
    (first : s.sent = u :: left) (ok : Flow s q e d) :
    ∃ q', Flow (s.answered status outputLength bytesProcessed u left) q' e d := by
  obtain ⟨j, rest, shape, _, queued⟩ := queuedAnswered status outputLength bytesProcessed first
    ok.queued
  obtain ⟨keeps, _⟩ := answeredKeeps (s := s) (u := u) status outputLength bytesProcessed left
    shape
  have states : ∀ v, ((s.answered status outputLength bytesProcessed u left).unit v).state =
      (s.unit v).state := by
    intro v
    by_cases same : v = u
    · subst same
      simp [Session.answered, Session.setUnit, WorkUnit.written]
    · simp only [Session.answered, Session.setUnit, Function.update_of_ne same]
  have given : ({ q with waiting := q.waiting ++ [j.replied status outputLength], out := rest } :
      Queue).given = q.given := by
    simp only [Queue.given, Queue.answered, shape, List.length_append, List.length_cons,
      List.length_nil]
    omega
  refine ⟨_, ok.alive, queued, enqueuesKeep keeps.pending keeps.seek ?_ ok.enqueuer, ?_, ?_, ?_⟩
  · rintro v _ ⟨pending, i, lastGiven, uncalled, slot⟩
    exact ⟨pending, i, lastGiven.trans given.symm, uncalled, slot⟩
  · have dequeuer := ok.dequeuer
    cases d with
    | taken n v => exact ⟨dequeuer.1, dequeuer.2.1, (states v).trans dequeuer.2.2⟩
    | _ => exact dequeuer
  · intro i lt takes
    rw [states]
    exact ok.done i lt takes
  · intro i low high marking
    rw [given] at high marking
    rw [states]
    exact ok.marked i low high marking

theorem flowCalledBack {fd : FdList} {left : List (Nat × FdList)} (first : s.answers = (u, fd) :: left)
    (prompt : e.marking ≠ some u) (ok : Flow s q e d) : ∃ q', Flow (s.calledBack u fd left) q' e d := by
  obtain ⟨j, rest, shape, slot, queued⟩ := queuedCalledBack first ok.queued
  obtain ⟨keeps, _⟩ := calledBackKeeps fd left shape slot ok.queued
  have fits := queuedFits ok.queued
  have more : (q.called ++ [j]).length = q.called.length + 1 := List.length_append
  have given : q.given = q.called.length + q.waiting.length + q.out.length := rfl
  have same : ({ q with called := q.called ++ [j], waiting := rest } : Queue).given = q.given := by
    simp only [Queue.given, Queue.answered, shape, List.length_append, List.length_cons,
      List.length_nil]
    omega
  rw [shape, List.length_cons] at given
  have others : ∀ i, i < q.given → i ≠ q.called.length →
      (s.calledBack u fd left).unit (s.fifo.headSeek i) = s.unit (s.fifo.headSeek i) := by
    intro i lt other
    refine Function.update_of_ne (fun eq => ?_) _ _
    rw [slot] at eq
    exact other (headSeekInjective (by omega) (by omega) eq)
  refine ⟨_, ok.alive, queued, enqueuesKeep keeps.pending keeps.seek ?_ ok.enqueuer, ?_, ?_, ?_⟩
  · rintro v marking ⟨pending, i, lastGiven, uncalled, lastSlot⟩
    refine ⟨pending, i, lastGiven.trans same.symm, ?_, lastSlot⟩
    have different : i ≠ q.called.length := by
      intro eq
      rw [eq, ← slot] at lastSlot
      exact prompt (lastSlot ▸ marking)
    show (q.called ++ [j]).length ≤ i
    omega
  · have dequeuer := ok.dequeuer
    cases d with
    | taken n v =>
      obtain ⟨head, called, free⟩ := dequeuer
      have positive := List.length_pos_iff.mpr called
      refine ⟨head, List.append_ne_nil_of_right_ne_nil _ (List.cons_ne_nil _ _), ?_⟩
      rw [head, show s.fifo.head = s.fifo.headSeek 0 from rfl, others 0 (by omega) (by omega)]
      rw [head] at free
      exact free
    | _ => exact dequeuer
  · intro i lt takes
    change i < (q.called ++ [j]).length at lt
    show ((s.calledBack u fd left).unit (s.fifo.headSeek i)).state = .done
    by_cases new : i = q.called.length
    · rw [new, ← slot]
      simp [Session.calledBack, Session.setUnit, WorkUnit.completed]
    · rw [others i (by omega) new]
      exact ok.done i (by omega) takes
  · intro i low high marking
    change (q.called ++ [j]).length ≤ i at low
    rw [same] at high marking
    show ((s.calledBack u fd left).unit (s.fifo.headSeek i)).state = .todo
    rw [others i high (by omega)]
    exact ok.marked i (by omega) high marking

theorem moveEnqueuer (ok : Flow s q e d) (role : Party.calls .enqueuer a = true)
    (move : Move paradigm k s e a e' s') :
    s'.failed = some .recycleTodo ∨ ∃ q', Flow s' q' e' d := by
  have enqueuer := ok.enqueuer
  have same : ∀ {t : Session κ} {e' : Pc}, SameQueue s t → t.failed = none → Enqueues s q e' →
      e'.marking = e.marking → ∃ q', Flow t q' e' d := fun same alive enqueuer marking =>
    ⟨q, flowSame ok same alive enqueuer marking ok.dequeuer rfl⟩
  have still : SameQueue s s := ⟨rfl, rfl, rfl, rfl, rfl, rfl, rfl, rfl⟩
  have posted : SameQueue s (s.post paradigm) ∧ (s.post paradigm).failed = s.failed := by
    unfold Session.post
    split <;> exact ⟨⟨rfl, rfl, rfl, rfl, rfl, rfl, rfl, rfl⟩, rfl⟩
  have alive := ok.alive
  cases move with
  | enterStateless _ => exact .inr (same still alive enqueuer rfl)
  | refused _ _ => exact .inr (same still alive enqueuer rfl)
  | enter _ _ => exact .inr (same ⟨rfl, rfl, rfl, rfl, rfl, rfl, rfl, rfl⟩ alive enqueuer rfl)
  | allocAssert _ => exact .inl rfl
  | full _ _ => exact .inr (same still alive enqueuer rfl)
  | alloc _ room =>
    obtain ⟨_, _, _, streamEnd, alloc, rfl⟩ := prepareFilled room
    exact .inr (flowFill streamEnd alloc enqueuer rfl ok (.inl rfl))
  | sent => exact .inr (flowSubmit ok rfl enqueuer (.inl rfl))
  | unsent =>
    obtain ⟨⟨j, only, _⟩, _⟩ := enqueuer
    exact .inr (same still alive ⟨j, only⟩ rfl)
  | posted => exact .inr (same posted.1 (posted.2.trans alive) enqueuer rfl)
  | postedFailure => exact .inr (same posted.1 (posted.2.trans alive) enqueuer rfl)
  | marked => exact .inr ⟨q, flowMark enqueuer ok⟩
  | undoAssert empty =>
    obtain ⟨j, only⟩ := enqueuer
    have count := ok.queued.count
    rw [only, (isEmptyIff ok.queued.fifo).mp empty, List.length_singleton] at count
    omega
  | undone _ =>
    obtain ⟨j, only⟩ := enqueuer
    exact .inr (flowUndo only rfl ok (.inl rfl))
  | gaveUp => exact .inr (same posted.1 (posted.2.trans alive) enqueuer rfl)
  | look => cases role
  | began _ => cases enqueuer
  | contended _ _ => cases enqueuer
  | locked _ _ => cases enqueuer
  | stopped _ => cases enqueuer
  | took _ _ => cases enqueuer
  | settled _ => cases enqueuer
  | resumed _ _ _ _ => exact .inr (same ⟨rfl, rfl, rfl, rfl, rfl, rfl, rfl, rfl⟩ alive enqueuer rfl)
  | notAllowed _ _ => exact .inr (same still alive enqueuer rfl)
  | recycleBusy _ => exact .inr (same still alive enqueuer rfl)
  | handleAssert _ _ _ => exact .inl rfl
  | discarded _ _ _ => exact .inr (same ⟨rfl, rfl, rfl, rfl, rfl, rfl, rfl, rfl⟩ alive enqueuer rfl)
  | recycleFull _ _ => exact .inr (same still alive enqueuer rfl)
  | recycle _ _ _ _ room =>
    obtain ⟨_, _, _, streamEnd, alloc, rfl⟩ := prepareFilled room
    obtain ⟨q', filled⟩ := flowFill streamEnd alloc enqueuer rfl ok (.inr rfl)
    exact .inr ⟨q', flowSame filled ⟨rfl, rfl, rfl, rfl, rfl, rfl, rfl, rfl⟩ filled.alive filled.enqueuer
      rfl filled.dequeuer rfl⟩
  | resent => exact .inr (flowSubmit ok rfl enqueuer (.inr rfl))
  | recycleAssert empty =>
    obtain ⟨⟨j, only, _⟩, _⟩ := enqueuer
    have count := ok.queued.count
    rw [only, (isEmptyIff ok.queued.fifo).mp empty, List.length_singleton] at count
    omega
  | unsentAgain _ =>
    obtain ⟨⟨j, only, _⟩, _⟩ := enqueuer
    obtain ⟨q', undone⟩ : ∃ q', Flow s.undo q' .idle d := flowUndo only rfl ok (.inr rfl)
    exact .inr ⟨q', flowSame undone ⟨rfl, rfl, rfl, rfl, rfl, rfl, rfl, rfl⟩ undone.alive undone.enqueuer
      rfl undone.dequeuer rfl⟩
  | recycledAssert _ => exact .inl rfl
  | @recycled u _ _ =>
    have marked := flowMark enqueuer ok
    have handled : SameQueue (s.markTodo u) (s.handledOne.markTodo u).release :=
      ⟨rfl, rfl, rfl, rfl, rfl, rfl, rfl, rfl⟩
    exact .inr ⟨q, flowSame marked handled marked.alive marked.enqueuer rfl marked.dequeuer rfl⟩

theorem moveDequeuer (ok : Flow s q e d) (role : Party.calls .dequeuer a = true)
    (move : Move paradigm k s d a d' s') :
    s'.failed = some .recycleTodo ∨ ∃ q', Flow s' q' e d' := by
  have dequeuer := ok.dequeuer
  have same : ∀ {t : Session κ} {d' : Pc}, SameQueue s t → t.failed = none → Dequeues s q d' →
      d'.takes = d.takes → ∃ q', Flow t q' e d' := fun same alive dequeuer takes =>
    ⟨q, flowSame ok same alive ok.enqueuer rfl dequeuer takes⟩
  have still : SameQueue s s := ⟨rfl, rfl, rfl, rfl, rfl, rfl, rfl, rfl⟩
  have alive := ok.alive
  cases move with
  | look => exact .inr (same still alive rfl rfl)
  | began _ => exact .inr (same still alive dequeuer rfl)
  | contended _ _ => exact .inr (same still alive trivial rfl)
  | locked _ _ => exact .inr (same ⟨rfl, rfl, rfl, rfl, rfl, rfl, rfl, rfl⟩ alive dequeuer rfl)
  | stopped _ =>
    split
    · exact .inr (same ⟨rfl, rfl, rfl, rfl, rfl, rfl, rfl, rfl⟩ alive trivial rfl)
    · exact .inr (same still alive trivial rfl)
  | took _ done => exact .inr ⟨q, flowTake dequeuer done ok⟩
  | settled eq => exact flowSettle dequeuer eq ok
  | resumed _ _ _ _ => exact .inr (same ⟨rfl, rfl, rfl, rfl, rfl, rfl, rfl, rfl⟩ alive trivial rfl)
  | notAllowed _ _ => exact .inr (same still alive trivial rfl)
  | handleAssert _ _ _ => exact .inl rfl
  | discarded _ _ _ => exact .inr (same ⟨rfl, rfl, rfl, rfl, rfl, rfl, rfl, rfl⟩ alive trivial rfl)
  | enterStateless _ => cases role
  | refused _ _ => cases role
  | enter _ _ => cases role
  | recycleBusy _ => cases role
  | recycleFull _ _ => cases role
  | recycle _ _ _ _ _ => cases role
  | _ => cases dequeuer

end Parties

def Rx.answersOp (r : Rx) (op : Op) : Prop :=
  r.inputFd = op.inputFd ∧ r.userContext = op.userContext ∧
    r.outputFd.address = op.outputFd.address ∧ r.outputFd.other = op.outputFd.other ∧
    (r.status.outcome = .skipped ∨ r.status.outcome = .terminal → r.outputFd = op.outputFd)

def System.prompt (y : System Party) : Event Party → Bool
  | .thread k a => k.calls a
  | .answer _ _ _ => true
  | .callback =>
      match y.session.answers with
      | [] => true
      | (u, _) :: _ => decide ((y.pc .enqueuer).marking ≠ some u)

section Runs

variable {paradigm : Paradigm} {y y' : System Party} {e : Event Party}

def System.Flows (y : System Party) : Prop :=
  y.session.failed = some .recycleTodo ∨
    ∃ q, Flow y.session q (y.pc .enqueuer) (y.pc .dequeuer)

theorem stepFlows (ok : y.Flows) (condition : y.prompt e = true) (alive : y.session.failed = none)
    (step : Step paradigm y e y') : y'.Flows := by
  rcases ok with dead | ⟨q, flow⟩
  · rw [alive] at dead
    cases dead
  · cases step with
    | @thread k a pc s move =>
      cases k with
      | enqueuer =>
        have other : Function.update y.pc .enqueuer pc .dequeuer = y.pc .dequeuer := rfl
        simp only [System.Flows, Function.update_self, other]
        exact moveEnqueuer flow condition move
      | dequeuer =>
        have other : Function.update y.pc .dequeuer pc .enqueuer = y.pc .enqueuer := rfl
        simp only [System.Flows, Function.update_self, other]
        exact moveDequeuer flow condition move
    | answer first => exact .inr (flowAnswered _ _ _ first flow)
    | callbackAssert first empty =>
      obtain ⟨j, rest, shape, _⟩ := queuedCalledBack first flow.queued
      have count := flow.queued.count
      rw [(isEmptyIff flow.queued.fifo).mp empty] at count
      simp only [Queue.given, Queue.answered, shape, List.length_cons] at count
      omega
    | callback first _ =>
      simp only [System.prompt, first] at condition
      exact .inr (flowCalledBack first (of_decide_eq_true condition) flow)

theorem createFlows (paradigm : Paradigm) : (System.create paradigm).Flows := by
  refine .inr ⟨Queue.empty, rfl, createQueued paradigm, rfl, trivial, ?_, ?_⟩
  · intro i lt
    exact absurd lt (Nat.not_lt_zero i)
  · intro i _ high
    exact absurd high (Nat.not_lt_zero i)

theorem completionsKept {events : List (Event Party)}
    (meets : (System.create paradigm).meets paradigm System.prompt events = true)
    (ran : (System.create paradigm).run paradigm events = some y) :
    (y.session.failed = none ∨ y.session.failed = some .recycleTodo) ∧
    (y.session.failed = none →
      (∀ n op, y.session.returned.length ≤ n → y.session.accepted[n]? = some op →
        (y.session.unit (unitOf n)).inputFd = op.inputFd ∧
        (y.session.unit (unitOf n)).context = op.userContext) ∧
      (∀ n, y.session.returned.length ≤ n → n < y.session.callbacks →
        (n = y.session.returned.length → (y.pc .dequeuer).takes = false) →
        (y.session.unit (unitOf n)).state = .done) ∧
      (∀ (n : Nat) (r : Rx), y.session.returned[n]? = some r →
        ∃ op, y.session.accepted[n]? = some op ∧ r.answersOp op) ∧
      y.session.callbacks ≤ y.session.accepted.length ∧
      (∀ n u, y.pc .dequeuer = .dequeuing n u →
        ((y.session.unit u).state = .done ↔ y.session.returned.length < y.session.callbacks))) := by
  have ok : y.Flows :=
    runKeeps (fun _ _ _ ok condition alive step => stepFlows ok condition alive step)
      (createFlows paradigm) meets ran
  rcases ok with dead | ⟨q, flow⟩
  · exact ⟨.inr dead, fun alive => absurd (alive.symm.trans dead) (by decide)⟩
  · have queued := flow.queued
    have returned : y.session.returned.length = q.past.length :=
      (List.Forall₂.length_eq queued.returned).symm
    refine ⟨.inl flow.alive, fun _ => ⟨?_, ?_, ?_, ?_, ?_⟩⟩
    · intro n op past at_
      rw [returned] at past
      rw [queued.accepted, List.append_assoc, List.append_assoc, List.getElem?_map,
        List.getElem?_append_right past, ← List.append_assoc] at at_
      obtain ⟨j, held, rfl⟩ := Option.map_eq_some_iff.mp at_
      have holds := placedGet (queuedGiven queued) held
      rw [Nat.zero_add, seekUnit queued, Nat.add_sub_cancel' past] at holds
      exact ⟨holds.inputFd, holds.context⟩
    · intro n low high free
      rw [returned] at low free
      rw [queued.callbacks] at high
      have done := flow.done (n - q.past.length) (by omega) (fun zero => free (by omega))
      rwa [seekUnit queued, Nat.add_sub_cancel' low] at done
    · intro n r at_
      obtain ⟨j, past, back⟩ := returnedJob queued at_
      refine ⟨j.op, ?_, back.inputFd, back.context, ?_, ?_, ?_⟩
      · have lt := (List.getElem?_eq_some_iff.mp past).1
        rw [queued.accepted, List.append_assoc, List.append_assoc, List.getElem?_map,
          List.getElem?_append_left lt, past]
        rfl
      · rw [back.outputFd]
        split <;> rfl
      · rw [back.outputFd]
        split <;> rfl
      · intro untouched
        rw [back.status] at untouched
        rw [back.outputFd, if_pos untouched]
    · rw [queued.callbacks, queued.accepted]
      simp only [List.length_map, List.length_append]
      omega
    · intro n u at_
      have dequeuer := flow.dequeuer
      have free := flow.done 0
      rw [at_] at dequeuer free
      rw [returned, queued.callbacks, show u = y.session.fifo.head from dequeuer]
      constructor
      · intro done
        have := queued.done 0 (by decide) done
        omega
      · intro some_
        exact free (by omega) (fun _ => rfl)

end Runs

section Examples

def oneOp : Op := ⟨⟨0x1000, 64, 0⟩, ⟨0x2000, 64, 0⟩, .noFlush, 7⟩

def unhurried : List (Event Party) :=
  [.thread .enqueuer (.enqueue oneOp), .thread .enqueuer (.next true), .thread .enqueuer (.next true),
    .thread .enqueuer (.next true), .thread .enqueuer (.next true),
    .answer .fullyProcessed 40 64, .callback, .thread .dequeuer (.dequeue 4),
    .thread .dequeuer (.next true), .thread .dequeuer (.next true), .thread .dequeuer (.next true)]

theorem completionsKeptOne :
    (System.create .stateless).meets .stateless System.prompt unhurried = true ∧
    ∃ y, (System.create .stateless).run .stateless unhurried = some y ∧
      y.session.returned = [⟨⟨0x1000, 64, 0⟩, ⟨0x2000, 40, 0⟩, .fullyProcessed, .noFlush, 64, 7⟩] ∧
      (y.session.unit (unitOf 0)).context = 7 ∧
      y.session.callbacks ≤ y.session.accepted.length := by
  have meets : (System.create .stateless).meets .stateless System.prompt unhurried = true := by
    decide
  refine ⟨meets, _, rfl, rfl, rfl, ?_⟩
  exact ((completionsKept meets rfl).2 rfl).2.2.2.1

def hurried : List (Event Party) :=
  [.thread .enqueuer (.enqueue oneOp), .thread .enqueuer (.next true), .thread .enqueuer (.next true),
    .answer .fullyProcessed 40 64, .callback, .thread .enqueuer (.next true),
    .thread .enqueuer (.next true), .thread .dequeuer (.dequeue 4), .thread .dequeuer (.next true),
    .thread .dequeuer (.next true)]

theorem completionLost :
    ((System.create .stateless).run .stateless (hurried.take 5)).map
        (fun y => (y.session.unit (unitOf 0)).state) = some .done ∧
    ∃ y, (System.create .stateless).run .stateless hurried = some y ∧
      y.session.accepted = [oneOp] ∧ y.session.callbacks = 1 ∧ y.session.returned = [] ∧
      (y.session.unit (unitOf 0)).state = .todo ∧
      y.pc .enqueuer = .idle ∧ y.pc .dequeuer = .idle :=
  ⟨rfl, _, rfl, rfl, rfl, rfl, rfl, rfl, rfl⟩

end Examples

end Flexbuild.Dce
