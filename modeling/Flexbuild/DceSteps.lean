import Flexbuild.DceModel

/-! What one step of a thread can do, as a relation with a case for each branch of the calls,
what the circular fifo does to its number of allocated units, and how a property that every
step keeps is kept by a run. -/
namespace Flexbuild.Dce

inductive Move {κ : Type} (paradigm : Paradigm) (k : κ) (s : Session κ) : Pc → Action → Pc → Session κ → Prop where
  | enterStateless {op} (stateless : paradigm = .stateless) :
      Move paradigm k s .idle (.enqueue op) (.alloc op) s
  | refused {op} (stateful : paradigm = .statefulRecycle) (busy : s.sem = 0) :
      Move paradigm k s .idle (.enqueue op) .idle s
  | enter {op} (stateful : paradigm = .statefulRecycle) (free : s.sem ≠ 0) :
      Move paradigm k s .idle (.enqueue op) (.alloc op) s.acquire
  | allocAssert {op b} (recycling : s.recycleTodo ≠ 0) :
      Move paradigm k s (.alloc op) (.next b) (.alloc op) (s.fail .recycleTodo)
  | full {op b} (normal : s.recycleTodo = 0) (none_ : s.prepare paradigm op = none) :
      Move paradigm k s (.alloc op) (.next b) .noSpace s
  | alloc {op b u s'} (normal : s.recycleTodo = 0) (room : s.prepare paradigm op = some (u, s')) :
      Move paradigm k s (.alloc op) (.next b) (.send op u) s'
  | sent {op u} : Move paradigm k s (.send op u) (.next true) (.posting u true) (s.submit op u)
  | unsent {op u} : Move paradigm k s (.send op u) (.next false) (.posting u false) s
  | posted {u b} : Move paradigm k s (.posting u true) (.next b) (.tail u) (s.post paradigm)
  | postedFailure {u b} : Move paradigm k s (.posting u false) (.next b) .undo (s.post paradigm)
  | marked {u b} : Move paradigm k s (.tail u) (.next b) .idle (s.markTodo u)
  | undoAssert {b} (empty : s.fifo.isEmpty = true) :
      Move paradigm k s .undo (.next b) .undo (s.fail .emptyFifo)
  | undone {b} (some_ : s.fifo.isEmpty = false) : Move paradigm k s .undo (.next b) .noSpace s.undo
  | gaveUp {b} : Move paradigm k s .noSpace (.next b) .idle (s.post paradigm)
  | look {n} : Move paradigm k s .idle (.dequeue n) (.tryLock n s.fifo.head) s
  | began {n u b} (stateless : paradigm = .stateless) :
      Move paradigm k s (.tryLock n u) (.next b) (.dequeuing n u) s
  | contended {n u b j} (stateful : paradigm = .statefulRecycle) (held : s.lock = some j) :
      Move paradigm k s (.tryLock n u) (.next b) .idle s
  | locked {n u b} (stateful : paradigm = .statefulRecycle) (free : s.lock = none) :
      Move paradigm k s (.tryLock n u) (.next b) (.dequeuing n u) (s.lockFor k)
  | stopped {n u b} (ended : n = 0 ∨ (s.unit u).state ≠ .done) :
      Move paradigm k s (.dequeuing n u) (.next b) .idle
        (if paradigm = .statefulRecycle then s.release else s)
  | took {n u b} (more : n ≠ 0) (done : (s.unit u).state = .done) :
      Move paradigm k s (.dequeuing n u) (.next b) (.taken n u) (s.take u)
  | settled {n u b s'} (eq : s.settle paradigm (s.unit u) = some s') :
      Move paradigm k s (.taken n u) (.next b) (.dequeuing (n - 1) s'.fifo.head) s'
  | resumed {a end_} (which : a = .streamAbort ∨ a = .streamContinue)
      (stateful : paradigm = .statefulRecycle) (free : s.lock = none) (may : s.mayResume) :
      Move paradigm k s .idle a .idle (s.resume end_)
  | notAllowed {a} (free : s.lock = none) (denied : s.recyclerAllowed = false) :
      Move paradigm k s .idle a .idle s
  | recycleBusy {op j} (held : s.lock = some j) : Move paradigm k s .idle (.recycleFdPair op) .idle s
  | handleAssert {a} (free : s.lock = none) (allowed : s.recyclerAllowed = true)
      (none_ : s.recycleTodo = 0) : Move paradigm k s .idle a .idle (s.fail .recycleTodo)
  | discarded (free : s.lock = none) (allowed : s.recyclerAllowed = true)
      (some_ : s.recycleTodo ≠ 0) : Move paradigm k s .idle .recycleDiscard .idle s.handledOne
  | recycleFull {op} (free : s.lock = none) (none_ : s.prepare paradigm op = none) :
      Move paradigm k s .idle (.recycleFdPair op) .idle s
  | recycle {op u s'} (stateful : paradigm = .statefulRecycle) (free : s.lock = none)
      (allowed : s.recyclerAllowed = true) (some_ : s.recycleTodo ≠ 0)
      (room : s.prepare paradigm op = some (u, s')) :
      Move paradigm k s .idle (.recycleFdPair op) (.recycling op u) (s'.lockFor k)
  | resent {op u} :
      Move paradigm k s (.recycling op u) (.next true) (.recycled u) (s.submit op u)
  | recycleAssert {op u} (empty : s.fifo.isEmpty = true) :
      Move paradigm k s (.recycling op u) (.next false) (.recycling op u) (s.fail .emptyFifo)
  | unsentAgain {op u} (some_ : s.fifo.isEmpty = false) :
      Move paradigm k s (.recycling op u) (.next false) .idle s.undo.release
  | recycledAssert {u b} (none_ : s.recycleTodo = 0) :
      Move paradigm k s (.recycled u) (.next b) (.recycled u) (s.fail .recycleTodo)
  | recycled {u b} (some_ : s.recycleTodo ≠ 0) :
      Move paradigm k s (.recycled u) (.next b) .idle (s.handledOne.markTodo u).release

section Moves

variable {κ : Type} {paradigm : Paradigm} {k : κ} {s s' : Session κ} {pc pc' : Pc} {a : Action}

theorem idleMove (eq : next paradigm k s .idle a = some (pc', s')) :
    Move paradigm k s .idle a pc' s' := by
  cases a with
  | enqueue op =>
    cases paradigm with
    | stateless =>
      cases eq
      exact .enterStateless rfl
    | statefulRecycle =>
      simp only [next] at eq
      split at eq
      · cases eq
        exact .refused rfl (by assumption)
      · cases eq
        exact .enter rfl (by assumption)
  | dequeue n =>
    cases eq
    exact .look
  | streamAbort =>
    simp only [next] at eq
    split at eq <;> try contradiction
    rename_i ok
    cases eq
    exact .resumed (.inl rfl) ok.1 ok.2.1 ok.2.2
  | streamContinue =>
    simp only [next] at eq
    split at eq <;> try contradiction
    rename_i ok
    cases eq
    exact .resumed (.inr rfl) ok.1 ok.2.1 ok.2.2
  | recycleDiscard =>
    simp only [next] at eq
    split at eq <;> try contradiction
    rename_i free
    rw [not_not] at free
    split at eq
    · cases eq
      exact .notAllowed free (by assumption)
    · rename_i allowed
      rw [Bool.not_eq_false] at allowed
      split at eq
      · cases eq
        exact .handleAssert free allowed (by assumption)
      · cases eq
        exact .discarded free allowed (by assumption)
  | recycleFdPair op =>
    simp only [next] at eq
    split at eq <;> try contradiction
    rename_i stateful
    rw [not_not] at stateful
    split at eq
    · rename_i held
      obtain ⟨j, held⟩ := Option.ne_none_iff_exists'.mp held
      cases eq
      exact .recycleBusy held
    · rename_i free
      rw [not_not] at free
      split at eq
      · cases eq
        exact .notAllowed free (by assumption)
      · rename_i allowed
        rw [Bool.not_eq_false] at allowed
        split at eq
        · cases eq
          exact .handleAssert free allowed (by assumption)
        · split at eq
          · cases eq
            exact .recycleFull free (by assumption)
          · cases eq
            exact .recycle stateful free allowed (by assumption) (by assumption)
  | next b => contradiction

theorem laterMove {b : Bool} (eq : next paradigm k s pc (.next b) = some (pc', s')) :
    Move paradigm k s pc (.next b) pc' s' := by
  cases pc with
  | idle => contradiction
  | alloc op =>
    simp only [next] at eq
    split at eq
    · cases eq
      exact .allocAssert (by assumption)
    · rename_i normal
      rw [not_not] at normal
      split at eq
      · cases eq
        exact .full normal (by assumption)
      · cases eq
        exact .alloc normal (by assumption)
  | send op u =>
    cases b with
    | true =>
      cases eq
      exact .sent
    | false =>
      cases eq
      exact .unsent
  | posting u ok =>
    cases ok with
    | true =>
      cases eq
      exact .posted
    | false =>
      cases eq
      exact .postedFailure
  | tail u =>
    cases eq
    exact .marked
  | undo =>
    simp only [next] at eq
    split at eq
    · cases eq
      exact .undoAssert (by assumption)
    · rename_i some_
      rw [Bool.not_eq_true] at some_
      cases eq
      exact .undone some_
  | noSpace =>
    cases eq
    exact .gaveUp
  | tryLock n u =>
    cases paradigm with
    | stateless =>
      cases eq
      exact .began rfl
    | statefulRecycle =>
      simp only [next] at eq
      split at eq
      · cases eq
        exact .contended rfl (by assumption)
      · cases eq
        exact .locked rfl (by assumption)
  | dequeuing n u =>
    simp only [next] at eq
    split at eq
    · cases eq
      exact .stopped (by assumption)
    · rename_i more
      obtain ⟨more, done⟩ := not_or.mp more
      rw [not_not] at done
      cases eq
      exact .took more done
  | taken n u =>
    simp only [next] at eq
    split at eq <;> try contradiction
    cases eq
    exact .settled (by assumption)
  | recycling op u =>
    cases b with
    | true =>
      cases eq
      exact .resent
    | false =>
      simp only [next, Bool.false_eq_true, if_false] at eq
      split at eq
      · cases eq
        exact .recycleAssert (by assumption)
      · rename_i some_
        rw [Bool.not_eq_true] at some_
        cases eq
        exact .unsentAgain some_
  | recycled u =>
    simp only [next] at eq
    split at eq
    · cases eq
      exact .recycledAssert (by assumption)
    · cases eq
      exact .recycled (by assumption)

theorem nextMove (eq : next paradigm k s pc a = some (pc', s')) : Move paradigm k s pc a pc' s' := by
  cases pc with
  | idle => exact idleMove eq
  | _ =>
    cases a with
    | next b => exact laterMove eq
    | _ => contradiction

end Moves

theorem prepareFilled {κ : Type} {paradigm : Paradigm} {op : Op} {s s' : Session κ} {u : Nat}
    (eq : s.prepare paradigm op = some (u, s')) :
    ∃ initial flush fifo streamEnd, s.fifo.alloc = some (u, fifo) ∧
      s' = s.fill u (op.workUnit s.recycle initial flush) fifo streamEnd := by
  unfold Session.prepare at eq
  split at eq <;> try contradiction
  split at eq
  · cases eq
    exact ⟨_, _, _, _, by assumption, rfl⟩
  · cases eq
    exact ⟨_, _, _, _, by assumption, rfl⟩

section Runs

variable {κ : Type} [DecidableEq κ] {paradigm : Paradigm} {y y' : System κ} {e : Event κ}

inductive Step (paradigm : Paradigm) (y : System κ) : Event κ → System κ → Prop where
  | thread {k a pc s} (move : Move paradigm k y.session (y.pc k) a pc s) :
      Step paradigm y (.thread k a) ⟨s, Function.update y.pc k pc⟩
  | answer {status outputLength bytesProcessed u rest} (first : y.session.sent = u :: rest) :
      Step paradigm y (.answer status outputLength bytesProcessed)
        ⟨y.session.answered status outputLength bytesProcessed u rest, y.pc⟩
  | callbackAssert {u fd rest} (first : y.session.answers = (u, fd) :: rest)
      (empty : y.session.fifo.isEmpty = true) :
      Step paradigm y .callback ⟨y.session.fail .emptyFifo, y.pc⟩
  | callback {u fd rest} (first : y.session.answers = (u, fd) :: rest)
      (some_ : y.session.fifo.isEmpty = false) :
      Step paradigm y .callback ⟨y.session.calledBack u fd rest, y.pc⟩

theorem stepAlive (eq : y.step paradigm e = some y') : y.session.failed = none := by
  cases e <;> simp only [System.step] at eq <;> split at eq <;> try contradiction
  all_goals simpa using ‹¬ y.session.failed ≠ none›

theorem stepSource (eq : y.step paradigm e = some y') : Step paradigm y e y' := by
  cases e with
  | thread k a =>
    simp only [System.step] at eq
    split at eq <;> try contradiction
    obtain ⟨⟨pc, s⟩, moved, rfl⟩ := Option.map_eq_some_iff.mp eq
    exact .thread (nextMove moved)
  | answer status outputLength bytesProcessed =>
    simp only [System.step] at eq
    split at eq <;> try contradiction
    obtain ⟨s, answered, rfl⟩ := Option.map_eq_some_iff.mp eq
    unfold Session.answer at answered
    split at answered
    · contradiction
    · cases answered
      exact .answer (by assumption)
  | callback =>
    simp only [System.step] at eq
    split at eq <;> try contradiction
    obtain ⟨s, called, rfl⟩ := Option.map_eq_some_iff.mp eq
    unfold Session.callback at called
    split at called
    · contradiction
    · split at called
      · cases called
        exact .callbackAssert (by assumption) (by assumption)
      · rename_i some_
        rw [Bool.not_eq_true] at some_
        cases called
        exact .callback (by assumption) some_

def System.meets (paradigm : Paradigm) (condition : System κ → Event κ → Bool) :
    System κ → List (Event κ) → Bool
  | _, [] => true
  | y, e :: rest =>
      condition y e && match y.step paradigm e with
        | none => true
        | some y' => y'.meets paradigm condition rest

theorem runKeeps {condition : System κ → Event κ → Bool} {inv : System κ → Prop}
    (keeps : ∀ y e y', inv y → condition y e = true → y.session.failed = none →
      Step paradigm y e y' → inv y')
    {events : List (Event κ)} (start : inv y) (meets : y.meets paradigm condition events = true)
    (ran : y.run paradigm events = some y') : inv y' := by
  induction events generalizing y with
  | nil =>
    cases ran
    exact start
  | cons e rest ih =>
    obtain ⟨middle, first, later⟩ := Option.bind_eq_some_iff.mp ran
    unfold System.meets at meets
    rw [first, Bool.and_eq_true] at meets
    exact ih (keeps y e middle start meets.1 (stepAlive first) (stepSource first)) meets.2 later

end Runs

section Fifos

variable {f g : Fifo} {u i j : Nat}

structure Fifo.Valid (f : Fifo) : Prop where
  allocer : f.allocer < 2 * numBufs
  freer : f.freer < 2 * numBufs
  fits : f.numAlloc ≤ numBufs

theorem startValid : Fifo.Valid ⟨1, 1⟩ := ⟨by decide, by decide, by decide⟩

theorem headSeekLt (f : Fifo) (i : Nat) : f.headSeek i < numBufs := Nat.mod_lt _ (by decide)

theorem headSeekInjective (hi : i < numBufs) (hj : j < numBufs) (same : f.headSeek i = f.headSeek j) :
    i = j := by
  unfold Fifo.headSeek at same
  unfold numBufs at *
  omega

theorem numAllocMod (allocer : f.allocer < 60000) (freer : f.freer < 60000) :
    f.numAlloc = (f.allocer + 60000 - f.freer) % 60000 := by
  unfold Fifo.numAlloc numBufs
  split <;> omega

theorem isEmptyIff (valid : f.Valid) : f.isEmpty = true ↔ f.numAlloc = 0 := by
  obtain ⟨allocer, freer, _⟩ := valid
  rw [numAllocMod allocer freer]
  unfold Fifo.isEmpty
  unfold numBufs at *
  rw [decide_eq_true_iff]
  omega

structure Grown (f g : Fifo) (u : Nat) : Prop where
  valid : g.Valid
  slot : u = f.headSeek f.numAlloc
  room : f.numAlloc < numBufs
  freer : g.freer = f.freer
  numAlloc : g.numAlloc = f.numAlloc + 1

theorem allocGrown (valid : f.Valid) (eq : f.alloc = some (u, g)) : Grown f g u := by
  obtain ⟨allocer, freer, fits⟩ := valid
  have before := numAllocMod allocer freer
  unfold Fifo.alloc Fifo.isFull at eq
  split at eq <;> try contradiction
  rename_i open_
  cases eq
  rw [decide_eq_true_iff] at open_
  have small : (f.allocer + 1) % 60000 < 60000 := Nat.mod_lt _ (by decide)
  have after : Fifo.numAlloc ⟨(f.allocer + 1) % 60000, f.freer⟩ =
      ((f.allocer + 1) % 60000 + 60000 - f.freer) % 60000 := numAllocMod small freer
  unfold numBufs at *
  refine ⟨⟨small, freer, ?_⟩, ?_, ?_, rfl, ?_⟩
  · show Fifo.numAlloc ⟨(f.allocer + 1) % 60000, f.freer⟩ ≤ 30000
    omega
  · simp only [Fifo.headSeek, numBufs]
    omega
  · show f.numAlloc < 30000
    omega
  · show Fifo.numAlloc ⟨(f.allocer + 1) % 60000, f.freer⟩ = f.numAlloc + 1
    omega

theorem undoShrinks (valid : f.Valid) (some_ : f.numAlloc ≠ 0) :
    f.allocUndo.Valid ∧ f.allocUndo.numAlloc + 1 = f.numAlloc := by
  obtain ⟨allocer, freer, fits⟩ := valid
  have before := numAllocMod allocer freer
  unfold numBufs at *
  have small : f.allocUndo.allocer < 60000 := by
    simp only [Fifo.allocUndo, numBufs]
    split <;> omega
  have value : f.allocUndo.allocer = (f.allocer + 59999) % 60000 := by
    simp only [Fifo.allocUndo, numBufs]
    split <;> omega
  have after : f.allocUndo.numAlloc = (f.allocUndo.allocer + 60000 - f.freer) % 60000 :=
    numAllocMod small freer
  have less : f.allocUndo.numAlloc + 1 = f.numAlloc := by omega
  exact ⟨⟨small, freer, by unfold numBufs; omega⟩, less⟩

theorem freeShrinks (valid : f.Valid) (some_ : f.numAlloc ≠ 0) :
    f.free.Valid ∧ f.free.numAlloc + 1 = f.numAlloc := by
  obtain ⟨allocer, freer, fits⟩ := valid
  have before := numAllocMod allocer freer
  unfold numBufs at *
  have small : f.free.freer < 60000 := Nat.mod_lt _ (by decide)
  have value : f.free.freer = (f.freer + 1) % 60000 := rfl
  have after : f.free.numAlloc = (f.allocer + 60000 - f.free.freer) % 60000 :=
    numAllocMod allocer small
  have less : f.free.numAlloc + 1 = f.numAlloc := by omega
  exact ⟨⟨allocer, small, by unfold numBufs; omega⟩, less⟩

theorem freeSeek (f : Fifo) (i : Nat) : f.free.headSeek i = f.headSeek (i + 1) := by
  simp only [Fifo.headSeek, Fifo.free, numBufs]
  omega

end Fifos

end Flexbuild.Dce
