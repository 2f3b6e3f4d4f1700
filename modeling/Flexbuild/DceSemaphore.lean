import Flexbuild.Cores
import Flexbuild.DceSteps

/-! The enqueue semaphore of a session. Its count, the enqueuers between `sem_trywait` and
`sem_post` and the recycle mode share one token. -/
namespace Flexbuild.Dce
open Cores

def Pc.inside : Pc → Int
  | .alloc _ | .send _ _ | .posting _ _ | .noSpace => 1
  | _ => 0

def Pc.holding : Pc → Int
  | .send _ _ | .recycling _ _ | .taken _ _ => 1
  | _ => 0

section Counts

variable {κ : Type} {s s' : Session κ} {i h : Int} {u : Nat} {w : WorkUnit} {op : Op}

def Session.recycling (s : Session κ) : Int := if s.recycleTodo = 0 then 0 else 1

def Session.doneUnits (s : Session κ) : Finset Nat :=
  (Finset.range numBufs).filter (fun u => (s.unit u).state = .done)

def Session.busy (s : Session κ) : Nat := s.sent.length + s.answers.length + s.doneUnits.card

structure Session.Balanced (s : Session κ) (inside held : Int) : Prop where
  enqueuers : (s.sem : Int) + inside + s.recycling = 1
  allowed : s.recyclerAllowed = true → s.recycleTodo ≠ 0
  fifo : s.fifo.Valid
  occupied : (s.busy : Int) + held ≤ s.fifo.numAlloc

theorem doneUnitsSet (s : Session κ) (u : Nat) (w : WorkUnit) :
    (s.setUnit u w).doneUnits ⊆ insert u s.doneUnits := by
  intro v mem
  unfold Session.doneUnits at mem ⊢
  rw [Finset.mem_filter] at mem
  by_cases same : v = u
  · exact same ▸ Finset.mem_insert_self ..
  · simp only [Session.setUnit, Function.update_of_ne same] at mem
    exact Finset.mem_insert_of_mem (Finset.mem_filter.mpr mem)

theorem doneUnitsLess (s : Session κ) (other : w.state ≠ .done) :
    (s.setUnit u w).doneUnits ⊆ s.doneUnits.erase u := by
  intro v mem
  unfold Session.doneUnits at mem ⊢
  rw [Finset.mem_filter] at mem
  by_cases same : v = u
  · subst same
    simp only [Session.setUnit, Function.update_self] at mem
    exact absurd mem.2 other
  · simp only [Session.setUnit, Function.update_of_ne same] at mem
    exact Finset.mem_erase.mpr ⟨same, Finset.mem_filter.mpr mem⟩

theorem doneUnitsSame (s : Session κ) (same : w.state = (s.unit u).state) :
    (s.setUnit u w).doneUnits = s.doneUnits := by
  unfold Session.doneUnits
  refine Finset.filter_congr ?_
  intro v _
  by_cases eq : v = u
  · subst eq
    simp only [Session.setUnit, Function.update_self, same]
  · simp only [Session.setUnit, Function.update_of_ne eq]

theorem doneCardLe (s : Session κ) (other : w.state ≠ .done) :
    (s.setUnit u w).doneUnits.card ≤ s.doneUnits.card :=
  Finset.card_le_card ((doneUnitsLess s other).trans (Finset.erase_subset ..))

theorem doneCardLess (s : Session κ) (other : w.state ≠ .done) (lt : u < numBufs)
    (done : (s.unit u).state = .done) : (s.setUnit u w).doneUnits.card + 1 ≤ s.doneUnits.card := by
  have mem : u ∈ s.doneUnits := Finset.mem_filter.mpr ⟨Finset.mem_range.mpr lt, done⟩
  have less := Finset.card_le_card (doneUnitsLess (u := u) s other)
  rw [Finset.card_erase_of_mem mem] at less
  have positive := Finset.card_pos.mpr ⟨u, mem⟩
  omega

theorem doneCardGrows (s : Session κ) (u : Nat) (w : WorkUnit) :
    (s.setUnit u w).doneUnits.card ≤ s.doneUnits.card + 1 :=
  (Finset.card_le_card (doneUnitsSet s u w)).trans (Finset.card_insert_le ..)

theorem balancedFail (a : Assert) (ok : s.Balanced i h) : (s.fail a).Balanced i h :=
  ⟨ok.enqueuers, ok.allowed, ok.fifo, ok.occupied⟩

theorem balancedAcquire (free : s.sem ≠ 0) (ok : s.Balanced i h) : s.acquire.Balanced (i + 1) h := by
  refine ⟨?_, ok.allowed, ok.fifo, ok.occupied⟩
  have token := ok.enqueuers
  show ((s.sem - 1 : Nat) : Int) + (i + 1) + s.recycling = 1
  omega

theorem balancedPost (ok : s.Balanced (i + 1) h) : (s.post .statefulRecycle).Balanced i h := by
  refine ⟨?_, ok.allowed, ok.fifo, ok.occupied⟩
  have token := ok.enqueuers
  show ((s.sem + 1 : Nat) : Int) + i + s.recycling = 1
  omega

theorem balancedSubmit (ok : s.Balanced i (h + 1)) : (s.submit op u).Balanced i h := by
  refine ⟨ok.enqueuers, ok.allowed, ok.fifo, ?_⟩
  have occupied := ok.occupied
  unfold Session.busy at occupied ⊢
  have more : (s.submit op u).sent.length = s.sent.length + 1 := List.length_append
  have same : (s.submit op u).doneUnits = s.doneUnits := rfl
  rw [more, same]
  show ((s.sent.length + 1 + s.answers.length + s.doneUnits.card : Nat) : Int) + h ≤ s.fifo.numAlloc
  omega

theorem balancedSet (other : w.state ≠ .done) (ok : s.Balanced i h) :
    (s.setUnit u w).Balanced i h := by
  refine ⟨ok.enqueuers, ok.allowed, ok.fifo, ?_⟩
  have occupied := ok.occupied
  have fewer := doneCardLe (u := u) s other
  unfold Session.busy at occupied ⊢
  show ((s.sent.length + s.answers.length + (s.setUnit u w).doneUnits.card : Nat) : Int) + h ≤
    s.fifo.numAlloc
  omega

theorem balancedMark (ok : s.Balanced i h) : (s.markTodo u).Balanced i h :=
  balancedSet (by simp [WorkUnit.become]) ok

theorem balancedUndo (nonneg : 0 ≤ h) (ok : s.Balanced i (h + 1)) : s.undo.Balanced i h := by
  have occupied := ok.occupied
  obtain ⟨valid, less⟩ := undoShrinks ok.fifo (by omega)
  refine ⟨ok.enqueuers, ok.allowed, valid, ?_⟩
  show (s.busy : Int) + h ≤ s.fifo.allocUndo.numAlloc
  omega

theorem balancedTake (lt : u < numBufs) (done : (s.unit u).state = .done) (ok : s.Balanced i h) :
    (s.take u).Balanced i (h + 1) := by
  have taken : (s.markFree u).Balanced i (h + 1) := by
    refine ⟨ok.enqueuers, ok.allowed, ok.fifo, ?_⟩
    have occupied := ok.occupied
    have fewer : (s.markFree u).doneUnits.card + 1 ≤ s.doneUnits.card :=
      doneCardLess s (by simp [WorkUnit.become]) lt done
    unfold Session.busy at occupied ⊢
    show ((s.sent.length + s.answers.length + (s.markFree u).doneUnits.card : Nat) : Int) + (h + 1) ≤
      s.fifo.numAlloc
    omega
  unfold Session.take
  split
  · exact balancedFail .gap taken
  · exact taken

theorem balancedFinish (nonneg : 0 ≤ h) (outputFd : Frame) (inputConsumed : Nat)
    (ok : s.Balanced i (h + 1)) : (s.finish w outputFd inputConsumed).Balanced i h := by
  have occupied := ok.occupied
  obtain ⟨valid, less⟩ := freeShrinks ok.fifo (by omega)
  unfold Session.finish
  split
  · refine balancedFail .emptyFifo ⟨ok.enqueuers, ok.allowed, ok.fifo, by omega⟩
  · refine ⟨ok.enqueuers, ok.allowed, valid, ?_⟩
    show (s.busy : Int) + h ≤ s.fifo.free.numAlloc
    omega

theorem balancedSuspend (nonneg : 0 ≤ i) (held : 1 ≤ h) (open_ : ¬ (s.recycleTodo = 0 ∧ s.sem = 0))
    (fits : 2 ^ 32 ≤ s.recycleTodo + s.fifo.numAlloc → ¬ 2 ^ 32 ∣ s.recycleTodo + s.fifo.numAlloc)
    (ok : s.Balanced i h) : s.suspend.Balanced i h := by
  have token := ok.enqueuers
  have occupied := ok.occupied
  have suspended : s.suspend.recycling = 1 := by
    have nonzero : (s.recycleTodo + s.fifo.numAlloc) % 2 ^ 32 ≠ 0 := by omega
    exact if_neg nonzero
  refine ⟨?_, fun no => Bool.noConfusion no, ok.fifo, ok.occupied⟩
  rw [suspended]
  show ((if s.recycleTodo = 0 then s.sem - 1 else s.sem : Nat) : Int) + i + 1 = 1
  unfold Session.recycling at token
  split at token <;> split <;> omega

theorem balancedAbandon (ok : s.Balanced i h) : s.abandon.Balanced i h := by
  unfold Session.abandon
  split
  · rename_i recycling
    have token := ok.enqueuers
    unfold Session.recycling at token
    rw [if_neg recycling] at token
    refine ⟨?_, fun no => Bool.noConfusion no, ok.fifo, ok.occupied⟩
    show ((s.sem + 1 : Nat) : Int) + i + 0 = 1
    omega
  · exact ok

theorem balancedSettle (inside : 0 ≤ i) (nonneg : 0 ≤ h)
    (fits : w.fdList.status.outcome = .suspended →
      2 ^ 32 ≤ s.recycleTodo + s.fifo.numAlloc → ¬ 2 ^ 32 ∣ s.recycleTodo + s.fifo.numAlloc)
    (eq : s.settle .statefulRecycle w = some s') (ok : s.Balanced i (h + 1)) : s'.Balanced i h := by
  unfold Session.settle at eq
  split at eq
  · cases eq
    exact balancedFinish nonneg _ _ ok
  · rename_i suspended
    split at eq <;> try contradiction
    cases eq
    exact balancedFinish nonneg _ _
      (balancedSuspend inside (by omega) (by assumption) (fits suspended) ok)
  · split at eq
    · cases eq
      have occupied := ok.occupied
      exact balancedFail .recycleTodo ⟨ok.enqueuers, ok.allowed, ok.fifo, by omega⟩
    · cases eq
      exact balancedFinish nonneg _ _ ok
  · cases eq
    exact balancedFinish nonneg _ _ (balancedAbandon ok)

theorem balancedResume (end_ : Bool) (may : s.mayResume) (ok : s.Balanced i h) :
    (s.resume end_).Balanced i h :=
  ⟨ok.enqueuers, fun _ => may.2.1, ok.fifo, ok.occupied⟩

theorem balancedHandled (some_ : s.recycleTodo ≠ 0) (ok : s.Balanced i h) :
    s.handledOne.Balanced i h := by
  have token := ok.enqueuers
  unfold Session.recycling at token
  rw [if_neg some_] at token
  refine ⟨?_, fun allowed => of_decide_eq_true allowed, ok.fifo, ok.occupied⟩
  show ((if s.recycleTodo - 1 = 0 then s.sem + 1 else s.sem : Nat) : Int) + i +
    (if s.recycleTodo - 1 = 0 then 0 else 1) = 1
  split <;> omega

theorem balancedFill {fifo : Fifo} (streamEnd : Bool) (room : s.fifo.alloc = some (u, fifo))
    (other : w.state ≠ .done) (ok : s.Balanced i h) :
    (s.fill u w fifo streamEnd).Balanced i (h + 1) := by
  have grown := allocGrown ok.fifo room
  have written := balancedSet (u := u) other ok
  refine ⟨written.enqueuers, written.allowed, grown.valid, ?_⟩
  have occupied := written.occupied
  have more := grown.numAlloc
  show (((s.setUnit u w).busy : Nat) : Int) + (h + 1) ≤ fifo.numAlloc
  have same : (s.setUnit u w).fifo = s.fifo := rfl
  rw [same] at occupied
  omega

theorem balancedPrepare (room : s.prepare .statefulRecycle op = some (u, s')) (ok : s.Balanced i h) :
    s'.Balanced i (h + 1) := by
  obtain ⟨initial, flush, fifo, streamEnd, alloc, rfl⟩ := prepareFilled room
  exact balancedFill streamEnd alloc (by simp [Op.workUnit]) ok

theorem balancedAnswered (status : Status) (outputLength bytesProcessed : Nat) {rest : List Nat}
    (first : s.sent = u :: rest) (ok : s.Balanced i h) :
    (s.answered status outputLength bytesProcessed u rest).Balanced i h := by
  refine ⟨ok.enqueuers, ok.allowed, ok.fifo, ?_⟩
  have occupied := ok.occupied
  have same : (s.answered status outputLength bytesProcessed u rest).doneUnits = s.doneUnits :=
    doneUnitsSame s rfl
  unfold Session.busy at occupied ⊢
  rw [same]
  simp only [first, List.length_cons] at occupied
  simp only [Session.answered, Session.setUnit, List.length_append, List.length_singleton]
  omega

theorem balancedCalledBack {fd : FdList} {rest : List (Nat × FdList)}
    (first : s.answers = (u, fd) :: rest) (ok : s.Balanced i h) :
    (s.calledBack u fd rest).Balanced i h := by
  refine ⟨ok.enqueuers, ok.allowed, ok.fifo, ?_⟩
  have occupied := ok.occupied
  have grown : (s.calledBack u fd rest).doneUnits.card ≤ s.doneUnits.card + 1 :=
    doneCardGrows s u _
  unfold Session.busy at occupied ⊢
  simp only [first, List.length_cons] at occupied
  simp only [Session.calledBack, Session.setUnit] at grown ⊢
  omega

end Counts

section Threads

variable {κ : Type} {k : κ} {s s' : Session κ} {pc pc' : Pc} {a : Action}

def Fits (k : κ) (s : Session κ) : Pc → Prop
  | .posting _ ok => ok = true
  | .undo => False
  | .tryLock _ u => u < numBufs
  | .dequeuing _ u | .taken _ u => u < numBufs ∧ s.lock = some k
  | .recycling _ _ | .recycled _ => s.lock = some k ∧ s.recycleTodo ≠ 0
  | _ => True

structure Respects (k : κ) (s s' : Session κ) : Prop where
  lock : ∀ j, j ≠ k → s.lock = some j → s'.lock = some j
  todo : ∀ j, j ≠ k → s.lock = some j → s.recycleTodo ≠ 0 → s'.recycleTodo ≠ 0

theorem fitsKeep (lock : s.lock = some k → s'.lock = some k)
    (todo : s.lock = some k → s.recycleTodo ≠ 0 → s'.recycleTodo ≠ 0) (fits : Fits k s pc) :
    Fits k s' pc := by
  cases pc with
  | dequeuing n u => exact ⟨fits.1, lock fits.2⟩
  | taken n u => exact ⟨fits.1, lock fits.2⟩
  | recycling op u => exact ⟨lock fits.1, todo fits.1 fits.2⟩
  | recycled u => exact ⟨lock fits.1, todo fits.1 fits.2⟩
  | _ => exact fits

theorem respectsSame (lock : s'.lock = s.lock) (todo : s'.recycleTodo = s.recycleTodo) :
    Respects k s s' :=
  ⟨fun _ _ held => lock ▸ held, fun _ _ _ some_ => todo ▸ some_⟩

theorem respectsOwn (own : s.lock = none ∨ s.lock = some k) : Respects k s s' := by
  have nobody : ∀ j, j ≠ k → s.lock ≠ some j := by
    intro j other held
    rcases own with free | mine
    · rw [free] at held
      cases held
    · rw [mine] at held
      exact other (Option.some.inj held).symm
  exact ⟨fun j other held => absurd held (nobody j other),
    fun j other held _ => absurd held (nobody j other)⟩

-- A normal `enqueue_fd` does not fail, and the count of operations to recycle does not come
-- round to zero.
def careful (s : Session κ) : Pc → Action → Bool
  | .send _ _, .next accepted => accepted
  | .taken _ u, _ =>
      decide ((s.unit u).fdList.status.outcome = .suspended →
        2 ^ 32 ≤ s.recycleTodo + s.fifo.numAlloc → ¬ 2 ^ 32 ∣ s.recycleTodo + s.fifo.numAlloc)
  | _, _ => true

theorem settleLock {w : WorkUnit} {paradigm : Paradigm} (eq : s.settle paradigm w = some s') :
    s'.lock = s.lock := by
  have finish : ∀ (t : Session κ) outputFd inputConsumed,
      (t.finish w outputFd inputConsumed).lock = t.lock := by
    intro t outputFd inputConsumed
    unfold Session.finish
    split <;> rfl
  unfold Session.settle at eq
  split at eq
  · cases eq
    exact finish ..
  · split at eq <;> try contradiction
    cases eq
    exact finish ..
  · split at eq
    · cases eq
      rfl
    · cases eq
      exact finish ..
  · cases eq
    refine (finish ..).trans ?_
    unfold Session.abandon
    split
    · split <;> rfl
    · rfl

structure Kept (i h : Int) (k : κ) (s s' : Session κ) (pc' : Pc) : Prop where
  balanced : s'.Balanced (i + pc'.inside) (h + pc'.holding)
  fits : Fits k s' pc'
  respects : Respects k s s'

theorem moveKept {i h : Int} (inside : 0 ≤ i) (held : 0 ≤ h)
    (ok : s.Balanced (i + pc.inside) (h + pc.holding)) (fits : Fits k s pc)
    (condition : careful s pc a = true) (move : Move .statefulRecycle k s pc a pc' s') :
    Kept i h k s s' pc' := by
  have keepAs : ∀ {x y : Int} {t : Session κ}, t.Balanced x y → x = i + pc'.inside →
      y = h + pc'.holding → t.Balanced (i + pc'.inside) (h + pc'.holding) := by
    intro x y t ok' eqI eqH
    exact eqI ▸ eqH ▸ ok'
  cases move with
  | enterStateless stateless => cases stateless
  | refused _ _ => exact ⟨ok, trivial, respectsSame rfl rfl⟩
  | enter _ free =>
    exact ⟨keepAs (balancedAcquire free ok) (by simp [Pc.inside]) rfl, trivial, respectsSame rfl rfl⟩
  | allocAssert _ => exact ⟨balancedFail _ ok, trivial, respectsSame rfl rfl⟩
  | full _ _ => exact ⟨ok, trivial, respectsSame rfl rfl⟩
  | alloc _ room =>
    refine ⟨keepAs (balancedPrepare room ok) rfl (by simp [Pc.holding]), trivial, ?_⟩
    obtain ⟨_, _, _, _, _, rfl⟩ := prepareFilled room
    exact respectsSame rfl rfl
  | sent =>
    exact ⟨keepAs (balancedSubmit ok) rfl (by simp [Pc.holding]), rfl, respectsSame rfl rfl⟩
  | unsent => cases condition
  | posted =>
    exact ⟨keepAs (balancedPost ok) (by simp [Pc.inside]) rfl, trivial, respectsSame rfl rfl⟩
  | postedFailure => cases fits
  | marked =>
    exact ⟨balancedMark ok, trivial, respectsSame rfl rfl⟩
  | undoAssert _ => cases fits
  | undone _ => cases fits
  | gaveUp =>
    exact ⟨keepAs (balancedPost ok) (by simp [Pc.inside]) rfl, trivial, respectsSame rfl rfl⟩
  | look => exact ⟨ok, headSeekLt s.fifo 0, respectsSame rfl rfl⟩
  | began stateless => cases stateless
  | contended _ _ => exact ⟨ok, trivial, respectsSame rfl rfl⟩
  | locked _ free =>
    exact ⟨⟨ok.enqueuers, ok.allowed, ok.fifo, ok.occupied⟩, ⟨fits, rfl⟩, respectsOwn (.inl free)⟩
  | stopped _ =>
    rw [if_pos rfl]
    exact ⟨⟨ok.enqueuers, ok.allowed, ok.fifo, ok.occupied⟩, trivial, respectsOwn (.inr fits.2)⟩
  | took _ done =>
    have balanced := balancedTake fits.1 done ok
    refine ⟨keepAs balanced rfl (by simp [Pc.holding]), ⟨fits.1, ?_⟩, respectsOwn (.inr fits.2)⟩
    unfold Session.take
    split <;> exact fits.2
  | settled eq =>
    have balanced := balancedSettle (by simpa [Pc.inside] using inside) held (of_decide_eq_true condition) eq ok
    exact ⟨keepAs balanced rfl (by simp [Pc.holding]),
      ⟨headSeekLt s'.fifo 0, (settleLock eq).trans fits.2⟩, respectsOwn (.inr fits.2)⟩
  | resumed _ _ free may => exact ⟨balancedResume _ may ok, trivial, respectsOwn (.inl free)⟩
  | notAllowed _ _ => exact ⟨ok, trivial, respectsSame rfl rfl⟩
  | recycleBusy _ => exact ⟨ok, trivial, respectsSame rfl rfl⟩
  | handleAssert free _ _ => exact ⟨balancedFail _ ok, trivial, respectsOwn (.inl free)⟩
  | discarded free _ some_ => exact ⟨balancedHandled some_ ok, trivial, respectsOwn (.inl free)⟩
  | recycleFull _ _ => exact ⟨ok, trivial, respectsSame rfl rfl⟩
  | recycle _ free _ some_ room =>
    have balanced := balancedPrepare room ok
    obtain ⟨_, _, _, _, _, rfl⟩ := prepareFilled room
    refine ⟨keepAs ⟨balanced.enqueuers, balanced.allowed, balanced.fifo, balanced.occupied⟩ rfl
      (by simp [Pc.holding]), ⟨rfl, some_⟩, respectsOwn (.inl free)⟩
  | resent =>
    exact ⟨keepAs (balancedSubmit ok) rfl (by simp [Pc.holding]), fits, respectsSame rfl rfl⟩
  | recycleAssert _ => exact ⟨balancedFail _ ok, fits, respectsSame rfl rfl⟩
  | unsentAgain _ =>
    have balanced := balancedUndo held ok
    exact ⟨keepAs ⟨balanced.enqueuers, balanced.allowed, balanced.fifo, balanced.occupied⟩ rfl
      (by simp [Pc.holding]), trivial, respectsOwn (.inr fits.1)⟩
  | recycledAssert none_ => exact absurd none_ fits.2
  | @recycled u _ some_ =>
    have balanced := balancedMark (u := u) (balancedHandled some_ ok)
    exact ⟨⟨balanced.enqueuers, balanced.allowed, balanced.fifo, balanced.occupied⟩, trivial,
      respectsOwn (.inr fits.1)⟩

end Threads

section Runs

variable {κ : Type} [DecidableEq κ] [Fintype κ] {y y' : System κ} {e : Event κ}

structure System.Balanced (y : System κ) : Prop where
  session : y.session.Balanced (tally Pc.inside y.pc) (tally Pc.holding y.pc)
  fits : ∀ k, Fits k y.session (y.pc k)

def System.careful (y : System κ) : Event κ → Bool
  | .thread k a => Dce.careful y.session (y.pc k) a
  | _ => true

theorem insideNonneg (pc : Pc) : 0 ≤ pc.inside := by
  cases pc <;> simp [Pc.inside]

theorem holdingNonneg (pc : Pc) : 0 ≤ pc.holding := by
  cases pc <;> simp [Pc.holding]

theorem stepBalanced (ok : y.Balanced) (condition : y.careful e = true)
    (step : Step .statefulRecycle y e y') : y'.Balanced := by
  cases step with
  | @thread k a pc s move =>
    have start := ok.session
    rw [tallySplit Pc.inside y.pc k, tallySplit Pc.holding y.pc k] at start
    have kept := moveKept (tallyOthersNonneg (fun j => insideNonneg _))
      (tallyOthersNonneg (fun j => holdingNonneg _)) start (ok.fits k) condition move
    refine ⟨?_, ?_⟩
    · simp only [tallyMove]
      exact kept.balanced
    · intro j
      by_cases same : j = k
      · subst same
        simp only [Function.update_self]
        exact kept.fits
      · simp only [Function.update_of_ne same]
        exact fitsKeep (kept.respects.lock j same) (kept.respects.todo j same) (ok.fits j)
  | answer first =>
    exact ⟨balancedAnswered _ _ _ first ok.session, fun j => fitsKeep id (fun _ => id) (ok.fits j)⟩
  | callbackAssert _ _ =>
    exact ⟨balancedFail _ ok.session, fun j => fitsKeep id (fun _ => id) (ok.fits j)⟩
  | callback first _ =>
    exact ⟨balancedCalledBack first ok.session, fun j => fitsKeep id (fun _ => id) (ok.fits j)⟩

omit [DecidableEq κ] in
theorem createBalanced : (System.create .statefulRecycle : System κ).Balanced := by
  have nobody : ∀ cost : Pc → Int, cost .idle = 0 →
      tally cost (System.create .statefulRecycle : System κ).pc = 0 := by
    intro cost free
    exact Finset.sum_eq_zero (fun _ _ => free)
  refine ⟨?_, fun _ => trivial⟩
  rw [nobody _ rfl, nobody _ rfl]
  refine ⟨rfl, fun no => Bool.noConfusion no, startValid, ?_⟩
  have none_ : (Session.create .statefulRecycle : Session κ).doneUnits = ∅ := by
    refine Finset.filter_false_of_mem ?_
    intro u _ done
    cases done
  show (((0 + 0 + (Session.create .statefulRecycle : Session κ).doneUnits.card : Nat)) : Int) + 0 ≤ 0
  rw [none_]
  rfl

theorem enqueueSemaphore {events : List (Event κ)}
    (meets : (System.create .statefulRecycle).meets .statefulRecycle System.careful events = true)
    (ran : (System.create .statefulRecycle).run .statefulRecycle events = some y) :
    (y.session.sem : Int) + tally Pc.inside y.pc + (if y.session.recycleTodo = 0 then 0 else 1) = 1 ∧
      y.session.sem ≤ 1 ∧
      (∀ j k, (y.pc j).inside = 1 → (y.pc k).inside = 1 → j = k) ∧
      (y.session.recycleTodo ≠ 0 → ∀ k, (y.pc k).inside = 0) := by
  have ok : y.Balanced :=
    runKeeps (fun _ _ _ ok condition _ step => stepBalanced ok condition step) createBalanced meets ran
  have token := ok.session.enqueuers
  unfold Session.recycling at token
  have nonneg : ∀ j, 0 ≤ (y.pc j).inside := fun j => insideNonneg _
  have split : ∀ k, tally Pc.inside y.pc = tallyOthers Pc.inside y.pc k + (y.pc k).inside :=
    tallySplit Pc.inside y.pc
  have others : ∀ k, 0 ≤ tallyOthers Pc.inside y.pc k := fun k => tallyOthersNonneg nonneg
  have total : 0 ≤ tally Pc.inside y.pc := Finset.sum_nonneg (fun j _ => nonneg j)
  have mode : (0 : Int) ≤ if y.session.recycleTodo = 0 then 0 else 1 := by split <;> decide
  refine ⟨token, by omega, ?_, ?_⟩
  · intro j k insideJ insideK
    by_contra different
    have also := tallyOthersMember (k := k) nonneg different
    have whole := split k
    omega
  · intro recycling k
    rw [if_neg recycling] at token
    have whole := split k
    have rest := others k
    have own := nonneg k
    omega

end Runs

section Examples

def someOp : Op := ⟨⟨0x1000, 64, 0⟩, ⟨0x2000, 64, 0⟩, .noFlush, 7⟩

def suspension : List (Event Unit) :=
  [.thread () (.enqueue someOp), .thread () (.next true), .thread () (.next true),
    .thread () (.next true), .thread () (.next true),
    .thread () (.enqueue someOp), .thread () (.next true), .thread () (.next true),
    .thread () (.next true), .thread () (.next true),
    .answer .outputBlockedSuspend 64 20, .callback, .answer .skipped 0 0, .callback,
    .thread () (.dequeue 2), .thread () (.next true), .thread () (.next true),
    .thread () (.next true), .thread () (.next true), .thread () (.next true),
    .thread () (.next true), .thread () .streamContinue,
    .thread () (.recycleFdPair someOp), .thread () (.next true), .thread () (.next true),
    .thread () (.recycleFdPair someOp), .thread () (.next false), .thread () .recycleDiscard]

theorem enqueueSemaphoreSuspension :
    (System.create .statefulRecycle).meets .statefulRecycle System.careful suspension = true ∧
    ∃ y, (System.create .statefulRecycle).run .statefulRecycle suspension = some y ∧
      y.session.returned.length = 2 ∧ y.session.sem ≤ 1 := by
  have meets : (System.create .statefulRecycle).meets .statefulRecycle System.careful suspension =
      true := by decide
  refine ⟨meets, _, rfl, rfl, ?_⟩
  exact (enqueueSemaphore meets rfl).2.1

theorem failedEnqueuePostsTwice :
    ∃ y, (System.create .statefulRecycle : System Unit).run .statefulRecycle
        [.thread () (.enqueue someOp), .thread () (.next true), .thread () (.next false),
          .thread () (.next true), .thread () (.next true), .thread () (.next true)] = some y ∧
      y.pc () = .idle ∧ y.session.recycleTodo = 0 ∧ y.session.sem = 2 :=
  ⟨_, rfl, rfl, rfl, rfl⟩

end Examples

end Flexbuild.Dce
