import Flexbuild.DceSemaphore
import Flexbuild.DceQueue

/-! The count of operations to recycle. A ledger keeps what the count depends on: whether the
DCE is skipping at the point up to which its answers have been dequeued, the recycle bits of the
operations in the fifo, and how many stopped operations the application has yet to handle. -/
namespace Flexbuild.Dce
open Placements Cores

@[ext]
structure Ledger where
  skips : Bool
  bits : List Bool
  due : Bool
  allowed : Bool
  todo : Nat
  unhandled : Nat
  deriving DecidableEq, Repr

def ahead (bits : List Bool) : Nat := (bits.takeWhile (fun b => !b)).length

def Ledger.marks (l : Ledger) : Nat := l.bits.count true + l.due.toNat

structure Ledger.Sound (l : Ledger) : Prop where
  todo : l.todo = l.unhandled + if l.skips then ahead l.bits else 0
  mode : (l.marks = 0 ∧ l.skips = true ∧ l.allowed = false ∧ l.todo ≠ 0) ∨
    ((l.allowed = true ↔ l.todo ≠ 0) ∧ l.marks = if l.skips then 1 else 0)

section Ledgers

variable {l : Ledger} {b : Bool} {rest : List Bool}

theorem aheadFalse (bits : List Bool) : ahead (false :: bits) = ahead bits + 1 := rfl

theorem aheadNone {bits : List Bool} (none_ : bits.count true = 0) : ahead bits = bits.length := by
  induction bits with
  | nil => rfl
  | cons b bits ih =>
    cases b with
    | true => simp at none_
    | false => rw [aheadFalse, ih (by simpa using none_), List.length_cons]

theorem aheadAppend {bits more : List Bool} (some_ : bits.count true ≠ 0) :
    ahead (bits ++ more) = ahead bits := by
  induction bits with
  | nil => exact absurd rfl some_
  | cons b bits ih =>
    cases b with
    | true => rfl
    | false => rw [List.cons_append, aheadFalse, aheadFalse, ih (by simpa using some_)]

theorem aheadMark (bits : List Bool) : ahead (bits ++ [true]) = ahead bits := by
  induction bits with
  | nil => rfl
  | cons b bits ih =>
    cases b with
    | true => rfl
    | false => rw [List.cons_append, aheadFalse, aheadFalse, ih]

def Ledger.add (l : Ledger) : Ledger := { l with bits := l.bits ++ [l.due], due := false }

theorem soundAdd (may : l.todo = 0 ∨ l.allowed = true) (ok : l.Sound) : l.add.Sound := by
  have marks : l.add.marks = l.marks := by
    simp only [Ledger.add, Ledger.marks, List.count_append]
    cases l.due <;> rfl
  have normal : (l.allowed = true ↔ l.todo ≠ 0) ∧ l.marks = if l.skips then 1 else 0 := by
    rcases ok.mode with ⟨_, _, denied, some_⟩ | normal
    · rcases may with zero | allowed
      · exact absurd zero some_
      · rw [denied] at allowed
        cases allowed
    · exact normal
  refine ⟨?_, .inr ⟨normal.1, marks.trans normal.2⟩⟩
  have todo := ok.todo
  show l.todo = l.unhandled + if l.skips then ahead (l.bits ++ [l.due]) else 0
  cases skips : l.skips with
  | false =>
    rw [skips] at todo
    exact todo
  | true =>
    rw [skips] at todo
    have one := normal.2
    rw [skips, if_pos rfl] at one
    rw [todo, if_pos rfl, if_pos rfl]
    congr 1
    cases due : l.due with
    | true => exact (aheadMark _).symm
    | false =>
      refine (aheadAppend ?_).symm
      simp only [Ledger.marks, due, Bool.toNat_false] at one
      omega

def Ledger.resume (l : Ledger) : Ledger := { l with due := true, allowed := true }

theorem soundResume (due : l.due = false) (some_ : l.todo ≠ 0) (denied : l.allowed = false)
    (ok : l.Sound) : l.resume.Sound := by
  rcases ok.mode with ⟨none_, skips, _, _⟩ | ⟨both, _⟩
  · refine ⟨ok.todo, .inr ⟨⟨fun _ => some_, fun _ => rfl⟩, ?_⟩⟩
    simp only [Ledger.marks, due, Bool.toNat_false] at none_
    simp only [Ledger.resume, Ledger.marks, skips, Bool.toNat_true, if_true]
    omega
  · have := both.mpr some_
    rw [denied] at this
    cases this

def Ledger.handle (l : Ledger) : Ledger :=
  { l with
    todo := l.todo - 1
    unhandled := l.unhandled - 1
    allowed := decide (l.todo - 1 ≠ 0) }

theorem soundHandle (allowed : l.allowed = true) (some_ : l.unhandled ≠ 0) (ok : l.Sound) :
    l.handle.Sound := by
  have todo := ok.todo
  refine ⟨?_, .inr ⟨decide_eq_true_iff, ?_⟩⟩
  · show l.todo - 1 = l.unhandled - 1 + if l.skips then ahead l.bits else 0
    omega
  · rcases ok.mode with ⟨_, _, denied, _⟩ | ⟨_, marks⟩
    · rw [denied] at allowed
      cases allowed
    · exact marks

def Ledger.skipped (rest : List Bool) (l : Ledger) : Ledger :=
  { l with bits := rest, unhandled := l.unhandled + 1 }

theorem soundSkipped (skips : l.skips = true) (head : l.bits = false :: rest) (ok : l.Sound) :
    l.todo ≠ 0 ∧ (l.skipped rest).Sound := by
  have todo := ok.todo
  have more : ahead (false :: rest) = ahead rest + 1 := rfl
  rw [skips, if_pos rfl, head, more] at todo
  have marks : (l.skipped rest).marks = l.marks := by
    simp [Ledger.skipped, Ledger.marks, head]
  refine ⟨by omega, ?_, ?_⟩
  · show l.todo = l.unhandled + 1 + if l.skips then ahead rest else 0
    rw [skips, if_pos rfl]
    omega
  · rw [marks]
    exact ok.mode

theorem unskipped (served : l.skips = true → b = true) (head : l.bits = b :: rest) (ok : l.Sound) :
    l.todo = l.unhandled ∧ rest.count true = 0 ∧ l.due.toNat = 0 ∧
      (l.allowed = true ↔ l.todo ≠ 0) := by
  have todo := ok.todo
  have mode := ok.mode
  simp only [Ledger.marks, head] at mode
  cases skips : l.skips with
  | false =>
    simp only [skips, Bool.false_eq_true, if_false, false_and, and_false, false_or] at todo mode
    have fewer : rest.count true ≤ (b :: rest).count true := List.count_le_count_cons
    exact ⟨todo, by omega, by omega, mode.1⟩
  | true =>
    have bit := served skips
    subst bit
    simp only [skips, head, if_true, List.count_cons_self] at todo mode
    rcases mode with ⟨none_, _⟩ | ⟨both, one⟩
    · omega
    · exact ⟨todo, by omega, by omega, both⟩

def Ledger.processed (rest : List Bool) (l : Ledger) : Ledger := { l with skips := false, bits := rest }

theorem soundProcessed (served : l.skips = true → b = true) (head : l.bits = b :: rest) (ok : l.Sound) :
    (l.processed rest).Sound := by
  obtain ⟨todo, none_, due, both⟩ := unskipped served head ok
  refine ⟨todo, .inr ⟨both, ?_⟩⟩
  simp only [Ledger.processed, Ledger.marks, due, none_]
  rfl

def Ledger.suspended (rest : List Bool) (l : Ledger) : Ledger :=
  { l with
    skips := true
    bits := rest
    allowed := false
    todo := l.todo + l.bits.length
    unhandled := l.unhandled + 1 }

theorem soundSuspended (served : l.skips = true → b = true) (head : l.bits = b :: rest) (ok : l.Sound) :
    (l.suspended rest).Sound := by
  obtain ⟨todo, none_, due, both⟩ := unskipped served head ok
  have length : l.bits.length = rest.length + 1 := by rw [head, List.length_cons]
  refine ⟨?_, .inl ⟨?_, rfl, rfl, ?_⟩⟩
  · show l.todo + l.bits.length = l.unhandled + 1 + if true then ahead rest else 0
    rw [if_pos rfl, aheadNone none_]
    omega
  · simp only [Ledger.suspended, Ledger.marks, due, none_]
  · show l.todo + l.bits.length ≠ 0
    omega

end Ledgers

def after (skips : Bool) (v : Bool × Status) : Bool :=
  if skips && !v.1 then true else decide (v.2.outcome = .suspended)

def skipping (verdicts : List (Bool × Status)) : Bool := verdicts.foldl after false

def lawful (skips : Bool) (v : Bool × Status) : Bool :=
  if skips && !v.1 then decide (v.2.outcome = .skipped)
  else decide (v.2.outcome = .processed ∨ v.2.outcome = .suspended)

def Lawful : Bool → List (Bool × Status) → Prop
  | _, [] => True
  | skips, v :: rest => lawful skips v = true ∧ Lawful (after skips v) rest

def Status.stops (status : Status) : Bool :=
  decide (status.outcome = .suspended ∨ status.outcome = .skipped)

section Verdicts

variable {skips : Bool} {v : Bool × Status} {xs ys : List (Bool × Status)}

theorem lawfulAppend : Lawful skips (xs ++ ys) ↔ Lawful skips xs ∧ Lawful (xs.foldl after skips) ys := by
  induction xs generalizing skips with
  | nil => simp [Lawful]
  | cons v xs ih => simp only [List.cons_append, Lawful, List.foldl_cons, ih, and_assoc]

theorem skippingConcat : skipping (xs ++ [v]) = after (skipping xs) v := by
  unfold skipping
  rw [List.foldl_append]
  rfl

inductive Verdict (skips : Bool) (v : Bool × Status) : Prop where
  | skipped (skips_ : skips = true) (bit : v.1 = false) (outcome : v.2.outcome = .skipped)
      (after_ : after skips v = true)
  | processed (served : skips = true → v.1 = true) (outcome : v.2.outcome = .processed)
      (after_ : after skips v = false)
  | suspended (served : skips = true → v.1 = true) (outcome : v.2.outcome = .suspended)
      (after_ : after skips v = true)

theorem lawfulVerdict (ok : lawful skips v = true) : Verdict skips v := by
  obtain ⟨bit, status⟩ := v
  unfold lawful at ok
  by_cases skipped : (skips && !bit) = true
  · rw [if_pos skipped, decide_eq_true_iff] at ok
    have both := skipped
    simp only [Bool.and_eq_true, Bool.not_eq_true'] at both
    exact .skipped both.1 both.2 ok (by simp only [after, if_pos skipped])
  · rw [if_neg skipped, decide_eq_true_iff] at ok
    have served : skips = true → bit = true := by
      intro skips_
      simpa [skips_] using skipped
    rcases ok with processed | suspended
    · exact .processed served processed (by rw [after, if_neg skipped, processed]; rfl)
    · exact .suspended served suspended (by rw [after, if_neg skipped, suspended]; rfl)

end Verdicts

def Queue.inflight (q : Queue) : List Job := q.called ++ q.waiting ++ q.out ++ q.pending

def Queue.stopped (q : Queue) : Nat := q.past.countP (fun j => j.status.stops)

section Books

variable {κ : Type} {s s' : Session κ} {q q' : Queue} {r : Int} {u : Nat} {w : WorkUnit} {op : Op}
  {j : Job} {rest : List Job}

def ledger (s : Session κ) (q : Queue) : Ledger where
  skips := skipping (q.past.map Job.verdict)
  bits := q.inflight.map Job.recycle
  due := s.recycle
  allowed := s.recyclerAllowed
  todo := s.recycleTodo
  unhandled := q.stopped - s.handled

structure Booked (s : Session κ) (q : Queue) (r : Int) : Prop where
  sound : (ledger s q).Sound
  handled : s.handled ≤ q.stopped
  verdicts : Lawful false s.verdicts
  room : ((q.stopped - s.handled : Nat) : Int) + s.fifo.numAlloc ≤ numBufs + r
  failed : s.failed ≠ some .recycleTodo

structure SameBooks (s s' : Session κ) : Prop where
  recycle : s'.recycle = s.recycle
  allowed : s'.recyclerAllowed = s.recyclerAllowed
  todo : s'.recycleTodo = s.recycleTodo
  handled : s'.handled = s.handled
  verdicts : s'.verdicts = s.verdicts
  fifo : s'.fifo = s.fifo

theorem bookedSame (same : SameBooks s s') (failed : s'.failed ≠ some .recycleTodo)
    (inflight : q'.inflight.map Job.recycle = q.inflight.map Job.recycle) (past : q'.past = q.past)
    (ok : Booked s q r) : Booked s' q' r := by
  obtain ⟨recycle, allowed, todo, handled, verdicts, fifo⟩ := same
  have eq : ledger s' q' = ledger s q := by
    unfold ledger Queue.stopped
    rw [recycle, allowed, todo, handled, inflight, past]
  have stopped : q'.stopped = q.stopped := by
    unfold Queue.stopped
    rw [past]
  refine ⟨?_, ?_, ?_, ?_, failed⟩
  · rw [eq]
    exact ok.sound
  · rw [handled, stopped]
    exact ok.handled
  · rw [verdicts]
    exact ok.verdicts
  · rw [handled, stopped, fifo]
    exact ok.room

theorem bookedFill {fifo : Fifo} {streamEnd : Bool} {r' : Int} (queued : Queued s q)
    (alloc : s.fifo.alloc = some (u, fifo)) (nonneg : 0 ≤ r)
    (may : s.recycleTodo = 0 ∧ r' = r ∨ s.recyclerAllowed = true ∧ r' = r + 1) (ok : Booked s q r) :
    Booked (s.fill u w fifo streamEnd) { q with pending := q.pending ++ [Job.new op s.recycle] } r' := by
  have grown := allocGrown queued.fifo alloc
  have valid := grown.valid.fits
  have more := grown.numAlloc
  have eq : ledger (s.fill u w fifo streamEnd)
      { q with pending := q.pending ++ [Job.new op s.recycle] } = (ledger s q).add := by
    refine Ledger.ext rfl ?_ rfl rfl rfl rfl
    simp [ledger, Ledger.add, Queue.inflight, Job.new]
  refine ⟨?_, ok.handled, ok.verdicts, ?_, ok.failed⟩
  · rw [eq]
    refine soundAdd ?_ ok.sound
    rcases may with ⟨zero, _⟩ | ⟨allowed, _⟩
    · exact .inl zero
    · exact .inr allowed
  · show ((q.stopped - s.handled : Nat) : Int) + fifo.numAlloc ≤ numBufs + r'
    have room := ok.room
    rcases may with ⟨zero, same⟩ | ⟨_, one⟩
    · have todo : s.recycleTodo = q.stopped - s.handled + _ := ok.sound.todo
      omega
    · omega

theorem bookedAnswered (status : Status) (outputLength bytesProcessed : Nat) {left : List Nat}
    (shape : q.out = j :: rest)
    (rule : lawful (skipping s.verdicts) ((s.unit u).fdList.recycle, status) = true)
    (ok : Booked s q r) :
    Booked (s.answered status outputLength bytesProcessed u left)
      { q with waiting := q.waiting ++ [j.replied status outputLength], out := rest } r := by
  have inflight : ({ q with
      waiting := q.waiting ++ [j.replied status outputLength], out := rest } : Queue).inflight.map
        Job.recycle = q.inflight.map Job.recycle := by
    simp [Queue.inflight, shape, Job.replied]
  have eq : ledger (s.answered status outputLength bytesProcessed u left)
      { q with waiting := q.waiting ++ [j.replied status outputLength], out := rest } =
        ledger s q := by
    unfold ledger
    rw [inflight]
    rfl
  refine ⟨?_, ok.handled, ?_, ok.room, ok.failed⟩
  · rw [eq]
    exact ok.sound
  · show Lawful false (s.verdicts ++ [((s.unit u).fdList.recycle, status)])
    exact lawfulAppend.mpr ⟨ok.verdicts, rule, trivial⟩

theorem bookedResume (end_ : Bool) (may : s.mayResume) (ok : Booked s q r) :
    Booked (s.resume end_) q r :=
  ⟨soundResume may.1 may.2.1 may.2.2 ok.sound, ok.handled, ok.verdicts, ok.room, ok.failed⟩

theorem bookedHandled (allowed : s.recyclerAllowed = true) (some_ : s.handled < q.stopped)
    (ok : Booked s q r) : Booked s.handledOne q (r - 1) := by
  have eq : ledger s.handledOne q = (ledger s q).handle := by
    refine Ledger.ext rfl rfl rfl rfl rfl ?_
    show q.stopped - (s.handled + 1) = q.stopped - s.handled - 1
    omega
  have open_ : (ledger s q).unhandled ≠ 0 := by
    show q.stopped - s.handled ≠ 0
    omega
  refine ⟨?_, some_, ok.verdicts, ?_, ok.failed⟩
  · rw [eq]
    exact soundHandle allowed open_ ok.sound
  · show ((q.stopped - (s.handled + 1) : Nat) : Int) + s.fifo.numAlloc ≤ numBufs + (r - 1)
    have room := ok.room
    omega

theorem bookedLess {r' : Int} (le : r ≤ r') (ok : Booked s q r) : Booked s q r' :=
  ⟨ok.sound, ok.handled, ok.verdicts, by have := ok.room; omega, ok.failed⟩

theorem inflightHead (shape : q.called = j :: rest) : q.inflight.map Job.recycle =
    j.recycle :: ({ q with past := q.past ++ [j], called := rest } : Queue).inflight.map Job.recycle := by
  simp [Queue.inflight, shape]

theorem stoppedConcat (q : Queue) (j : Job) (rest : List Job) :
    ({ q with past := q.past ++ [j], called := rest } : Queue).stopped =
      q.stopped + if j.status.stops = true then 1 else 0 := by
  simp [Queue.stopped, List.countP_append, List.countP_singleton]

theorem skippingPast (q : Queue) (j : Job) :
    skipping ((q.past ++ [j]).map Job.verdict) = after (skipping (q.past.map Job.verdict)) j.verdict := by
  rw [List.map_append]
  exact skippingConcat

theorem headVerdict (queued : Queued s q) (shape : q.called = j :: rest) (ok : Booked s q r) :
    Verdict (ledger s q).skips j.verdict := by
  have verdicts := ok.verdicts
  rw [queued.verdicts, shape, List.append_assoc, List.map_append, lawfulAppend] at verdicts
  exact lawfulVerdict verdicts.2.1

theorem bitsLength (queued : Queued s q) : (ledger s q).bits.length = s.fifo.numAlloc := by
  rw [← queued.count]
  simp only [ledger, Queue.inflight, Queue.given, Queue.answered, List.length_map, List.length_append]

theorem servedRoom (shape : q.called = j :: rest) (ok : Booked s q 0)
    (served : (ledger s q).skips = true → j.recycle = true) :
    s.recycleTodo + s.fifo.numAlloc ≤ numBufs := by
  obtain ⟨todo, _⟩ := unskipped served (inflightHead shape) ok.sound
  have room := ok.room
  change s.recycleTodo = q.stopped - s.handled at todo
  omega

theorem bookedFinish {outputFd : Frame} {inputConsumed : Nat} (valid : s.fifo.Valid)
    (some_ : s.fifo.numAlloc ≠ 0) (sound : (ledger s q).Sound) (handled : s.handled ≤ q.stopped)
    (verdicts : Lawful false s.verdicts)
    (room : ((q.stopped - s.handled : Nat) : Int) + s.fifo.numAlloc ≤ numBufs + r + 1)
    (failed : s.failed ≠ some .recycleTodo) :
    Booked (s.finish w outputFd inputConsumed) q r := by
  have nonempty : ¬ s.fifo.isEmpty = true := fun empty => some_ ((isEmptyIff valid).mp empty)
  obtain ⟨_, less⟩ := freeShrinks valid some_
  unfold Session.finish
  rw [if_neg nonempty]
  refine ⟨sound, handled, verdicts, ?_, failed⟩
  show ((q.stopped - s.handled : Nat) : Int) + s.fifo.free.numAlloc ≤ numBufs + r
  omega

theorem bookedSettle (queued : Queued s q) (shape : q.called = j :: rest) (ok : Booked s q 0)
    (eq : s.settle .statefulRecycle (s.unit s.fifo.head) = some s') :
    Booked s' { q with past := q.past ++ [j], called := rest } 0 := by
  have status := (queuedHead shape queued).status
  have stopped := stoppedConcat q j rest
  have skips := skippingPast q j
  have head := inflightHead shape
  have length := bitsLength queued
  have some_ : s.fifo.numAlloc ≠ 0 := by
    rw [← length]
    simp [ledger, head]
  have handled := ok.handled
  have room := ok.room
  generalize next : ({ q with past := q.past ++ [j], called := rest } : Queue) = q' at stopped head ⊢
  have past : q'.past = q.past ++ [j] := by rw [← next]
  unfold Session.settle at eq
  rw [status] at eq
  cases headVerdict queued shape ok with
  | skipped skips_ bit outcome after_ =>
    change j.status.outcome = .skipped at outcome
    have stops : j.status.stops = true := by simp [Status.stops, outcome]
    rw [stops, if_pos rfl] at stopped
    change j.recycle = false at bit
    rw [bit] at head
    obtain ⟨todo, sound⟩ := soundSkipped skips_ head ok.sound
    change s.recycleTodo ≠ 0 at todo
    have change_ : ledger s q' = (ledger s q).skipped (q'.inflight.map Job.recycle) := by
      refine Ledger.ext ?_ rfl rfl rfl rfl ?_
      · simp only [ledger, Ledger.skipped, past, skips]
        exact after_.trans skips_.symm
      · show q'.stopped - s.handled = q.stopped - s.handled + 1
        omega
    simp only [outcome] at eq
    rw [if_neg todo] at eq
    cases eq
    exact bookedFinish queued.fifo some_ (change_ ▸ sound) (by omega) ok.verdicts (by omega) ok.failed
  | processed served outcome after_ =>
    change j.status.outcome = .processed at outcome
    have stops : j.status.stops = false := by simp [Status.stops, outcome]
    rw [stops, if_neg Bool.false_ne_true, Nat.add_zero] at stopped
    have sound := soundProcessed served head ok.sound
    have change_ : ledger s q' = (ledger s q).processed (q'.inflight.map Job.recycle) := by
      refine Ledger.ext ?_ rfl rfl rfl rfl ?_
      · simp only [ledger, Ledger.processed, past, skips]
        exact after_
      · show q'.stopped - s.handled = q.stopped - s.handled
        rw [stopped]
    simp only [outcome] at eq
    cases eq
    exact bookedFinish queued.fifo some_ (change_ ▸ sound) (by omega) ok.verdicts (by omega) ok.failed
  | suspended served outcome after_ =>
    change j.status.outcome = .suspended at outcome
    have stops : j.status.stops = true := by simp [Status.stops, outcome]
    rw [stops, if_pos rfl] at stopped
    have sound := soundSuspended served head ok.sound
    have fits := servedRoom shape ok served
    have small : (s.recycleTodo + s.fifo.numAlloc) % 2 ^ 32 = s.recycleTodo + s.fifo.numAlloc := by
      unfold numBufs at fits
      exact Nat.mod_eq_of_lt (by omega)
    have change_ : ledger s.suspend q' = (ledger s q).suspended (q'.inflight.map Job.recycle) := by
      refine Ledger.ext ?_ rfl rfl rfl ?_ ?_
      · simp only [ledger, Ledger.suspended, past, skips]
        exact after_
      · show (s.recycleTodo + s.fifo.numAlloc) % 2 ^ 32 = s.recycleTodo + (ledger s q).bits.length
        rw [small, length]
      · show q'.stopped - s.handled = q.stopped - s.handled + 1
        omega
    simp only [outcome] at eq
    split at eq <;> try contradiction
    cases eq
    have more : ((q'.stopped - s.handled : Nat) : Int) + s.fifo.numAlloc ≤ numBufs + 0 + 1 := by omega
    exact bookedFinish (s := s.suspend) queued.fifo some_ (change_ ▸ sound)
      (show s.handled ≤ q'.stopped by omega) ok.verdicts more ok.failed

end Books

def Session.stopped {κ : Type} (s : Session κ) : Nat := s.returned.countP (fun r => r.status.stops)

-- `enqueue_fd` succeeds, a dequeue does not find DONE a unit that has ceased to be the head, and
-- the application handles only what it has dequeued.
def orderly {κ : Type} (s : Session κ) : Pc → Action → Bool
  | .send _ _, .next accepted => accepted
  | .recycling _ _, .next accepted => accepted
  | .dequeuing _ u, .next _ => decide (u = s.fifo.head ∨ (s.unit u).state ≠ .done)
  | .idle, .recycleDiscard => decide (s.recyclerAllowed = true → s.handled < s.stopped)
  | .idle, .recycleFdPair _ => decide (s.recyclerAllowed = true → s.handled < s.stopped)
  | _, _ => true

def Pc.reentry : Pc → Int
  | .recycling _ _ | .recycled _ => 1
  | _ => 0

def Handles {κ : Type} (s : Session κ) (q : Queue) : Pc → Prop
  | .recycling _ _ | .recycled _ => s.recyclerAllowed = true ∧ s.handled < q.stopped
  | _ => True

section Threads

variable {κ : Type} {k : κ} {s s' : Session κ} {q q' : Queue} {pc pc' : Pc} {a : Action} {p r : Int}

theorem stoppedReturned (queued : Queued s q) : s.stopped = q.stopped := by
  have both : ∀ (jobs : List Job) (rxs : List Rx), List.Forall₂ Job.Returned jobs rxs →
      rxs.countP (fun r => r.status.stops) = jobs.countP (fun j => j.status.stops) := by
    intro jobs rxs related
    induction related with
    | nil => rfl
    | cons first _ ih => rw [List.countP_cons, List.countP_cons, ih, first.status]
  exact both _ _ queued.returned

theorem unsentWho (fits : Fits k s pc) (unsent : pc.unsent ≠ 0) :
    pc.inside = 1 ∨ s.lock = some k ∧ s.recycleTodo ≠ 0 := by
  cases pc with
  | send op u => exact .inl rfl
  | posting u ok => exact .inl rfl
  | recycling op u => exact .inr fits
  | undo => cases fits
  | _ => exact absurd rfl unsent

theorem reentryLock (fits : Fits k s pc) (reentry : pc.reentry ≠ 0) : s.lock = some k := by
  cases pc with
  | recycling op u => exact fits.1
  | recycled u => exact fits.1
  | _ => exact absurd rfl reentry

structure KeepsHandled (s s' : Session κ) (q q' : Queue) : Prop where
  allowed : s'.recyclerAllowed = s.recyclerAllowed
  handled : s'.handled = s.handled
  stopped : q.stopped ≤ q'.stopped

theorem handlesKeep (keeps : pc.reentry ≠ 0 → KeepsHandled s s' q q') (handles : Handles s q pc) :
    Handles s' q' pc := by
  cases pc with
  | recycling op u =>
    obtain ⟨allowed, handled, stopped⟩ := keeps Int.one_ne_zero
    refine ⟨allowed.trans handles.1, ?_⟩
    have before := handles.2
    omega
  | recycled u =>
    obtain ⟨allowed, handled, stopped⟩ := keeps Int.one_ne_zero
    refine ⟨allowed.trans handles.1, ?_⟩
    have before := handles.2
    omega
  | _ => trivial

structure Advanced (p r : Int) (k : κ) (s s' : Session κ) (q q' : Queue) (pc' : Pc) : Prop where
  queued : Queued s' q'
  booked : Booked s' q' (r + pc'.reentry)
  pending : (q'.pending.length : Int) = p + pc'.unsent
  stands : Stands s' q' pc'
  handles : Handles s' q' pc'
  keepsPending : KeepsPending s s' q q' ∨ p = 0
  keepsHead : KeepsHead s s' q q' ∨ s.lock = some k
  keepsHandled : KeepsHandled s s' q q' ∨ s.lock = none ∨ s.lock = some k

structure Alone (p r : Int) (k : κ) (s : Session κ) (pc : Pc) : Prop where
  unsent : 0 ≤ p
  recycling : 0 ≤ r
  inside : pc.inside = 1 → s.recycleTodo = 0 ∧ p = 0
  mode : s.recycleTodo ≠ 0 → s.lock = none ∨ s.lock = some k → p = 0
  lock : s.lock = some k → r = 0

theorem advancedSame (queue : SameQueue s s') (books : SameBooks s s')
    (failed : s'.failed ≠ some .recycleTodo) (queued : Queued s q)
    (booked : Booked s q (r + pc.reentry)) (pending : (q.pending.length : Int) = p + pc.unsent)
    (unsent : pc'.unsent = pc.unsent) (reentry : pc'.reentry = pc.reentry)
    (stands : Stands s' q pc') (handles : Handles s' q pc') : Advanced p r k s s' q q pc' where
  queued := queuedSame queue queued
  booked := reentry ▸ bookedSame books failed rfl rfl booked
  pending := unsent ▸ pending
  stands := stands
  handles := handles
  keepsPending := .inl ⟨rfl, by rw [queue.fifo]⟩
  keepsHead := .inl ⟨by rw [queue.fifo], id, fun u _ _ done => by rwa [queue.unit] at done⟩
  keepsHandled := .inl ⟨books.allowed, books.handled, le_refl _⟩

theorem advancedBecome (pc : Pc) (u : Nat) {state : UnitState} (other : state ≠ .done) (queued : Queued s q)
    (booked : Booked s q (r + pc.reentry)) (pending : (q.pending.length : Int) = p + pc.unsent)
    (unsent : pc'.unsent = pc.unsent) (reentry : pc'.reentry = pc.reentry)
    (stands : Stands (s.setUnit u ((s.unit u).become state)) q pc') (handles : Handles s q pc') :
    Advanced p r k s (s.setUnit u ((s.unit u).become state)) q q pc' where
  queued := queuedBecome u other queued
  booked := reentry ▸ bookedSame (s := s) ⟨rfl, rfl, rfl, rfl, rfl, rfl⟩ booked.failed rfl rfl booked
  pending := unsent ▸ pending
  stands := stands
  handles := handlesKeep (s := s) (fun _ => ⟨rfl, rfl, le_refl _⟩) handles
  keepsPending := .inl ⟨rfl, rfl⟩
  keepsHead := by
    refine .inl ⟨rfl, id, ?_⟩
    intro v _ _ done
    by_cases same : v = u
    · subst same
      simp only [Session.setUnit, Function.update_self] at done
      exact absurd done other
    · simp only [Session.setUnit, Function.update_of_ne same] at done
      exact done
  keepsHandled := .inl ⟨rfl, rfl, le_refl _⟩

theorem advancedRelock {t : Session κ} (ok : Advanced p r k s s' q q' pc') (queue : SameQueue s' t)
    (books : SameBooks s' t) (failed : t.failed ≠ some .recycleTodo) : Advanced p r k s t q q' pc' := by
  refine ⟨queuedSame queue ok.queued, bookedSame books failed rfl rfl ok.booked,
    ok.pending, ?_, ?_, ?_, ?_, ?_⟩
  · exact standsKeep (fun _ => ⟨rfl, by rw [queue.fifo]⟩)
      (fun _ => ⟨by rw [queue.fifo], id, fun u _ _ done => by rwa [queue.unit] at done⟩) ok.stands
  · exact handlesKeep (fun _ => ⟨books.allowed, books.handled, le_refl _⟩) ok.handles
  · refine ok.keepsPending.imp (fun keeps => ⟨keeps.pending, ?_⟩) id
    rw [queue.fifo]
    exact keeps.seek
  · refine ok.keepsHead.imp (fun keeps => ⟨?_, keeps.called, ?_⟩) id
    · rw [queue.fifo]
      exact keeps.head
    · rw [queue.unit]
      exact keeps.done
  · refine ok.keepsHandled.imp (fun keeps => ⟨?_, ?_, keeps.stopped⟩) id
    · rw [books.allowed]
      exact keeps.allowed
    · rw [books.handled]
      exact keeps.handled

theorem advancedPrepare {op : Op} {u : Nat} (room : s.prepare .statefulRecycle op = some (u, s'))
    (queued : Queued s q) (booked : Booked s q r) (none_ : q.pending = []) (alone : p = 0)
    (nonneg : 0 ≤ r)
    (may : s.recycleTodo = 0 ∧ pc' = .send op u ∨
      s.recyclerAllowed = true ∧ s.handled < q.stopped ∧ pc' = .recycling op u) :
    ∃ q', Advanced p r k s s' q q' pc' := by
  obtain ⟨initial, flush, fifo, streamEnd, alloc, rfl⟩ := prepareFilled room
  have grown := allocGrown queued.fifo alloc
  have seek : fifo.headSeek = s.fifo.headSeek := headSeekSame grown.freer
  have filled : Queued (s.fill u (op.workUnit s.recycle initial flush) fifo streamEnd) _ :=
    queuedFill alloc queued
  have slot : u = fifo.headSeek q.given := by
    have last := queued.count
    rw [none_, List.length_nil, Nat.add_zero] at last
    rw [seek, last]
    exact grown.slot
  have length : ((q.pending ++ [Job.new op s.recycle]).length : Int) = p + 1 := by
    rw [none_, alone]
    rfl
  have stands : ∃ j, q.pending ++ [Job.new op s.recycle] = [j] ∧ j.op = op :=
    ⟨Job.new op s.recycle, by rw [none_]; rfl, rfl⟩
  have head : KeepsHead s (s.fill u (op.workUnit s.recycle initial flush) fifo streamEnd) q
      { q with pending := q.pending ++ [Job.new op s.recycle] } := by
    refine ⟨congrFun seek 0, id, ?_⟩
    intro v _ _ done
    by_cases same : v = u
    · subst same
      simp only [Session.fill, Session.setUnit, Function.update_self] at done
      cases done
    · simp only [Session.fill, Session.setUnit, Function.update_of_ne same] at done
      exact done
  refine ⟨_, filled, ?_, ?_, ?_, ?_, .inr alone, .inl head, .inl ⟨rfl, rfl, le_refl _⟩⟩
  · refine bookedFill queued alloc nonneg ?_ booked
    rcases may with ⟨normal, rfl⟩ | ⟨allowed, _, rfl⟩
    · exact .inl ⟨normal, by simp [Pc.reentry]⟩
    · exact .inr ⟨allowed, by simp [Pc.reentry]⟩
  · rcases may with ⟨_, rfl⟩ | ⟨_, _, rfl⟩ <;> exact length
  · rcases may with ⟨_, rfl⟩ | ⟨_, _, rfl⟩ <;> exact ⟨stands, slot⟩
  · rcases may with ⟨_, rfl⟩ | ⟨allowed, some_, rfl⟩
    · trivial
    · exact ⟨allowed, some_⟩

theorem advancedSubmit {op : Op} {u : Nat} (queued : Queued s q) (booked : Booked s q (r + pc'.reentry))
    (stands : (∃ j, q.pending = [j] ∧ j.op = op) ∧ u = s.fifo.headSeek q.given) (alone : p = 0)
    (where_ : pc' = .posting u true ∨ pc' = .recycled u ∧ s.recyclerAllowed = true ∧
      s.handled < q.stopped) :
    ∃ q', Advanced p r k s (s.submit op u) q q' pc' := by
  obtain ⟨⟨j, only, rfl⟩, rfl⟩ := stands
  refine ⟨_, queuedSubmit only queued, bookedSame (s := s) (q := q) ⟨rfl, rfl, rfl, rfl, rfl, rfl⟩ booked.failed
    ?_ rfl booked, ?_, ?_, ?_, .inr alone, .inl ⟨rfl, id, fun u _ _ done => done⟩,
    .inl ⟨rfl, rfl, le_refl _⟩⟩
  · simp [Queue.inflight, only]
  · rw [alone]
    rcases where_ with rfl | ⟨rfl, _⟩ <;> rfl
  · rcases where_ with rfl | ⟨rfl, _⟩
    · exact fun no => Bool.noConfusion no
    · trivial
  · rcases where_ with rfl | ⟨rfl, allowed, some_⟩
    · trivial
    · exact ⟨allowed, some_⟩

theorem advancedTake {n u : Nat} (queued : Queued s q) (booked : Booked s q r)
    (pending : (q.pending.length : Int) = p) (head : u = s.fifo.head) (done : (s.unit u).state = .done) :
    Advanced p r k s (s.take u) q q (.taken n u) := by
  have called : q.called ≠ [] := by
    intro none_
    rw [head] at done
    have lt := queued.done 0 (by decide) done
    rw [none_] at lt
    exact Nat.not_lt_zero _ lt
  have free : ((s.markFree u).unit u).state ≠ .done := by
    simp [Session.markFree, Session.setUnit, WorkUnit.become]
  have taken : Advanced p r k s (s.markFree u) q q (.taken n u) :=
    advancedBecome .idle u (by decide) queued (by simpa [Pc.reentry] using booked)
      (by simpa [Pc.unsent] using pending) rfl rfl ⟨head, called, free⟩ trivial
  unfold Session.take
  split
  · exact advancedRelock taken ⟨rfl, rfl, rfl, rfl, rfl, rfl, rfl, rfl⟩ ⟨rfl, rfl, rfl, rfl, rfl, rfl⟩
      (by simp [Session.fail])
  · exact taken

theorem advancedSettle {n u : Nat} (queued : Queued s q) (booked : Booked s q r)
    (pending : (q.pending.length : Int) = p) (stands : Stands s q (.taken n u)) (alone : r = 0)
    (lock : s.lock = some k) (eq : s.settle .statefulRecycle (s.unit u) = some s') :
    ∃ q', Advanced p r k s s' q q' (.dequeuing (n - 1) s'.fifo.head) := by
  obtain ⟨rfl, called, free⟩ := stands
  obtain ⟨j, rest, shape⟩ := List.exists_cons_of_ne_nil called
  rw [alone] at booked
  have after_ := bookedSettle queued shape booked eq
  rcases queuedSettle shape free eq queued with rfl | ⟨later, popped⟩
  · exact absurd rfl after_.failed
  · have seek := givenFree s.fifo shape
    rw [← popped.fifo] at seek
    exact ⟨_, later, by simpa [alone, Pc.reentry] using after_, by simpa [Pc.unsent] using pending,
      trivial, trivial, .inl ⟨rfl, seek⟩, .inr lock, .inr (.inr lock)⟩

theorem moveAdvanced (queued : Queued s q) (booked : Booked s q (r + pc.reentry))
    (pending : (q.pending.length : Int) = p + pc.unsent) (fits : Fits k s pc)
    (allowed : s.recyclerAllowed = true → s.recycleTodo ≠ 0) (stands : Stands s q pc)
    (handles : Handles s q pc) (alone : Alone p r k s pc) (condition : orderly s pc a = true)
    (move : Move .statefulRecycle k s pc a pc' s') : ∃ q', Advanced p r k s s' q q' pc' := by
  have failed := booked.failed
  have same : ∀ {t : Session κ} {pc' : Pc}, SameQueue s t → SameBooks s t →
      t.failed ≠ some .recycleTodo → pc'.unsent = pc.unsent → pc'.reentry = pc.reentry →
      Stands t q pc' → Handles t q pc' → ∃ q', Advanced p r k s t q q' pc' :=
    fun queue books failed unsent reentry stands handles =>
      ⟨q, advancedSame queue books failed queued booked pending unsent reentry stands handles⟩
  have still : SameQueue s s ∧ SameBooks s s :=
    ⟨⟨rfl, rfl, rfl, rfl, rfl, rfl, rfl, rfl⟩, ⟨rfl, rfl, rfl, rfl, rfl, rfl⟩⟩
  cases move with
  | enterStateless stateless => cases stateless
  | refused _ _ => exact same still.1 still.2 failed rfl rfl trivial trivial
  | enter _ _ =>
    exact same ⟨rfl, rfl, rfl, rfl, rfl, rfl, rfl, rfl⟩ ⟨rfl, rfl, rfl, rfl, rfl, rfl⟩ failed rfl rfl
      trivial trivial
  | allocAssert recycling => exact absurd (alone.inside rfl).1 recycling
  | full _ _ => exact same still.1 still.2 failed rfl rfl trivial trivial
  | alloc normal room =>
    have none_ : q.pending = [] := by
      have zero := (alone.inside rfl).2
      simp only [Pc.unsent] at pending
      exact List.length_eq_zero_iff.mp (by omega)
    exact advancedPrepare room queued (by simpa [Pc.reentry] using booked) none_ (alone.inside rfl).2
      alone.recycling (.inl ⟨normal, rfl⟩)
  | sent => exact advancedSubmit queued booked stands (alone.inside rfl).2 (.inl rfl)
  | unsent => cases condition
  | posted =>
    exact same ⟨rfl, rfl, rfl, rfl, rfl, rfl, rfl, rfl⟩ ⟨rfl, rfl, rfl, rfl, rfl, rfl⟩ failed rfl rfl
      trivial trivial
  | postedFailure => cases fits
  | @marked u _ =>
    exact ⟨q, advancedBecome _ u (by decide) queued booked pending rfl rfl trivial trivial⟩
  | undoAssert _ => cases fits
  | undone _ => cases fits
  | gaveUp =>
    exact same ⟨rfl, rfl, rfl, rfl, rfl, rfl, rfl, rfl⟩ ⟨rfl, rfl, rfl, rfl, rfl, rfl⟩ failed rfl rfl
      trivial trivial
  | look => exact same still.1 still.2 failed rfl rfl trivial trivial
  | began stateless => cases stateless
  | contended _ _ => exact same still.1 still.2 failed rfl rfl trivial trivial
  | locked _ _ =>
    exact same ⟨rfl, rfl, rfl, rfl, rfl, rfl, rfl, rfl⟩ ⟨rfl, rfl, rfl, rfl, rfl, rfl⟩ failed rfl rfl
      trivial trivial
  | stopped _ =>
    rw [if_pos rfl]
    exact same ⟨rfl, rfl, rfl, rfl, rfl, rfl, rfl, rfl⟩ ⟨rfl, rfl, rfl, rfl, rfl, rfl⟩ failed rfl rfl
      trivial trivial
  | @took n u _ _ done =>
    have head : u = s.fifo.head := by
      rcases of_decide_eq_true condition with head | other
      · exact head
      · exact absurd done other
    exact ⟨q, advancedTake queued (by simpa [Pc.reentry] using booked)
      (by simpa [Pc.unsent] using pending) head done⟩
  | settled eq =>
    exact advancedSettle queued (by simpa [Pc.reentry] using booked)
      (by simpa [Pc.unsent] using pending) stands (alone.lock fits.2) fits.2 eq
  | resumed _ _ free may =>
    refine ⟨q, queuedSame (s := s) ⟨rfl, rfl, rfl, rfl, rfl, rfl, rfl, rfl⟩ queued,
      bookedResume _ may booked, pending, trivial, trivial, .inl ⟨rfl, rfl⟩,
      .inl ⟨rfl, id, fun _ _ _ done => done⟩, .inr (.inl free)⟩
  | notAllowed _ _ => exact same still.1 still.2 failed rfl rfl trivial trivial
  | recycleBusy _ => exact same still.1 still.2 failed rfl rfl trivial trivial
  | handleAssert _ may none_ => exact absurd none_ (allowed may)
  | discarded free may _ =>
    have some_ : s.handled < q.stopped := stoppedReturned queued ▸ of_decide_eq_true condition may
    refine ⟨q, queuedSame (s := s) ⟨rfl, rfl, rfl, rfl, rfl, rfl, rfl, rfl⟩ queued,
      bookedLess (by omega) (bookedHandled may some_ booked), pending, trivial, trivial,
      .inl ⟨rfl, rfl⟩, .inl ⟨rfl, id, fun _ _ _ done => done⟩, .inr (.inl free)⟩
  | recycleFull _ _ => exact same still.1 still.2 failed rfl rfl trivial trivial
  | recycle _ free may recycling room =>
    have some_ : s.handled < q.stopped := stoppedReturned queued ▸ of_decide_eq_true condition may
    have zero := alone.mode recycling (.inl free)
    have none_ : q.pending = [] := by
      simp only [Pc.unsent] at pending
      exact List.length_eq_zero_iff.mp (by omega)
    obtain ⟨q', advanced⟩ := advancedPrepare (k := k) room queued (by simpa [Pc.reentry] using booked)
      none_ zero alone.recycling (.inr ⟨may, some_, rfl⟩)
    exact ⟨q', advancedRelock advanced ⟨rfl, rfl, rfl, rfl, rfl, rfl, rfl, rfl⟩
      ⟨rfl, rfl, rfl, rfl, rfl, rfl⟩ advanced.booked.failed⟩
  | resent =>
    exact advancedSubmit queued booked stands (alone.mode fits.2 (.inr fits.1))
      (.inr ⟨rfl, handles⟩)
  | recycleAssert _ => cases condition
  | unsentAgain _ => cases condition
  | recycledAssert none_ => exact absurd none_ fits.2
  | @recycled u _ _ =>
    have handled : Booked s.handledOne q (r + 1 - 1) := bookedHandled handles.1 handles.2 booked
    have queue : Queued s.handledOne q :=
      queuedSame (s := s) ⟨rfl, rfl, rfl, rfl, rfl, rfl, rfl, rfl⟩ queued
    have marked : Advanced p r k s.handledOne (s.handledOne.markTodo u) q q .idle :=
      advancedBecome .idle u (by decide) queue (by simpa [Pc.reentry] using handled)
        (by simpa [Pc.unsent] using pending) rfl rfl trivial trivial
    have released := advancedRelock (t := (s.handledOne.markTodo u).release) marked
      ⟨rfl, rfl, rfl, rfl, rfl, rfl, rfl, rfl⟩ ⟨rfl, rfl, rfl, rfl, rfl, rfl⟩ marked.booked.failed
    exact ⟨q, released.queued, released.booked, released.pending, trivial, trivial,
      released.keepsPending.imp (fun keeps => ⟨keeps.pending, keeps.seek⟩) id,
      .inr fits.1, .inr (.inr fits.1)⟩

end Threads

def Session.bits {κ : Type} (s : Session κ) : List Bool :=
  (slots s.fifo.headSeek 0 s.fifo.numAlloc).map (fun u => (s.unit u).fdList.recycle)

section Counting

variable {κ : Type} {s : Session κ} {q : Queue}

theorem bitsEq (queued : Queued s q) : s.bits = q.inflight.map Job.recycle := by
  have placed : Placed Job.In s.unit s.fifo.headSeek 0 q.inflight := by
    refine placedAppend.mpr ⟨queuedGiven queued, ?_⟩
    simpa [Queue.given, Queue.answered, Nat.add_assoc] using queued.pending
  have length : q.inflight.length = s.fifo.numAlloc := by
    rw [← queued.count]
    simp only [Queue.inflight, Queue.given, Queue.answered, List.length_append]
  unfold Session.bits
  rw [← length]
  exact placedMap (f := fun w => w.fdList.recycle) (fun _ _ holds => holds.recycle) placed

theorem stoppedAhead {skips : Bool} {vs : List (Bool × Status)} (bits : List Bool)
    (ok : Lawful skips vs) (quiet : ∀ v ∈ vs, v.2.outcome ≠ .suspended) :
    (vs.countP (fun v => v.2.stops) + if vs.foldl after skips then ahead bits else 0) =
      if skips then ahead (vs.map Prod.fst ++ bits) else 0 := by
  induction vs generalizing skips with
  | nil => cases skips <;> simp
  | cons v vs ih =>
    have later := ih ok.2 (fun x mem => quiet x (List.mem_cons_of_mem _ mem))
    rw [List.countP_cons, List.foldl_cons]
    cases lawfulVerdict ok.1 with
    | skipped skips_ bit outcome after_ =>
      have stops : v.2.stops = true := by simp [Status.stops, outcome]
      rw [after_] at later
      rw [after_, stops, skips_, List.map_cons, List.cons_append, bit, aheadFalse]
      simp only [if_true] at later ⊢
      omega
    | processed served outcome after_ =>
      have stops : v.2.stops = false := by simp [Status.stops, outcome]
      rw [after_] at later
      rw [after_, stops]
      simp only [Bool.false_eq_true, if_false, Nat.add_zero] at later ⊢
      rw [later]
      cases skips with
      | false => rfl
      | true => rw [List.map_cons, List.cons_append, served rfl]; rfl
    | suspended _ outcome _ => exact absurd outcome (quiet v List.mem_cons_self)

def Session.stoppedAll (s : Session κ) : Nat :=
  s.verdicts.countP (fun v => v.2.stops) +
    if skipping s.verdicts then ahead (s.bits.drop (s.verdicts.length - s.returned.length)) else 0

def Session.stoppedSeen (s : Session κ) : Nat :=
  s.stopped + if skipping (s.verdicts.take s.returned.length) then ahead s.bits else 0

theorem pastVerdicts (queued : Queued s q) :
    s.verdicts = q.past.map Job.verdict ++ (q.called ++ q.waiting).map Job.verdict ∧
      s.returned.length = (q.past.map Job.verdict).length := by
  refine ⟨?_, ?_⟩
  · rw [queued.verdicts, List.append_assoc, List.map_append]
  · rw [List.length_map]
    exact (List.Forall₂.length_eq queued.returned).symm

theorem booksCount {r : Int} (queued : Queued s q) (booked : Booked s q r) :
    s.recycleTodo + s.handled = s.stoppedSeen := by
  have todo := booked.sound.todo
  have handled := booked.handled
  obtain ⟨verdicts, length⟩ := pastVerdicts queued
  unfold Session.stoppedSeen
  rw [verdicts, List.take_left' length.symm, stoppedReturned queued, bitsEq queued]
  change s.recycleTodo = q.stopped - s.handled +
    (if skipping (q.past.map Job.verdict) then ahead (q.inflight.map Job.recycle) else 0) at todo
  omega

theorem seenAll {r : Int} (queued : Queued s q) (booked : Booked s q r)
    (quiet : ∀ v ∈ s.verdicts.drop s.returned.length, v.2.outcome ≠ .suspended) :
    s.stoppedSeen = s.stoppedAll := by
  obtain ⟨verdicts, length⟩ := pastVerdicts queued
  have rule := booked.verdicts
  rw [verdicts, List.drop_left' length.symm] at quiet
  rw [verdicts, lawfulAppend] at rule
  have counted := stoppedAhead ((q.out ++ q.pending).map Job.recycle) rule.2 quiet
  have bits : s.bits = ((q.called ++ q.waiting).map Job.verdict).map Prod.fst ++
      (q.out ++ q.pending).map Job.recycle := by
    rw [bitsEq queued, Queue.inflight, List.append_assoc, List.map_append, List.map_map]
    rfl
  have left : s.verdicts.length - s.returned.length =
      (((q.called ++ q.waiting).map Job.verdict).map Prod.fst).length := by
    rw [verdicts, length, List.length_append, Nat.add_sub_cancel_left]
    simp only [List.length_map]
  have stopped : s.stopped = (q.past.map Job.verdict).countP (fun v => v.2.stops) := by
    rw [stoppedReturned queued, List.countP_map]
    rfl
  unfold Session.stoppedSeen Session.stoppedAll
  rw [left, bits, List.drop_left' rfl, verdicts, List.take_left' length.symm, List.countP_append, stopped]
  unfold skipping
  rw [List.foldl_append, Nat.add_assoc, counted]

end Counting

section Runs

variable {κ : Type} [DecidableEq κ] [Fintype κ] {y y' : System κ} {e : Event κ} {k : κ}

structure System.Books (y : System κ) (q : Queue) : Prop where
  queued : Queued y.session q
  booked : Booked y.session q (tally Pc.reentry y.pc)
  pending : (q.pending.length : Int) = tally Pc.unsent y.pc
  stands : ∀ k, Stands y.session q (y.pc k)
  handles : ∀ k, Handles y.session q (y.pc k)

structure System.Accounted (y : System κ) : Prop where
  balanced : y.Balanced
  books : ∃ q, y.Books q

def System.orderly (y : System κ) : Event κ → Bool
  | .thread k a => Dce.orderly y.session (y.pc k) a
  | .answer status _ _ =>
      match y.session.sent with
      | [] => true
      | u :: _ => lawful (skipping y.session.verdicts) ((y.session.unit u).fdList.recycle, status)
  | .callback => true

theorem unsentNonneg (pc : Pc) : 0 ≤ pc.unsent := by
  cases pc with
  | posting u ok => cases ok <;> simp [Pc.unsent]
  | _ => simp [Pc.unsent]

theorem reentryNonneg (pc : Pc) : 0 ≤ pc.reentry := by
  cases pc <;> simp [Pc.reentry]

theorem othersAlone (ok : y.Balanced) (k : κ) :
    Alone (tallyOthers Pc.unsent y.pc k) (tallyOthers Pc.reentry y.pc k) k y.session (y.pc k) := by
  have token := ok.session.enqueuers
  have split := tallySplit Pc.inside y.pc k
  have nonneg : ∀ j, 0 ≤ (y.pc j).inside := fun j => insideNonneg _
  have others : 0 ≤ tallyOthers Pc.inside y.pc k := tallyOthersNonneg nonneg
  unfold Session.recycling at token
  refine ⟨tallyOthersNonneg (fun j => unsentNonneg _), tallyOthersNonneg (fun j => reentryNonneg _),
    ?_, ?_, ?_⟩
  · intro inside
    have normal : y.session.recycleTodo = 0 := by
      by_contra recycling
      rw [if_neg recycling] at token
      omega
    rw [if_pos normal] at token
    refine ⟨normal, tallyOthersZero ?_⟩
    intro j other
    by_contra unsent
    have member := tallyOthersMember nonneg other
    rcases unsentWho (ok.fits j) unsent with also | ⟨_, recycling⟩
    · omega
    · exact recycling normal
  · intro recycling lock
    rw [if_neg recycling] at token
    refine tallyOthersZero ?_
    intro j other
    by_contra unsent
    have member := tallyOthersMember nonneg other
    have own := nonneg k
    rcases unsentWho (ok.fits j) unsent with also | ⟨held, _⟩
    · omega
    · rcases lock with free | mine
      · rw [free] at held
        cases held
      · rw [mine] at held
        exact other (Option.some.inj held).symm
  · intro mine
    refine tallyOthersZero ?_
    intro j other
    by_contra reentry
    have held := reentryLock (ok.fits j) reentry
    rw [mine] at held
    exact other (Option.some.inj held).symm

theorem orderlyCareful {q : Queue} (books : y.Books q) (ok : y.Balanced) (condition : y.orderly e = true) :
    y.careful e = true := by
  cases e with
  | thread k a =>
    have fits := ok.fits k
    have stands := books.stands k
    have booked := books.booked
    rw [tallySplit Pc.reentry y.pc k] at booked
    simp only [System.orderly, System.careful] at condition ⊢
    cases at_ : y.pc k with
    | send op u =>
      rw [at_] at condition
      cases a with
      | next accepted => exact condition
      | _ => rfl
    | taken n u =>
      rw [at_] at fits stands booked
      have alone := (othersAlone ok k).lock fits.2
      rw [alone] at booked
      obtain ⟨rfl, called, _⟩ := stands
      obtain ⟨j, rest, shape⟩ := List.exists_cons_of_ne_nil called
      refine decide_eq_true (fun outcome large => ?_)
      rw [(queuedHead shape books.queued).status] at outcome
      cases headVerdict books.queued shape booked with
      | skipped _ _ skipped _ => exact absurd (skipped.symm.trans outcome) (by decide)
      | processed _ processed _ => exact absurd (processed.symm.trans outcome) (by decide)
      | suspended served _ _ =>
        have room := servedRoom shape (bookedLess (by simp [Pc.reentry]) booked) served
        unfold numBufs at room
        omega
    | _ => rfl
  | _ => rfl

theorem stepAccounted (ok : y.Accounted) (condition : y.orderly e = true)
    (step : Step .statefulRecycle y e y') : y'.Accounted := by
  obtain ⟨balanced, q, books⟩ := ok
  refine ⟨stepBalanced balanced (orderlyCareful books balanced condition) step, ?_⟩
  cases step with
  | @thread k a pc s move =>
    have booked := books.booked
    have pending := books.pending
    rw [tallySplit Pc.reentry y.pc k] at booked
    rw [tallySplit Pc.unsent y.pc k] at pending
    obtain ⟨q', advanced⟩ := moveAdvanced books.queued booked pending (balanced.fits k)
      balanced.session.allowed (books.stands k) (books.handles k) (othersAlone balanced k) condition move
    refine ⟨q', advanced.queued, ?_, ?_, ?_, ?_⟩
    · simp only [tallyMove]
      exact advanced.booked
    · simp only [tallyMove]
      exact advanced.pending
    · intro j
      by_cases same : j = k
      · subst same
        simp only [Function.update_self]
        exact advanced.stands
      · simp only [Function.update_of_ne same]
        refine standsKeep ?_ ?_ (books.stands j)
        · intro unsent
          refine advanced.keepsPending.resolve_right (fun alone => unsent ?_)
          have member := tallyOthersMember (fun i => unsentNonneg (y.pc i)) same
          have nonneg := unsentNonneg (y.pc j)
          omega
        · intro takes
          refine advanced.keepsHead.resolve_right (fun mine => ?_)
          have held : y.session.lock = some j := by
            have fits := balanced.fits j
            cases at_ : y.pc j with
            | taken n u =>
              rw [at_] at fits
              exact fits.2
            | _ =>
              rw [at_] at takes
              cases takes
          rw [mine] at held
          exact same (Option.some.inj held).symm
    · intro j
      by_cases same : j = k
      · subst same
        simp only [Function.update_self]
        exact advanced.handles
      · simp only [Function.update_of_ne same]
        refine handlesKeep ?_ (books.handles j)
        intro reentry
        refine advanced.keepsHandled.resolve_right (fun lock => ?_)
        have held := reentryLock (balanced.fits j) reentry
        rcases lock with free | mine
        · rw [free] at held
          cases held
        · rw [mine] at held
          exact same (Option.some.inj held).symm
  | @answer status outputLength bytesProcessed u rest first =>
    obtain ⟨j, left, shape, _, queued⟩ := queuedAnswered status outputLength bytesProcessed first
      books.queued
    simp only [System.orderly, first] at condition
    obtain ⟨keepsPending, keepsHead⟩ := answeredKeeps (s := y.session) (u := u) status outputLength
      bytesProcessed rest shape
    refine ⟨_, queued, bookedAnswered _ _ _ shape condition books.booked, books.pending, ?_, ?_⟩
    · exact fun k => standsKeep (fun _ => keepsPending) (fun _ => keepsHead) (books.stands k)
    · exact fun k => handlesKeep (s := y.session) (fun _ => ⟨rfl, rfl, le_refl _⟩) (books.handles k)
  | callbackAssert first _ =>
    refine ⟨q, queuedSame (s := y.session) ⟨rfl, rfl, rfl, rfl, rfl, rfl, rfl, rfl⟩ books.queued,
      bookedSame (s := y.session) ⟨rfl, rfl, rfl, rfl, rfl, rfl⟩ (by simp [Session.fail]) rfl rfl
        books.booked, books.pending, books.stands, books.handles⟩
  | @callback u fd rest first _ =>
    obtain ⟨j, left, shape, slot, queued⟩ := queuedCalledBack first books.queued
    obtain ⟨keepsPending, keepsHead⟩ := calledBackKeeps fd rest shape slot books.queued
    refine ⟨_, queued, bookedSame (s := y.session) (q := q) ⟨rfl, rfl, rfl, rfl, rfl, rfl⟩
      books.booked.failed ?_ rfl books.booked, books.pending, ?_, ?_⟩
    · simp [Queue.inflight, shape]
    · exact fun k => standsKeep (fun _ => keepsPending) (fun _ => keepsHead) (books.stands k)
    · exact fun k => handlesKeep (s := y.session) (fun _ => ⟨rfl, rfl, le_refl _⟩) (books.handles k)

omit [DecidableEq κ] in
theorem createAccounted : (System.create .statefulRecycle : System κ).Accounted := by
  have nobody : ∀ cost : Pc → Int, cost .idle = 0 →
      tally cost (System.create .statefulRecycle : System κ).pc = 0 := by
    intro cost free
    exact Finset.sum_eq_zero (fun _ _ => free)
  refine ⟨createBalanced, Queue.empty, createQueued _, ?_, ?_, fun _ => trivial, fun _ => trivial⟩
  · rw [nobody _ rfl]
    refine ⟨⟨rfl, .inr ⟨?_, rfl⟩⟩, le_refl _, trivial, ?_, fun no => by cases no⟩
    · exact ⟨fun no => Bool.noConfusion no, fun no => absurd rfl no⟩
    · show (0 : Int) + 0 ≤ numBufs + 0
      unfold numBufs
      omega
  · rw [nobody _ rfl]
    rfl

theorem recycleAccounting {events : List (Event κ)}
    (meets : (System.create .statefulRecycle).meets .statefulRecycle System.orderly events = true)
    (ran : (System.create .statefulRecycle).run .statefulRecycle events = some y) :
    y.session.recycleTodo + y.session.handled = y.session.stoppedSeen ∧
      ((∀ v ∈ y.session.verdicts.drop y.session.returned.length, v.2.outcome ≠ .suspended) →
        y.session.recycleTodo + y.session.handled = y.session.stoppedAll) ∧
      y.session.failed ≠ some .recycleTodo ∧
      ((y.session.sem = 1 ∨ ∃ k, (y.pc k).inside = 1) ↔ y.session.recycleTodo = 0) := by
  have ok : y.Accounted :=
    runKeeps (fun _ _ _ ok condition _ step => stepAccounted ok condition step) createAccounted meets ran
  obtain ⟨balanced, q, books⟩ := ok
  have count := booksCount books.queued books.booked
  refine ⟨count, fun quiet => count.trans (seenAll books.queued books.booked quiet),
    books.booked.failed, ?_⟩
  have token := balanced.session.enqueuers
  unfold Session.recycling at token
  have nonneg : ∀ j, 0 ≤ (y.pc j).inside := fun j => insideNonneg _
  constructor
  · intro open_
    by_contra recycling
    rw [if_neg recycling] at token
    have total : 0 ≤ tally Pc.inside y.pc := Finset.sum_nonneg (fun j _ => nonneg j)
    rcases open_ with one | ⟨k, inside⟩
    · omega
    · have split := tallySplit Pc.inside y.pc k
      have others : 0 ≤ tallyOthers Pc.inside y.pc k := tallyOthersNonneg nonneg
      omega
  · intro normal
    rw [if_pos normal] at token
    by_contra closed
    rw [not_or, not_exists] at closed
    have nobody : tally Pc.inside y.pc = 0 := by
      refine Finset.sum_eq_zero (fun k _ => ?_)
      have outside := closed.2 k
      cases at_ : y.pc k <;> simp_all [Pc.inside]
    omega

end Runs

section Examples

def recycling : List (Event Unit) :=
  [.thread () (.enqueue someOp), .thread () (.next true), .thread () (.next true),
    .thread () (.next true), .thread () (.next true),
    .thread () (.enqueue someOp), .thread () (.next true), .thread () (.next true),
    .thread () (.next true), .thread () (.next true),
    .answer .outputBlockedSuspend 64 20, .callback, .answer .skipped 0 0, .callback,
    .thread () (.dequeue 2), .thread () (.next true), .thread () (.next true),
    .thread () (.next true), .thread () (.next true), .thread () (.next true),
    .thread () (.next true), .thread () .streamContinue,
    .thread () (.recycleFdPair someOp), .thread () (.next true), .thread () (.next true),
    .answer .outputBlockedSuspend 64 20, .callback, .thread () .recycleDiscard,
    .thread () (.dequeue 1), .thread () (.next true), .thread () (.next true), .thread () (.next true)]

theorem recycleAccountingTwice :
    (System.create .statefulRecycle).meets .statefulRecycle System.orderly recycling = true ∧
    ∃ y, (System.create .statefulRecycle).run .statefulRecycle recycling = some y ∧
      y.session.recycleTodo = 1 ∧ y.session.handled = 2 ∧ y.session.stoppedSeen = 3 := by
  have meets : (System.create .statefulRecycle).meets .statefulRecycle System.orderly recycling =
      true := by decide
  refine ⟨meets, _, rfl, rfl, rfl, ?_⟩
  exact (recycleAccounting meets rfl).1.symm

theorem suspensionNotCounted :
    (System.create .statefulRecycle).meets .statefulRecycle System.orderly (recycling.take 11) = true ∧
    ∃ y, (System.create .statefulRecycle).run .statefulRecycle (recycling.take 11) = some y ∧
      y.session.recycleTodo = 0 ∧ y.session.handled = 0 ∧ y.session.stoppedAll = 2 := by
  refine ⟨by decide, _, rfl, rfl, rfl, ?_⟩
  decide

end Examples

end Flexbuild.Dce
