import Mathlib.Data.List.Range
import Mathlib.Data.List.InsertIdx
import Mathlib.Data.List.Perm.Basic
import Mathlib.Tactic.Common
import Flexbuild.JobRing

/-! The accounts of the job ring over every run: what is in the rings, in the engine and removed
adds up to what was accepted, no slot is written before it was read, and what a poll returns
tells of every entry that it removed. -/
namespace Flexbuild.JobRing
open RingHistories State

variable {c : Config} {s s' : State} {call : Call} {rest : List OutringEntry} {entry : OutringEntry} {n : Int}

def callbacksOf (handled : List (OutringEntry × Bool)) : List (Nat × Word) :=
  (handled.filter Prod.snd).map fun h => (h.1.desc, h.1.status)

structure Handled (call : Call) (rest : List OutringEntry) (n : Int) : Prop where
  removed : call.removed = call.handled.map Prod.fst ++ rest
  sound : ∀ h ∈ call.handled, h.1.status = 0
  called : call.callbacks.map (fun b => (b.desc, b.status)) = callbacksOf call.handled
  count : n = call.handled.length

def Reported (call : Call) (result : Int) : Prop :=
  (0 ≤ result ∧ Handled call [] result ∧ call.removed.length = result) ∨
    (result = -1 ∧ (call = .start ∨ ∃ entry n, Handled call [entry] n ∧ entry.status ≠ 0))

structure Accounted (c : Config) (s : State) : Prop where
  pidx : s.pidx < c.size
  cidx : s.cidx < c.size
  ordered : s.removed.length ≤ s.accepted.length
  count : (s.pidx + c.size - s.cidx) % c.size = s.accepted.length - s.removed.length
  most : s.accepted.length - s.removed.length ≤ c.size - 1
  unread : Stands c.size s.inputRing s.accepted s.sec.taken
  unremoved : Stands c.size s.outputRing (s.sec.finished.map Prod.snd) s.removed.length
  removed : s.removed = (s.sec.finished.take s.removed.length).map Prod.snd
  once : ((s.sec.finished.take s.removed.length).map Prod.fst).Nodup
  genuine : ∀ p ∈ s.sec.finished, s.accepted[p.1]? = some p.2.desc
  returned : ∀ r ∈ s.returned, Reported r.1 r.2

def Phase.pending : Phase → Nat
  | .advanced .. => 1
  | _ => 0

structure Books (c : Config) (s : State) : Prop where
  pidx : s.pidx = s.accepted.length % c.size
  cidx : s.cidx = s.removed.length % c.size
  irri : s.sec.irri = s.sec.taken % c.size
  orwi : s.sec.orwi = s.sec.finished.length % c.size
  added : s.sec.added + s.sec.taken = s.accepted.length
  inside : s.sec.finished.length + s.sec.inside.length = s.sec.taken
  full : s.sec.orsf + s.removed.length = s.sec.finished.length + s.phase.pending
  told : s.phase.pending ≤ s.removed.length
  behind : s.removed.length ≤ s.sec.finished.length
  room : s.accepted.length < s.removed.length + c.size
  unread : Stands c.size s.inputRing s.accepted s.sec.taken
  unremoved : Stands c.size s.outputRing (s.sec.finished.map Prod.snd) s.removed.length
  removed : s.removed = (s.sec.finished.take s.removed.length).map Prod.snd
  places : (s.sec.finished.map Prod.fst ++ s.sec.inside.map Prod.fst).Perm (List.range s.sec.taken)
  working : ∀ p ∈ s.sec.inside, s.accepted[p.1]? = some p.2
  genuine : ∀ p ∈ s.sec.finished, s.accepted[p.1]? = some p.2.desc
  nonzero : ∀ desc ∈ s.accepted, desc ≠ 0

def Stage (phase : Phase) (current : Call) (waiting : Int) (here : OutringEntry) : Prop :=
  match phase with
  | .idle | .polling .. | .checked .. => current = .start
  | .looping _ _ batch => Handled current [] batch.notified ∧ batch.jobsToNotify - batch.notified ≤ waiting
  | .read _ _ batch entry => Handled current [] batch.notified ∧ batch.notified < batch.jobsToNotify ∧
      batch.jobsToNotify - batch.notified ≤ waiting ∧ here = entry
  | .advanced _ _ batch entry => Handled current [entry] batch.notified ∧
      batch.jobsToNotify - (batch.notified + 1) ≤ waiting
  | .signalled _ _ batch entry => Handled current [entry] (batch.notified - 1) ∧ entry.status = 0 ∧
      batch.jobsToNotify - batch.notified ≤ waiting

def Underway (s : State) : Prop :=
  Stage s.phase s.current (s.sec.finished.length - s.removed.length) (s.outputRing s.cidx)

theorem stageLater {phase : Phase} {current : Call} {waiting more : Int} {here there : OutringEntry}
    (stage : Stage phase current waiting here) (le : waiting ≤ more) (same : 0 < waiting → there = here) :
    Stage phase current more there := by
  cases phase with
  | idle | polling | checked => exact stage
  | looping limit round batch => exact ⟨stage.1, stage.2.trans le⟩
  | read limit round batch entry =>
    obtain ⟨handled, open_, left, at_⟩ := stage
    exact ⟨handled, open_, left.trans le, (same (by omega)).trans at_⟩
  | advanced limit round batch entry => exact ⟨stage.1, stage.2.trans le⟩
  | signalled limit round batch entry => exact ⟨stage.1, stage.2.1, stage.2.2.trans le⟩

structure Inv (c : Config) (s : State) : Prop where
  books : Books c s
  underway : Underway s
  returned : ∀ r ∈ s.returned, Reported r.1 r.2

theorem sizePositive (c : Config) : 0 < c.size := Nat.two_pow_pos _

theorem Inv.accounted (inv : Inv c s) : Accounted c s := by
  obtain ⟨books, -, returned⟩ := inv
  have room := books.room
  have ordered : s.removed.length ≤ s.accepted.length := by
    have := books.behind
    have := books.inside
    have := books.added
    omega
  refine ⟨?_, ?_, ordered, ?_, by omega, books.unread, books.unremoved, books.removed, ?_, books.genuine, returned⟩
  · rw [books.pidx]
    exact Nat.mod_lt _ (sizePositive c)
  · rw [books.cidx]
    exact Nat.mod_lt _ (sizePositive c)
  · rw [books.pidx, books.cidx]
    exact reducedDistance ordered room
  · rw [List.map_take]
    have distinct := (List.nodup_append.1 (books.places.nodup_iff.2 List.nodup_range)).1
    exact distinct.sublist (List.take_sublist _ _)

theorem startInv (memory : Nat → Nat) (jrint : Word) : Inv c (.initJobRing memory jrint) := by
  refine ⟨⟨?_, ?_, ?_, ?_, rfl, rfl, rfl, Nat.le_refl 0, Nat.le_refl 0, ?_, standsStart _ _, standsStart _ _, rfl, ?_,
    ?_, ?_, ?_⟩, rfl, ?_⟩
  · exact (Nat.zero_mod _).symm
  · exact (Nat.zero_mod _).symm
  · exact (Nat.zero_mod _).symm
  · exact (Nat.zero_mod _).symm
  · exact (Nat.zero_add _).symm ▸ sizePositive c
  · exact List.Perm.refl _
  all_goals exact fun _ member => absurd member List.not_mem_nil

theorem getElemGrows {α : Type} {l : List α} {i : Nat} {a b : α} (found : l[i]? = some a) : (l ++ [b])[i]? = some a := by
  rw [List.getElem?_append_left (List.getElem?_eq_some_iff.1 found).1]
  exact found

theorem enqueueKeeps {jobdescr : Nat} (inv : Inv c s) : Inv c (s.enqJrDesc c jobdescr).2 := by
  obtain ⟨books, underway, returned⟩ := inv
  unfold enqJrDesc
  split
  · exact ⟨books, underway, returned⟩
  · split
    · exact ⟨books, underway, returned⟩
    · split
      · exact ⟨books, underway, returned⟩
      · next open_ =>
        have ordered : s.removed.length ≤ s.accepted.length := by
          have := books.behind
          have := books.inside
          have := books.added
          omega
        have space : s.accepted.length + 1 ≠ s.removed.length + c.size := fun full => open_ (by
          rw [secJobRingIsFull, books.pidx, books.cidx]
          exact (reducedFull ordered books.room).2 full)
        have room := books.room
        refine ⟨⟨?_, books.cidx, books.irri, books.orwi, ?_, books.inside, books.full, books.told, books.behind, ?_, ?_,
          books.unremoved, books.removed, books.places, ?_, ?_, ?_⟩, underway, returned⟩
        · change secCircularCounter s.pidx c.size = (s.accepted ++ [descOf jobdescr]).length % c.size
          rw [books.pidx, List.length_append]
          exact reducedNext c.sizeLog _
        · change s.sec.added + 1 + s.sec.taken = (s.accepted ++ [descOf jobdescr]).length
          rw [List.length_append, List.length_singleton, ← books.added]
          omega
        · change (s.accepted ++ [descOf jobdescr]).length < s.removed.length + c.size
          rw [List.length_append, List.length_singleton]
          omega
        · change Stands c.size (Function.update s.inputRing s.pidx (descOf jobdescr)) (s.accepted ++ [descOf jobdescr])
            s.sec.taken
          have := books.behind
          have := books.inside
          rw [books.pidx]
          exact standsPut books.unread (by omega)
        · exact fun p member => getElemGrows (books.working p member)
        · exact fun p member => getElemGrows (books.genuine p member)
        · intro desc member
          rcases List.mem_append.1 member with old | new
          · exact books.nonzero desc old
          · rw [List.mem_singleton.1 new, descOf]
            omega

theorem takeKeeps (inv : Inv c s) (done : s.take c = some s') : Inv c s' := by
  obtain ⟨books, underway, returned⟩ := inv
  unfold State.take at done
  split at done
  · cases done
  · next some_ =>
    cases done
    have added := books.added
    have inside := books.inside
    have below : s.sec.taken < s.accepted.length := by omega
    have job : s.inputRing s.sec.irri = s.accepted[s.sec.taken] := by
      rw [books.irri]
      exact books.unread s.sec.taken le_rfl below
    refine ⟨⟨books.pidx, books.cidx, ?_, books.orwi, ?_, ?_, books.full, books.told, books.behind, books.room,
      standsLater books.unread (Nat.le_succ _), books.unremoved, books.removed, ?_, ?_, books.genuine, books.nonzero⟩,
      underway, returned⟩
    · change (s.sec.irri + 1) % c.size = (s.sec.taken + 1) % c.size
      rw [books.irri, Nat.mod_add_mod]
    · change s.sec.added - 1 + (s.sec.taken + 1) = s.accepted.length
      omega
    · change s.sec.finished.length + (s.sec.inside ++ [(s.sec.taken, s.inputRing s.sec.irri)]).length = s.sec.taken + 1
      rw [List.length_append, List.length_singleton]
      omega
    · change (s.sec.finished.map Prod.fst ++ (s.sec.inside ++ [(s.sec.taken, s.inputRing s.sec.irri)]).map Prod.fst).Perm
        (List.range (s.sec.taken + 1))
      rw [List.map_append, ← List.append_assoc, List.range_succ]
      exact books.places.append (List.Perm.refl _)
    · intro p member
      rcases List.mem_append.1 member with old | new
      · exact books.working p old
      · rw [List.mem_singleton.1 new, job]
        exact List.getElem?_eq_getElem below

theorem movedPerm {α : Type} {l r : List α} {i : Nat} {a : α} (found : r[i]? = some a) :
    ((l ++ [a]) ++ r.eraseIdx i).Perm (l ++ r) := by
  obtain ⟨lt, rfl⟩ := List.getElem?_eq_some_iff.1 found
  rw [List.append_assoc]
  exact (List.getElem_cons_eraseIdx_perm lt).append_left l

theorem finishKeeps {i : Nat} {status : Word} (inv : Inv c s) (done : s.finish c i status = some s') : Inv c s' := by
  obtain ⟨books, underway, returned⟩ := inv
  unfold State.finish at done
  split at done
  · cases done
  · next place desc found =>
    cases done
    have lt := (List.getElem?_eq_some_iff.1 found).1
    have member := List.mem_of_getElem? found
    have added := books.added
    have inside := books.inside
    have full := books.full
    have behind := books.behind
    have room := books.room
    refine ⟨⟨books.pidx, books.cidx, books.irri, ?_, books.added, ?_, ?_, books.told, ?_, books.room, books.unread, ?_, ?_,
      ?_, ?_, ?_, books.nonzero⟩, ?_, returned⟩
    · change (s.sec.orwi + 1) % c.size = (s.sec.finished ++ [(place, OutringEntry.mk desc status)]).length % c.size
      rw [books.orwi, Nat.mod_add_mod, List.length_append, List.length_singleton]
    · change (s.sec.finished ++ [(place, OutringEntry.mk desc status)]).length + (s.sec.inside.eraseIdx i).length = s.sec.taken
      rw [List.length_append, List.length_singleton, List.length_eraseIdx_of_lt lt]
      omega
    · change s.sec.orsf + 1 + s.removed.length = (s.sec.finished ++ [(place, OutringEntry.mk desc status)]).length + s.phase.pending
      rw [List.length_append, List.length_singleton]
      omega
    · change s.removed.length ≤ (s.sec.finished ++ [(place, OutringEntry.mk desc status)]).length
      rw [List.length_append, List.length_singleton]
      omega
    · change Stands c.size (Function.update s.outputRing s.sec.orwi (OutringEntry.mk desc status))
        ((s.sec.finished ++ [(place, OutringEntry.mk desc status)]).map Prod.snd) s.removed.length
      have put := standsPut (v := OutringEntry.mk desc status) books.unremoved (by rw [List.length_map]; omega)
      rw [List.length_map, ← books.orwi] at put
      rw [List.map_append]
      exact put
    · change s.removed = ((s.sec.finished ++ [(place, OutringEntry.mk desc status)]).take s.removed.length).map Prod.snd
      rw [List.take_append_of_le_length behind]
      exact books.removed
    · change ((s.sec.finished ++ [(place, OutringEntry.mk desc status)]).map Prod.fst ++ (s.sec.inside.eraseIdx i).map Prod.fst).Perm
        (List.range s.sec.taken)
      rw [List.map_append, ← List.eraseIdx_map]
      have atPlace : (s.sec.inside.map Prod.fst)[i]? = some place := by rw [List.getElem?_map, found]; rfl
      exact (movedPerm atPlace).trans books.places
    · exact fun p rest => books.working p (List.mem_of_mem_eraseIdx rest)
    · intro p finished
      rcases List.mem_append.1 finished with old | new
      · exact books.genuine p old
      · rw [List.mem_singleton.1 new]
        exact books.working _ member
    · refine stageLater underway ?_ fun waiting => ?_
      · change (s.sec.finished.length : Int) - s.removed.length ≤
          (s.sec.finished ++ [(place, OutringEntry.mk desc status)]).length - s.removed.length
        rw [List.length_append, List.length_singleton]
        omega
      · refine Function.update_of_ne (fun same => ?_) _ _
        rw [books.cidx, books.orwi] at same
        have := slotApart behind (by omega) same
        omega

theorem booksMoved {phase : Phase} {current : Call} {returned : List (Call × Int)} {orsf : Nat} (books : Books c s)
    (same : returned.flatMap (fun r => r.1.removed) ++ current.removed = s.removed)
    (full : orsf + s.removed.length = s.sec.finished.length + phase.pending) (told : phase.pending ≤ s.removed.length) :
    Books c { s with phase, current, returned, sec := { s.sec with orsf } } := by
  have removed : ({ s with phase, current, returned, sec := { s.sec with orsf } } : State).removed = s.removed := same
  refine ⟨books.pidx, ?_, books.irri, books.orwi, books.added, books.inside, ?_, ?_, ?_, ?_, books.unread, ?_, ?_,
    books.places, books.working, books.genuine, books.nonzero⟩
  all_goals rw [removed]
  · exact books.cidx
  · exact full
  · exact told
  · exact books.behind
  · exact books.room
  · exact books.unremoved
  · exact books.removed

theorem returnsKeeps {orsf : Nat} {result : Int} (books : Books c s) (returned : ∀ r ∈ s.returned, Reported r.1 r.2)
    (full : orsf + s.removed.length = s.sec.finished.length) (reported : Reported s.current result) :
    Inv c (({ s with sec := { s.sec with orsf } } : State).returns result) := by
  refine ⟨@booksMoved c s .idle .start _ orsf books ?_ full (Nat.zero_le _), rfl, fun r member => ?_⟩
  · rw [List.flatMap_append, List.flatMap_singleton]
    exact List.append_nil _
  · rcases List.mem_append.1 member with old | new
    · exact returned r old
    · rw [List.mem_singleton.1 new]
      exact reported

theorem handledStart : Handled .start [] 0 := ⟨rfl, fun _ member => absurd member List.not_mem_nil, rfl, rfl⟩

theorem handledNone (handled : Handled call [] 0) : call = .start := by
  obtain ⟨removed, -, called, count⟩ := handled
  have none_ : call.handled = [] := List.eq_nil_of_length_eq_zero (by omega)
  rw [none_] at removed called
  have silent : call.callbacks = [] := List.map_eq_nil_iff.1 called
  cases call
  cases removed
  cases none_
  cases silent
  rfl

variable {limit : Int} {round : Nat}

theorem polledKeeps {expired : Bool} (inv : Inv c s) (quiet : s.phase.pending = 0)
    (handled : Handled s.current [] n) : Inv c (s.polled c expired limit round n) := by
  obtain ⟨books, -, returned⟩ := inv
  have full := books.full
  rw [quiet] at full
  have count := handled.count
  unfold polled
  dsimp only
  generalize (if c.timer then expired else decide (round + 1 = 100)) = stop
  split
  · refine returnsKeeps books returned full (Or.inl ⟨by omega, handled, ?_⟩)
    rw [handled.removed, count, List.append_nil, List.length_map]
  · next zero =>
    rw [not_not.1 (not_or.1 zero).1] at handled
    exact ⟨booksMoved books rfl full (Nat.zero_le _), handledNone handled, returned⟩

theorem dequeueKeeps (inv : Inv c s) (idle : s.phase = .idle) : Inv c (s.dequeueJr c limit) := by
  obtain ⟨books, underway, returned⟩ := inv
  have full := books.full
  unfold Underway at underway
  rw [idle] at full underway
  have refused : Inv c (s.returns (-1)) := returnsKeeps books returned full (Or.inr ⟨rfl, Or.inl underway⟩)
  unfold dequeueJr
  split
  · exact refused
  · split
    · exact refused
    · exact ⟨booksMoved books rfl full (Nat.zero_le _), underway, returned⟩

theorem pollingKeeps (inv : Inv c s) (phase : s.phase = .polling limit round) :
    Inv c (s.returns (-1)) ∧ Inv c { s with phase := .checked limit round } := by
  obtain ⟨books, underway, returned⟩ := inv
  have full := books.full
  unfold Underway at underway
  rw [phase] at full underway
  exact ⟨returnsKeeps books returned full (Or.inr ⟨rfl, Or.inl underway⟩),
    booksMoved books rfl full (Nat.zero_le _), underway, returned⟩

theorem checkedKeeps {jobs : Int} (inv : Inv c s) (phase : s.phase = .checked limit round)
    (le : jobs ≤ s.sec.orsf) : Inv c { s with phase := .looping limit round ⟨jobs, 0⟩ } := by
  obtain ⟨books, underway, returned⟩ := inv
  have full := books.full
  unfold Underway at underway
  rw [phase] at full underway
  refine ⟨booksMoved books rfl full (Nat.zero_le _), ?_, returned⟩
  have start : s.current = .start := underway
  have waiting : jobs - 0 ≤ (s.sec.finished.length : Int) - s.removed.length := by
    change s.sec.orsf + s.removed.length = s.sec.finished.length at full
    omega
  refine ⟨?_, waiting⟩
  change Handled s.current [] 0
  rw [start]
  exact handledStart

variable {batch : Batch}

theorem loopingKeeps (inv : Inv c s)
    (phase : s.phase = .looping limit round batch) (more : batch.jobsToNotify > batch.notified) :
    Inv c { s with phase := .read limit round batch (s.outputRing s.cidx) } := by
  obtain ⟨books, underway, returned⟩ := inv
  have full := books.full
  unfold Underway at underway
  rw [phase] at full underway
  exact ⟨booksMoved books rfl full (Nat.zero_le _), ⟨underway.1, more, underway.2, rfl⟩, returned⟩

theorem readKeeps (inv : Inv c s)
    (phase : s.phase = .read limit round batch entry) : entry.desc ≠ 0 ∧ Inv c { s with
      cidx := secCircularCounter s.cidx c.size
      phase := .advanced limit round batch entry
      current := { s.current with removed := s.current.removed ++ [entry] } } := by
  obtain ⟨books, underway, returned⟩ := inv
  have full := books.full
  unfold Underway at underway
  rw [phase] at full underway
  obtain ⟨handled, more, left, here⟩ := underway
  have waiting : s.removed.length < s.sec.finished.length := by omega
  have slot : (s.sec.finished[s.removed.length]).2 = entry := by
    rw [← here, books.cidx, books.unremoved s.removed.length le_rfl (by rwa [List.length_map]), List.getElem_map]
  have genuine := books.genuine _ (List.getElem_mem waiting)
  rw [slot] at genuine
  refine ⟨books.nonzero _ (List.mem_of_getElem? genuine), ?_⟩
  have removed : ({ s with
      cidx := secCircularCounter s.cidx c.size
      phase := .advanced limit round batch entry
      current := { s.current with removed := s.current.removed ++ [entry] } } : State).removed = s.removed ++ [entry] :=
    (List.append_assoc _ _ _).symm
  have length : (s.removed ++ [entry]).length = s.removed.length + 1 := List.length_append
  have room := books.room
  refine ⟨⟨books.pidx, ?_, books.irri, books.orwi, books.added, books.inside, ?_, ?_, ?_, ?_, books.unread, ?_, ?_,
    books.places, books.working, books.genuine, books.nonzero⟩, ?_, returned⟩
  · rw [removed, length]
    change secCircularCounter s.cidx c.size = _
    rw [books.cidx]
    exact reducedNext c.sizeLog _
  · rw [removed, length]
    change s.sec.orsf + (s.removed.length + 1) = s.sec.finished.length + 1
    change s.sec.orsf + s.removed.length = s.sec.finished.length at full
    omega
  · rw [removed, length]
    exact Nat.succ_pos _
  · rw [removed, length]
    exact waiting
  · rw [removed, length]
    change s.accepted.length < s.removed.length + 1 + c.size
    omega
  · rw [removed, length]
    exact standsLater books.unremoved (Nat.le_succ _)
  · rw [removed, length]
    change s.removed ++ [entry] = (s.sec.finished.take (s.removed.length + 1)).map Prod.snd
    rw [List.take_succ_eq_append_getElem waiting, List.map_append, ← books.removed, List.map_singleton, slot]
  · unfold Underway
    rw [removed, length]
    refine ⟨⟨?_, handled.sound, handled.called, handled.count⟩, ?_⟩
    · change s.current.removed ++ [entry] = s.current.handled.map Prod.fst ++ [entry]
      rw [handled.removed, List.append_nil]
    · change batch.jobsToNotify - (batch.notified + 1) ≤ (s.sec.finished.length : Int) - ((s.removed.length + 1 : Nat) : Int)
      omega

theorem advancedKeeps (inv : Inv c s) (phase : s.phase = .advanced limit round batch entry) :
    (entry.status ≠ 0 → Inv c (s.removeEntry.returns (-1))) ∧ (entry.status = 0 → Inv c { s.removeEntry with
      phase := .signalled limit round { batch with notified := batch.notified + 1 } entry }) := by
  obtain ⟨books, underway, returned⟩ := inv
  have full := books.full
  have behind := books.behind
  unfold Underway at underway
  rw [phase] at full underway
  obtain ⟨handled, left⟩ := underway
  change s.sec.orsf + s.removed.length = s.sec.finished.length + 1 at full
  have told : s.sec.orsf - 1 + s.removed.length = s.sec.finished.length := by omega
  refine ⟨fun error => ?_, fun sound => ?_⟩
  · exact returnsKeeps books returned told (Or.inr ⟨rfl, Or.inr ⟨entry, _, handled, error⟩⟩)
  · refine ⟨@booksMoved c s _ _ _ _ books rfl told (Nat.zero_le _), ⟨?_, sound, left⟩, returned⟩
    change Handled s.current [entry] (batch.notified + 1 - 1)
    rw [Int.add_sub_cancel]
    exact handled

theorem callbacksOne (handled : List (OutringEntry × Bool)) (h : OutringEntry × Bool) :
    callbacksOf (handled ++ [h]) = callbacksOf handled ++ if h.2 then [(h.1.desc, h.1.status)] else [] := by
  rw [callbacksOf, List.filter_append, List.map_append]
  congr 1
  cases set : h.2 <;> simp [set]

theorem signalledKeeps {callbacks : List Callback} {called : Bool} (inv : Inv c s)
    (phase : s.phase = .signalled limit round batch entry)
    (matching : callbacks.map (fun b => (b.desc, b.status)) = if called then [(entry.desc, entry.status)] else []) :
    Inv c { s with
      phase := .looping limit round batch
      current := { s.current with
        handled := s.current.handled ++ [(entry, called)]
        callbacks := s.current.callbacks ++ callbacks } } := by
  obtain ⟨books, underway, returned⟩ := inv
  have full := books.full
  unfold Underway at underway
  rw [phase] at full underway
  obtain ⟨handled, sound, left⟩ := underway
  refine ⟨booksMoved books rfl full (Nat.zero_le _), ⟨⟨?_, ?_, ?_, ?_⟩, left⟩, returned⟩
  · change s.current.removed = (s.current.handled ++ [(entry, called)]).map Prod.fst ++ []
    rw [handled.removed, List.map_append, List.append_nil]
    rfl
  · intro h member
    rcases List.mem_append.1 member with old | new
    · exact handled.sound h old
    · rw [List.mem_singleton.1 new]
      exact sound
  · change (s.current.callbacks ++ callbacks).map (fun b => (b.desc, b.status)) =
      callbacksOf (s.current.handled ++ [(entry, called)])
    rw [List.map_append, callbacksOne, handled.called, matching]
  · change batch.notified = ((s.current.handled ++ [(entry, called)]).length : Int)
    have count := handled.count
    rw [List.length_append, List.length_singleton]
    omega

theorem advanceKeeps {expired : Bool} (inv : Inv c s) (done : s.advance c expired = some s') : Inv c s' := by
  unfold State.advance at done
  split at done
  · cases done
  · next phase =>
    have kept := pollingKeeps inv phase
    split at done
    · cases done
      exact kept.1
    · cases done
      exact kept.2
  · next phase =>
    cases done
    refine checkedKeeps inv phase ?_
    split <;> omega
  · next phase =>
    split at done
    · next more =>
      cases done
      exact loopingKeeps inv phase more
    · cases done
      have underway := inv.underway
      unfold Underway at underway
      rw [phase] at underway
      exact polledKeeps inv (by rw [phase]; rfl) underway.1
  · next phase =>
    obtain ⟨nonzero, kept⟩ := readKeeps inv phase
    rw [if_neg nonzero] at done
    cases done
    exact kept
  · next phase =>
    have kept := advancedKeeps inv phase
    split at done
    · next error =>
      cases done
      exact kept.1 error
    · next sound =>
      cases done
      exact kept.2 (not_not.1 sound)
  · next entry phase =>
    cases done
    refine signalledKeeps inv phase ?_
    by_cases set : s.memory (fnptrAddr entry.desc) = 0
    · simp [set]
    · simp [set]

theorem stepKeeps {act : Act} (inv : Inv c s) (done : step c s act = some s') : Inv c s' := by
  cases act with
  | enqueue jobdescr =>
    cases done
    exact enqueueKeeps inv
  | dequeue limit =>
    simp only [step] at done
    split at done
    · next idle =>
      cases done
      exact dequeueKeeps inv idle
    · cases done
  | advance expired => exact advanceKeeps inv done
  | take => exact takeKeeps inv done
  | finish i status => exact finishKeeps inv done
  | interrupt | store =>
    cases done
    obtain ⟨books, underway, returned⟩ := inv
    exact ⟨⟨books.pidx, books.cidx, books.irri, books.orwi, books.added, books.inside, books.full, books.told,
      books.behind, books.room, books.unread, books.unremoved, books.removed, books.places, books.working, books.genuine,
      books.nonzero⟩, underway, returned⟩

theorem reachableInv (reached : Reachable c s) : Inv c s := by
  induction reached with
  | start memory jrint => exact startInv memory jrint
  | step act _ done inv => exact stepKeeps inv done

theorem jobRingAccounted (c : Config) (s : State) (reached : Reachable c s) : Accounted c s :=
  (reachableInv reached).accounted

theorem jobRingAccountedExample : ∃ s, s.removed = [⟨0x2010, 0⟩] ∧ s.sec.finished.length = 2 ∧ Accounted ⟨2, false⟩ s := by
  have reached := Reachable.step (.advance false) (.step (.advance false) (.step (.advance false) (.step (.advance false)
    (.step (.dequeue 1) (.step (.finish 0 3) (.step (.finish 1 0) (.step .take (.step .take (.step (.enqueue 0x2000)
    (.step (.enqueue 0x1000) (.start (c := ⟨2, false⟩) (fun _ => 0) 0) rfl) rfl) rfl) rfl) rfl) rfl) rfl) rfl) rfl) rfl) rfl
  exact ⟨_, rfl, rfl, jobRingAccounted _ _ reached⟩

end Flexbuild.JobRing
