import Flexbuild.GroLossless

/-! The timer of a context. While the context has no other timer than the one it names, a frame
that it keeps will leave it, a task that runs confirms its own timer, and an empty context can
open an aggregation again. -/
namespace Flexbuild.TcpAggregation

structure Alive (s : System) : Prop where
  timed : s.ctx.segNum ≠ 0 → s.owed = false →
    s.timers.state s.ctx.timerHandle = .running ∨ s.ctx.timerHandle ∈ s.timers.tasks
  clear : s.ctx.segNum = 0 → s.timers.tasks = [] → s.ctx.internalFlags = 0
  own : ∀ c ∈ s.confirmed, c.2 = c.1

def KeepsTimer (s : System) : Event → Prop
  | .aggregate limits _ segment a =>
    (Opens s.ctx limits segment ∧ a.created ≠ none → s.timers.state s.ctx.timerHandle = .free ∧ a.stored = true) ∧
    (segment.error = false ∧ s.ctx.segNum ≠ 0 ∧ ¬ Joins s.ctx segment ∧ (a.stored = false ∨ ¬ flushes limits segment) →
      s.timers.state s.ctx.timerHandle = .running) ∧
    (Joins s.ctx segment ∧ a.concatenated = true ∧ s.ctx.segNum = 0xffff#16 →
      Closes s.ctx segment ∧ s.timers.state s.ctx.timerHandle = .running)
  | _ => True

instance (s : System) : (e : Event) → Decidable (KeepsTimer s e)
  | .aggregate _ _ _ _ => inferInstanceAs (Decidable (_ ∧ _ ∧ _))
  | .flush _ => isTrue trivial
  | .expire _ => isTrue trivial
  | .timeout _ _ => isTrue trivial

structure Single (timers : Timers) (handle : BitVec 32) : Prop where
  known : ∀ h, timers.state h ≠ .free → h = handle
  masked : ∀ h, timers.state h ≠ .free → h &&& timerHandleMask = h
  tasked : ∀ h, timers.state h = .expired ↔ h ∈ timers.tasks
  once : timers.tasks.Nodup

structure Timed (s : System) : Prop where
  single : Single s.timers s.ctx.timerHandle
  timed : s.ctx.segNum ≠ 0 → s.owed = false → s.timers.state s.ctx.timerHandle ≠ .free
  clear : s.ctx.segNum = 0 → s.ctx.internalFlags = 0
  own : ∀ c ∈ s.confirmed, c.2 = c.1

namespace Timers
variable {timers : Timers} {h handle : BitVec 32} {state : TimerState}

theorem stateSame : (timers.set handle state).state handle = state := by
  simp [set]

theorem stateOther (other : h ≠ handle) : (timers.set handle state).state h = timers.state h := by
  simp [set, other]

end Timers

namespace Single
variable {timers : Timers} {handle handle' h : BitVec 32}

theorem allFree (single : Single timers handle) (free : timers.state handle = .free) : ∀ h, timers.state h = .free := by
  intro h
  by_contra live
  exact live (single.known h live ▸ free)

theorem ofFree (free : ∀ h, timers.state h = .free) (none : timers.tasks = []) : Single timers handle where
  known := fun h live => absurd (free h) live
  masked := fun h live => absurd (free h) live
  tasked := fun h => by simp [free, none]
  once := none ▸ List.nodup_nil

theorem noTasks (single : Single timers handle) (quiet : timers.state handle ≠ .expired) : timers.tasks = [] := by
  refine List.eq_nil_iff_forall_not_mem.mpr fun h member => quiet ?_
  have expired := (single.tasked h).mpr member
  exact single.known h (by simp [expired]) ▸ expired

theorem deleted (single : Single timers handle) (running : timers.state handle = .running) :
    (∀ h, (timers.set handle .free).state h = .free) ∧ (timers.set handle .free).tasks = [] := by
  refine ⟨fun h => ?_, single.noTasks (by simp [running])⟩
  by_cases same : h = handle
  · rw [same, Timers.stateSame]
  · rw [Timers.stateOther same]
    by_contra live
    exact same (single.known h live)

theorem created (free : ∀ h, timers.state h = .free) (none : timers.tasks = []) (masked : handle &&& timerHandleMask = handle) :
    Single (timers.set handle .running) handle := by
  have live (h : BitVec 32) (busy : (timers.set handle .running).state h ≠ .free) : h = handle := by
    by_contra other
    exact busy ((Timers.stateOther other).trans (free h))
  refine ⟨live, fun h busy => live h busy ▸ masked, fun h => ⟨fun expired => ?_, fun member => ?_⟩, ?_⟩
  · have same := live h (by simp [expired])
    rw [same, Timers.stateSame] at expired
    cases expired
  · exact absurd (none ▸ member : h ∈ ([] : List (BitVec 32))) List.not_mem_nil
  · exact none ▸ List.nodup_nil

theorem expired (single : Single timers handle) (running : timers.state h = .running) :
    Single { timers.set h .expired with tasks := timers.tasks ++ [h] } handle := by
  have same : h = handle := single.known h (by simp [running])
  have none : timers.tasks = [] := single.noTasks (by simp [← same, running])
  have live (g : BitVec 32) (busy : (timers.set h .expired).state g ≠ .free) : g = h := by
    by_contra other
    rw [Timers.stateOther other] at busy
    exact other ((single.known g busy).trans same.symm)
  refine ⟨fun g busy => (live g busy).trans same, fun g busy => ?_, fun g => ?_, ?_⟩
  · rw [live g busy]
    exact single.masked h (by simp [running])
  · rw [none, List.nil_append, List.mem_singleton]
    refine ⟨fun (expired : (timers.set h .expired).state g = .expired) => live g (by simp [expired]), fun same => ?_⟩
    rw [same]
    exact Timers.stateSame
  · simp [none]

theorem confirmed (single : Single timers handle) (member : h ∈ timers.tasks) :
    h = handle ∧ h &&& timerHandleMask = h ∧
      (∀ g, (({ timers with tasks := timers.tasks.erase h } : Timers).tmanTimerCompletionConfirmation handle).state g = .free) ∧
      (({ timers with tasks := timers.tasks.erase h } : Timers).tmanTimerCompletionConfirmation handle).tasks = [] := by
  have expired := (single.tasked h).mpr member
  have same : h = handle := single.known h (by simp [expired])
  have result : ({ timers with tasks := timers.tasks.erase h } : Timers).tmanTimerCompletionConfirmation handle =
      ({ timers with tasks := timers.tasks.erase h } : Timers).set handle .free := if_pos (same ▸ expired)
  rw [result]
  refine ⟨same, single.masked h (by simp [expired]), fun g => ?_, ?_⟩
  · by_cases own : g = handle
    · rw [own, Timers.stateSame]
    · rw [Timers.stateOther own]
      by_contra live
      exact own (single.known g live)
  · refine List.eq_nil_iff_forall_not_mem.mpr fun g inside => ?_
    obtain ⟨other, member⟩ := (single.once.mem_erase_iff).mp inside
    have live := (single.tasked g).mpr member
    exact other ((single.known g (by simp [live])).trans same.symm)

theorem invalidFree (single : Single timers handle) : timers.state invalidTmanHandle = .free := by
  by_contra live
  exact absurd (single.masked _ live) (by decide)

end Single

namespace Timed
variable {s s' : System}

theorem alive (timed : Timed s) : Alive s where
  timed := fun some due => by
    have live := timed.timed some due
    cases state : s.timers.state s.ctx.timerHandle with
    | free => exact absurd state live
    | running => exact .inl rfl
    | expired => exact .inr ((timed.single.tasked _).mp state)
  clear := fun empty _ => timed.clear empty
  own := timed.own

theorem zeroed : Timed zeroed where
  single := .ofFree (fun _ => rfl) rfl
  timed := fun some => absurd rfl some
  clear := fun _ => rfl
  own := fun _ member => absurd member List.not_mem_nil

theorem closing {limits : Limits} {arrival : Arrival} {a : Answers} {o : Outcome} (timed : Timed s)
    (deletable : a.stored = false ∨ ¬ flushes limits arrival.segment → s.timers.state s.ctx.timerHandle = .running)
    (closing : Closing s.ctx s.timers limits arrival a o) :
    Single o.timers o.ctx.timerHandle ∧
      (o.ctx.segNum ≠ 0 → asksForFlush o.status = false → o.timers.state o.ctx.timerHandle ≠ .free) ∧
      (o.ctx.segNum = 0 → o.ctx.internalFlags = 0) := by
  cases closing with
  | flush stored alone one kept set timer =>
    refine ⟨?_, fun _ quiet => (by cases quiet), fun empty => absurd (one ▸ empty) (by decide)⟩
    obtain ⟨running, rfl, handle⟩ | ⟨expired, rfl, handle⟩ := timer
    · obtain ⟨free, none⟩ := timed.single.deleted running
      exact .ofFree free none
    · rw [handle]
      exact timed.single
  | discard failed empty timer =>
    have running := deletable (.inl failed)
    obtain ⟨_, rfl, handle, clear⟩ | ⟨expired, _⟩ := timer
    · obtain ⟨free, none⟩ := timed.single.deleted running
      exact ⟨.ofFree free none, fun some => absurd empty some, fun _ => clear⟩
    · rw [running] at expired
      cases expired
  | timerless stored open' one kept next handle timer =>
    have running := deletable (.inr open')
    obtain ⟨_, rfl⟩ | ⟨expired, _⟩ := timer
    · obtain ⟨free, none⟩ := timed.single.deleted running
      exact ⟨.ofFree free none, fun _ quiet => (by cases quiet), fun empty => absurd (one ▸ empty) (by decide)⟩
    · rw [running] at expired
      cases expired
  | reopen stored open' one kept next timer fresh named =>
    have running := deletable (.inr open')
    obtain ⟨_, rfl⟩ | ⟨expired, _⟩ := timer
    · obtain ⟨free, none⟩ := timed.single.deleted running
      refine ⟨named.symm ▸ .created free none fresh.2, fun _ _ => ?_, fun empty => absurd (one ▸ empty) (by decide)⟩
      rw [named, Timers.stateSame]
      decide
    · rw [running] at expired
      cases expired

theorem aggregating {limits : Limits} {arrival : Arrival} {a : Answers} {o : Outcome} {flags : BitVec 32} (timed : Timed s)
    (keeps : KeepsTimer s (.aggregate limits flags arrival.segment a))
    (aggregating : Aggregating s.ctx s.timers limits arrival a o) :
    Single o.timers o.ctx.timerHandle ∧
      (o.ctx.segNum ≠ 0 → s.owed = false → asksForFlush o.status = false → o.timers.state o.ctx.timerHandle ≠ .free) ∧
      (o.ctx.segNum = 0 → o.ctx.internalFlags = 0) := by
  obtain ⟨opening, replacing, counting⟩ := keeps
  have live (some : s.ctx.segNum ≠ 0) (due : s.owed = false) := timed.timed some due
  cases aggregating with
  | handedBack quiet timer =>
    obtain rfl | ⟨opens, created, failed⟩ := timer
    · exact ⟨timed.single, fun some due _ => live some due, timed.clear⟩
    · rw [(opening ⟨opens, created⟩).2] at failed
      cases failed
  | opened opens created stored fresh one kept next named =>
    have free := timed.single.allFree (opening ⟨opens, by simp [created]⟩).1
    have none := timed.single.noTasks (by simp [free])
    refine ⟨named.symm ▸ .created free none fresh.2, fun _ _ _ => ?_, fun empty => absurd (one ▸ empty) (by decide)⟩
    rw [named, Timers.stateSame]
    decide
  | closing sound some apart closing =>
    obtain ⟨single, live, clear⟩ := timed.closing (fun replaced => replacing ⟨sound, some, apart, replaced⟩) closing
    exact ⟨single, fun some _ quiet => live some quiet, clear⟩
  | closed joins closes running empty clear handle =>
    obtain ⟨free, none⟩ := timed.single.deleted running
    exact ⟨.ofFree free none, fun some => absurd empty some, fun _ => clear⟩
  | late joins closes expired count kept last flags handle =>
    refine ⟨handle ▸ timed.single, fun _ _ _ => by simp [handle, expired], fun empty => ?_⟩
    rw [count] at empty
    split at empty
    next done =>
      have full : s.ctx.segNum = 0xffff#16 := by
        by_contra room
        exact countKept room empty
      have running := (counting ⟨joins, done, full⟩).2
      rw [expired] at running
      cases running
    · exact absurd empty joins.2.1
  | added joins stays =>
    cases done : a.concatenated with
    | true =>
      rw [addSegJoined done]
      refine ⟨timed.single, fun _ due _ => live joins.2.1 due, fun empty => ?_⟩
      have full : s.ctx.segNum = 0xffff#16 := by
        by_contra room
        exact countKept room empty
      exact absurd (counting ⟨joins, done, full⟩).1 stays
    | false =>
      cases stored : a.stored with
      | true =>
        rw [addSegCut done stored]
        exact ⟨timed.single, fun _ due _ => live joins.2.1 due, fun empty => absurd empty joins.2.1⟩
      | false =>
        rw [addSegLost done stored]
        exact ⟨timed.single, fun some => absurd rfl some, fun _ => rfl⟩

theorem aggregate {limits : Limits} {flags : BitVec 32} {segment : Segment} {a : Answers} (timed : Timed s)
    (keeps : KeepsTimer s (.aggregate limits flags segment a))
    (done : step s (.aggregate limits flags segment a) = some s') : Timed s' := by
  obtain ⟨o, called, rfl⟩ := Option.map_eq_some_iff.mp done
  obtain ⟨single, live, clear⟩ :=
    @aggregating s limits ⟨s.arrived.length, segment⟩ a o flags timed keeps (aggregateCases called)
  refine ⟨single, fun some due => ?_, clear, timed.own⟩
  obtain ⟨before, now⟩ := Bool.or_eq_false_iff.mp due
  exact live some before now

theorem flush {checksum : List ByteMemory.Byte → BitVec 16} (timed : Timed s)
    (done : step s (.flush checksum) = some s') : Timed s' := by
  obtain ⟨o, called, rfl⟩ := Option.map_eq_some_iff.mp done
  cases flushCases called with
  | nothing empty => exact ⟨timed.single, fun some => absurd empty some, timed.clear, timed.own⟩
  | late some expired =>
    exact ⟨timed.single, fun _ _ => by simp [expired], fun empty => absurd empty some, timed.own⟩
  | out some frame timer =>
    obtain ⟨invalid, rfl⟩ | ⟨running, rfl⟩ := timer
    · have free : s.timers.state s.ctx.timerHandle = .free := by
        rw [invalid]
        exact timed.single.invalidFree
      have none := timed.single.noTasks (by simp [free])
      exact ⟨.ofFree (timed.single.allFree free) none, fun nonzero => absurd rfl nonzero, fun _ => rfl, timed.own⟩
    · obtain ⟨free, none⟩ := timed.single.deleted running
      exact ⟨.ofFree free none, fun nonzero => absurd rfl nonzero, fun _ => rfl, timed.own⟩

theorem timeout {handle : BitVec 32} {checksum : List ByteMemory.Byte → BitVec 16} (timed : Timed s)
    (done : step s (.timeout handle checksum) = some s') : Timed s' := by
  simp only [TcpAggregation.step] at done
  split at done
  next member =>
    cases done
    obtain ⟨same, masked, free, none⟩ := timed.single.confirmed member
    have own : ∀ c ∈ s.confirmed ++ [(handle, s.ctx.timerHandle)], c.2 = c.1 := by
      intro c inside
      obtain before | now := List.mem_append.mp inside
      · exact timed.own c before
      · cases List.mem_singleton.mp now
        exact same.symm
    obtain ⟨result, stale⟩ | ⟨result, _, some⟩ := @callbackCases s.ctx
      { s.timers with tasks := s.timers.tasks.erase handle } checksum handle
    · have empty : s.ctx.segNum = 0 := stale.resolve_left fun other => other (by rw [masked, same])
      rw [result]
      exact ⟨.ofFree free none, fun some => absurd empty some, timed.clear, own⟩
    · rw [result]
      exact ⟨.ofFree free none, fun nonzero => absurd rfl nonzero, fun _ => rfl, own⟩
  · cases done

theorem step {e : Event} (timed : Timed s) (keeps : KeepsTimer s e) (done : step s e = some s') : Timed s' := by
  cases e with
  | aggregate limits flags segment a => exact timed.aggregate keeps done
  | flush checksum => exact timed.flush done
  | expire handle =>
    simp only [TcpAggregation.step] at done
    split at done
    next running =>
      cases done
      refine ⟨timed.single.expired running, fun some due => ?_, timed.clear, timed.own⟩
      have same := timed.single.known handle (by simp [running])
      simp [Timers.set, ← same]
    · cases done
  | timeout handle checksum => exact timed.timeout done

end Timed
theorem contextAlive {es : List Event} {s : System} (keeps : Along KeepsTimer zeroed es) (played : play zeroed es = some s) :
    Alive s :=
  (playInvariant (fun _ _ _ timed keeps done => timed.step keeps done) Timed.zeroed keeps played).alive

theorem contextAliveExample : ∃ s, play zeroed exampleEvents = some s ∧ s.confirmed = [(2, 2)] ∧ Alive s := by
  have once : (play zeroed exampleEvents).map System.confirmed = some [(2, 2)] := by decide
  obtain ⟨s, played, confirmed⟩ := Option.map_eq_some_iff.mp once
  have keeps : Along KeepsTimer zeroed exampleEvents :=
    @of_decide_eq_true _ (decideAlong (fun _ _ => inferInstance) zeroed exampleEvents) (by decide)
  exact ⟨s, played, confirmed, contextAlive keeps played⟩

def stuckEvents : List Event :=
  [exampleAggregate 100 0 1 (some 1), .expire 1,
    .aggregate ⟨1000, 10⟩ 0 (exampleSegment 150 0 2) { exampleAnswers none with stored := false },
    .timeout 1 fun _ => 0]

theorem flagLeftBehind : ∃ s, play zeroed stuckEvents = some s ∧ s.ctx.segNum = 0 ∧ s.timers.tasks = [] ∧
    s.ctx.internalFlags = groAggTimerInProcess ∧ ¬ Alive s := by
  have left : (play zeroed stuckEvents).map (fun s => (s.ctx.segNum, s.timers.tasks, s.ctx.internalFlags)) =
      some (0, [], groAggTimerInProcess) := by decide
  obtain ⟨s, played, state⟩ := Option.map_eq_some_iff.mp left
  obtain ⟨empty, rest⟩ := Prod.mk.inj state
  obtain ⟨none, flags⟩ := Prod.mk.inj rest
  refine ⟨s, played, empty, none, flags, fun alive => ?_⟩
  have clear := alive.clear empty none
  rw [flags] at clear
  exact absurd clear (by decide)

end Flexbuild.TcpAggregation
