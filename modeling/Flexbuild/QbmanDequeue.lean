import Mathlib.Logic.Function.Basic
import Mathlib.Data.List.Infix
import Flexbuild.QbmanEnqueue

/-! The dequeue ring of a QBMan software portal. The hardware fills slots in ring order and
flips the valid bit of the entries on each lap; software takes an entry as new when its
bit has the polarity of the lap software is in, and hands slots back in any order. -/
namespace Flexbuild.Qbman

def qmanRev4100 : Nat := 0x04010000
def qbmanResponseVerbMask : Nat := 0x7f
def qbmanResultDq : Nat := 0x60
def qbmanDqStatVolatile : Nat := 0x02
def qbmanDqStatExpired : Nat := 0x01
def qmanDqrrPiMask : Nat := 0xf

variable {T : Type}

structure Result (T : Type) where
  verb : Nat
  stat : Nat
  body : T
  deriving DecidableEq, Repr

structure Dqrr where
  nextIdx : Nat
  validBit : Nat
  dqrrSize : Nat
  resetBug : Bool
  deriving DecidableEq, Repr

def Dqrr.init (qmanVersion : Nat) : Dqrr :=
  if qmanVersion &&& 0xFFFF0000 < qmanRev4100 then ⟨0, qbValidBit, 4, true⟩
  else ⟨0, qbValidBit, 8, false⟩

def cenaSwpDqrr (base n : Nat) : Nat := base + 0x200 + n <<< 6

def idxFromDqrr (p : Nat) : Nat := (p &&& 0x1ff) >>> 6

structure Software where
  dqrr : Dqrr
  busy : Int
  deriving DecidableEq, Repr

-- The part of `qbman_swp_dqrr_next` before the ring is looked at; `dqpi` is the register.
def Dqrr.workaround (q : Dqrr) (dqpi : Nat) : Option Dqrr :=
  if q.resetBug then
    if dqpi &&& qmanDqrrPiMask = q.nextIdx then none
    else some { q with resetBug := if q.nextIdx = q.dqrrSize - 1 then false else true }
  else some q

def Dqrr.advance (q : Dqrr) : Dqrr :=
  if q.nextIdx + 1 = q.dqrrSize then
    { q with nextIdx := 0, validBit := q.validBit ^^^ qbValidBit }
  else { q with nextIdx := q.nextIdx + 1 }

def Result.endsVolatile (p : Result T) : Bool :=
  decide (p.verb &&& qbmanResponseVerbMask = qbmanResultDq ∧
    p.stat &&& qbmanDqStatVolatile ≠ 0 ∧ p.stat &&& qbmanDqStatExpired ≠ 0)

def qbmanSwpDqrrNext (ring : Nat → Result T) (dqpi : Nat) (s : Software) :
    Option (Nat × Result T) × Software :=
  match s.dqrr.workaround dqpi with
  | none => (none, s)
  | some q =>
      let p := ring q.nextIdx
      if p.verb &&& qbValidBit ≠ q.validBit then (none, { s with dqrr := q })
      else
        (some (q.nextIdx, p),
          ⟨q.advance, if p.endsVolatile then s.busy + 1 else s.busy⟩)

structure Dequeue (T : Type) where
  base : Nat
  software : Software
  ring : Nat → Result T
  -- Slots whose entry the hardware still counts as not consumed, and among them those
  -- software has been given.
  held : Nat → Bool
  out : Nat → Bool
  produced : List (Result T)
  results : List (Result T)

def lapBit (n : Nat) : Nat := if n / 8 % 2 = 0 then qbValidBit else 0

def Dequeue.stamp (s : Dequeue T) (r : Result T) : Result T :=
  { r with verb := (r.verb &&& qbmanResponseVerbMask) ||| lapBit s.produced.length }

inductive Event (T : Type) where
  | write (r : Result T)
  | next (dqpi : Nat)
  | consume (slot : Nat)
  deriving DecidableEq, Repr

-- The hardware writes no slot that is still held; software consumes only what it was given.
def Dequeue.step (s : Dequeue T) : Event T → Option (Dequeue T)
  | .write r =>
      let slot := s.produced.length % 8
      if s.held slot then none
      else some { s with
        ring := Function.update s.ring slot (s.stamp r)
        held := Function.update s.held slot true
        produced := s.produced ++ [s.stamp r] }
  | .next dqpi =>
      match qbmanSwpDqrrNext s.ring dqpi s.software with
      | (none, software) => some { s with software := software }
      | (some (slot, p), software) => some { s with
          software := software
          out := Function.update s.out slot true
          results := s.results ++ [p] }
  | .consume slot =>
      if s.out slot then some { s with
        held := Function.update s.held (idxFromDqrr (cenaSwpDqrr s.base slot)) false
        out := Function.update s.out slot false }
      else none

def Dequeue.run (s : Dequeue T) : List (Event T) → Option (Dequeue T)
  | [] => some s
  | a :: rest => (s.step a).bind (fun s => s.run rest)

def Dequeue.init (base qmanVersion : Nat) (ring : Nat → Result T) : Dequeue T where
  base := base
  software := ⟨Dqrr.init qmanVersion, 1⟩
  ring := ring
  held := fun _ => false
  out := fun _ => false
  produced := []
  results := []

structure Dequeue.Ok (s : Dequeue T) : Prop where
  aligned : s.base % 0x200 = 0
  size : s.software.dqrr.dqrrSize = 8 ∧ s.software.dqrr.resetBug = false
  nextIdx : s.software.dqrr.nextIdx = s.results.length % 8
  validBit : s.software.dqrr.validBit = lapBit s.results.length
  returned : s.results <+: s.produced
  near : s.produced.length ≤ s.results.length + 8
  slots : ∀ k, (lt : k < s.produced.length) → s.produced.length ≤ k + 8 →
    s.ring (k % 8) = s.produced[k]
  empty : ∀ k, s.produced.length ≤ k → k < 8 → (s.ring k).verb &&& qbValidBit = 0
  stamped : ∀ k, (lt : k < s.produced.length) →
    s.produced[k].verb &&& qbValidBit = lapBit k
  waiting : ∀ k, s.results.length ≤ k → k < s.produced.length →
    s.held (k % 8) = true ∧ s.out (k % 8) = false
  out : ∀ slot, s.out slot = true → slot < 8 ∧ s.held slot = true

section Steps

theorem idxFromAddress {base n : Nat} (aligned : base % 0x200 = 0) (small : n < 8) :
    idxFromDqrr (cenaSwpDqrr base n) = n := by
  unfold idxFromDqrr cenaSwpDqrr
  rw [show 0x1ff = 2 ^ 9 - 1 from rfl, Nat.and_two_pow_sub_one_eq_mod, Nat.shiftLeft_eq,
    Nat.shiftRight_eq_div_pow]
  omega

theorem lapBitNext (n : Nat) : lapBit (n + 8) ≠ lapBit n := by
  unfold lapBit qbValidBit
  split <;> split <;> omega

theorem lapBitStep (n : Nat) : lapBit (n + 1) =
    if n % 8 + 1 = 8 then lapBit n ^^^ qbValidBit else lapBit n := by
  by_cases last : n % 8 + 1 = 8
  · rw [if_pos last]
    unfold lapBit
    rcases Nat.mod_two_eq_zero_or_one (n / 8) with even | odd
    · rw [if_neg (by omega), if_pos even]
      decide
    · rw [if_pos (by omega), if_neg (by omega)]
      decide
  · rw [if_neg last]
    unfold lapBit
    congr 2
    have : (n + 1) / 8 = n / 8 := by omega
    rw [this]

variable {s : Dequeue T}

theorem stampValid (s : Dequeue T) (r : Result T) :
    (s.stamp r).verb &&& qbValidBit = lapBit s.produced.length := by
  have bit : lapBit s.produced.length = 0 ∨ lapBit s.produced.length = qbValidBit := by
    unfold lapBit
    split
    · exact .inr rfl
    · exact .inl rfl
  refine validBitOr ?_ bit
  rw [Nat.testBit_and, show qbmanResponseVerbMask.testBit 7 = false from by decide, Bool.and_false]

variable {s' : Dequeue T}

theorem writeOk (ok : s.Ok) {r : Result T} (done : s.step (.write r) = some s') : s'.Ok := by
  unfold Dequeue.step at done
  dsimp only at done
  split at done
  · cases done
  · rename_i free
    cases done
    have near := ok.near
    have room : s.produced.length < s.results.length + 8 := by
      by_contra full
      have same : s.results.length % 8 = s.produced.length % 8 := by omega
      have held := (ok.waiting s.results.length (le_refl _) (by omega)).1
      rw [same] at held
      exact free held
    refine ⟨ok.aligned, ok.size, ok.nextIdx, ok.validBit, ok.returned.trans (List.prefix_append _ _), ?_,
      ?_, ?_, ?_, ?_, ?_⟩
    · simp only [List.length_append, List.length_singleton]
      omega
    · intro k lt recent
      simp only [List.length_append, List.length_singleton] at lt recent
      rcases Nat.lt_or_ge k s.produced.length with old | new
      · simp only
        rw [Function.update_of_ne (by omega), List.getElem_append_left old]
        exact ok.slots k old (by omega)
      · have last : k = s.produced.length := by omega
        subst last
        simp
    · intro k beyond below
      simp only [List.length_append, List.length_singleton] at beyond
      simp only
      rw [Function.update_of_ne (by omega)]
      exact ok.empty k (by omega) below
    · intro k lt
      simp only [List.length_append, List.length_singleton] at lt
      simp only
      rcases Nat.lt_or_ge k s.produced.length with old | new
      · rw [List.getElem_append_left old]
        exact ok.stamped k old
      · have last : k = s.produced.length := by omega
        subst last
        simp only [List.getElem_concat_length]
        exact stampValid s r
    · intro k from_ lt
      simp only [List.length_append, List.length_singleton] at from_ lt
      simp only
      rcases Nat.lt_or_ge k s.produced.length with old | new
      · rw [Function.update_of_ne (by omega)]
        exact ok.waiting k from_ old
      · have last : k = s.produced.length := by omega
        subst last
        rw [Function.update_self]
        refine ⟨rfl, ?_⟩
        by_contra given
        have := (ok.out _ (by simpa using given)).2
        exact free this
    · intro slot given
      simp only at given ⊢
      obtain ⟨small, held⟩ := ok.out slot given
      refine ⟨small, ?_⟩
      by_cases same : slot = s.produced.length % 8
      · rw [same, Function.update_self]
      · rw [Function.update_of_ne same]
        exact held

theorem nextCases (ok : s.Ok) (dqpi : Nat) :
    (∃ lt : s.results.length < s.produced.length, ∃ software,
      qbmanSwpDqrrNext s.ring dqpi s.software =
        (some (s.results.length % 8, s.produced[s.results.length]), software) ∧
      software.dqrr.nextIdx = (s.results.length + 1) % 8 ∧
      software.dqrr.validBit = lapBit (s.results.length + 1) ∧
      software.dqrr.dqrrSize = 8 ∧ software.dqrr.resetBug = false) ∨
    (s.results.length = s.produced.length ∧
      qbmanSwpDqrrNext s.ring dqpi s.software = (none, s.software)) := by
  have near := ok.near
  have start : s.software.dqrr.workaround dqpi = some s.software.dqrr := by
    unfold Dqrr.workaround
    rw [ok.size.2]
    rfl
  unfold qbmanSwpDqrrNext
  simp only [start, ok.nextIdx, ok.validBit]
  rcases Nat.lt_or_ge s.results.length s.produced.length with some_ | none
  · refine .inl ⟨some_, ?_⟩
    have entry := ok.slots s.results.length some_ near
    rw [entry, if_neg (not_not_intro (ok.stamped _ some_))]
    refine ⟨_, rfl, ?_⟩
    have advanced : s.software.dqrr.advance = if s.results.length % 8 + 1 = 8 then
        ⟨0, lapBit s.results.length ^^^ qbValidBit, 8, false⟩
      else ⟨s.results.length % 8 + 1, lapBit s.results.length, 8, false⟩ := by
      unfold Dqrr.advance
      rw [ok.size.1, ok.size.2, ok.nextIdx, ok.validBit]
    dsimp only
    rw [advanced, lapBitStep]
    split
    · exact ⟨by dsimp only; omega, rfl, rfl, rfl⟩
    · exact ⟨by dsimp only; omega, rfl, rfl, rfl⟩
  · have all : s.results.length = s.produced.length := le_antisymm ok.returned.length_le none
    refine .inr ⟨all, if_pos ?_⟩
    rcases Nat.lt_or_ge s.results.length 8 with first | later
    · rw [Nat.mod_eq_of_lt first, ok.empty _ (by omega) first]
      unfold lapBit qbValidBit
      rw [if_pos (by omega)]
      decide
    · have slot : s.results.length % 8 = (s.results.length - 8) % 8 := by omega
      rw [slot, ok.slots (s.results.length - 8) (by omega) (by omega), ok.stamped]
      have other := lapBitNext (s.results.length - 8)
      rw [Nat.sub_add_cancel later] at other
      exact other.symm

theorem nextOk (ok : s.Ok) {dqpi : Nat} (done : s.step (.next dqpi) = some s') : s'.Ok := by
  unfold Dequeue.step at done
  rcases nextCases ok dqpi with ⟨lt, software, answer, nextIdx, validBit, size, noBug⟩ | ⟨_, answer⟩
  · simp only [answer] at done
    cases done
    refine ⟨ok.aligned, ⟨size, noBug⟩, ?_, ?_, ?_, ?_, ok.slots, ok.empty, ok.stamped, ?_, ?_⟩
    · simpa using nextIdx
    · simpa using validBit
    · obtain ⟨rest, all⟩ := ok.returned
      simp only [← all]
      rw [List.prefix_append_right_inj]
      simp only [← all] at lt
      rw [List.length_append] at lt
      cases rest with
      | nil => simp at lt
      | cons first rest => simp
    · have := ok.near
      simp only [List.length_append, List.length_singleton]
      omega
    · intro k from_ below
      simp only [List.length_append, List.length_singleton] at from_
      simp only
      have := ok.near
      obtain ⟨held, out⟩ := ok.waiting k (by omega) below
      refine ⟨held, ?_⟩
      rw [Function.update_of_ne (by simp only at below; omega)]
      exact out
    · intro slot given
      simp only at given ⊢
      by_cases same : slot = s.results.length % 8
      · rw [same]
        exact ⟨Nat.mod_lt _ (by decide), (ok.waiting _ (le_refl _) lt).1⟩
      · rw [Function.update_of_ne same] at given
        exact ok.out slot given
  · simp only [answer] at done
    cases done
    exact ok

theorem consumeOk (ok : s.Ok) {slot : Nat} (done : s.step (.consume slot) = some s') : s'.Ok := by
  unfold Dequeue.step at done
  dsimp only at done
  split at done
  · rename_i given
    cases done
    obtain ⟨small, held⟩ := ok.out slot given
    rw [idxFromAddress ok.aligned small]
    refine ⟨ok.aligned, ok.size, ok.nextIdx, ok.validBit, ok.returned, ok.near, ok.slots, ok.empty,
      ok.stamped, ?_, ?_⟩
    · intro k from_ below
      obtain ⟨held, out⟩ := ok.waiting k from_ below
      have other : k % 8 ≠ slot := by
        rintro rfl
        rw [out] at given
        cases given
      simp only
      rw [Function.update_of_ne other, Function.update_of_ne other]
      exact ⟨held, out⟩
    · intro other out
      simp only at out ⊢
      by_cases same : other = slot
      · rw [same, Function.update_self] at out
        cases out
      · rw [Function.update_of_ne same] at out ⊢
        exact ok.out other out
  · cases done

theorem initDequeueOk {base qmanVersion : Nat} {ring : Nat → Result T} (aligned : base % 0x200 = 0)
    (fixed : ¬ qmanVersion &&& 0xFFFF0000 < qmanRev4100)
    (clear : ∀ slot, (ring slot).verb &&& qbValidBit = 0) :
    (Dequeue.init base qmanVersion ring).Ok := by
  have dqrr : Dqrr.init qmanVersion = ⟨0, qbValidBit, 8, false⟩ := if_neg fixed
  refine ⟨aligned, ?_, ?_, ?_, List.prefix_refl _, Nat.zero_le _, ?_, fun k _ _ => clear k, ?_, ?_, ?_⟩
  · simp [Dequeue.init, dqrr]
  · simp [Dequeue.init, dqrr]
  · simp [Dequeue.init, dqrr, lapBit]
  · intro k lt
    exact absurd lt (Nat.not_lt_zero k)
  · intro k lt
    exact absurd lt (Nat.not_lt_zero k)
  · intro k _ lt
    exact absurd lt (Nat.not_lt_zero k)
  · intro slot given
    cases given

theorem dequeueRunOk (ok : s.Ok) {events : List (Event T)} (ran : s.run events = some s') : s'.Ok := by
  induction events generalizing s with
  | nil =>
    cases ran
    exact ok
  | cons a rest ih =>
    simp only [Dequeue.run, Option.bind_eq_some_iff] at ran
    obtain ⟨between, first, later⟩ := ran
    refine ih ?_ later
    cases a with
    | write r => exact writeOk ok first
    | next dqpi => exact nextOk ok first
    | consume slot => exact consumeOk ok first

end Steps

theorem entriesOnceInOrder {base qmanVersion : Nat} {ring : Nat → Result T}
    (aligned : base % 0x200 = 0) (fixed : ¬ qmanVersion &&& 0xFFFF0000 < qmanRev4100)
    (clear : ∀ slot, (ring slot).verb &&& qbValidBit = 0) {events : List (Event T)} {s : Dequeue T}
    (ran : (Dequeue.init base qmanVersion ring).run events = some s) :
    s.results <+: s.produced ∧
    ∀ dqpi, (qbmanSwpDqrrNext s.ring dqpi s.software).1 = none → s.results = s.produced := by
  have ok := dequeueRunOk (initDequeueOk aligned fixed clear) ran
  refine ⟨ok.returned, ?_⟩
  intro dqpi nothing
  rcases nextCases ok dqpi with ⟨_, _, answer, _⟩ | ⟨all, _⟩
  · rw [answer] at nothing
    cases nothing
  · exact ok.returned.eq_of_length all

def nineWrites : List (Event Nat) :=
  (List.range 8).map (fun n => .write ⟨0x60, 0, n⟩) ++
    [.next 0, .next 0, .consume 1, .consume 0, .write ⟨0x60, 0, 8⟩, .next 0]

theorem entriesOnceInOrderLap : ∃ s, (Dequeue.init 0x10000 0x04010000 (fun _ => ⟨0, 0, 0⟩)).run nineWrites =
    some s ∧ s.results.map Result.body = [0, 1, 2] ∧ s.results <+: s.produced := by
  obtain ⟨s, ran⟩ := Option.isSome_iff_exists.mp (by decide :
    ((Dequeue.init 0x10000 0x04010000 (fun _ => ⟨0, 0, 0⟩)).run nineWrites).isSome = true)
  have bodies : ((Dequeue.init 0x10000 0x04010000 (fun _ => ⟨0, 0, 0⟩)).run nineWrites).map
      (fun s => s.results.map Result.body) = some [0, 1, 2] := by decide
  rw [ran] at bodies
  exact ⟨s, ran, Option.some.inj bodies,
    (entriesOnceInOrder (by decide) (by decide) (fun _ => by decide) ran).1⟩

end Flexbuild.Qbman
