import Mathlib.Logic.Function.Basic
import Mathlib.Data.Nat.ModEq
import Flexbuild.Words

/-! Rings with one producer and one consumer. The indices are `w`-bit counters that are never
reset, the ring has `2 ^ k` slots with `k < w`, and a slot is the low `k` bits of a counter.
Each side decides on a copy of the two counters: its own is exact, the other may have moved
since. -/
namespace Flexbuild.Rings
open Words

structure Queue (β : Type) where
  enq : Nat
  deq : Nat
  slots : Nat → β

variable {β : Type} {w k : Nat}

def index (k n : Nat) : Nat := n &&& (2 ^ k - 1)

def Queue.contents (w k : Nat) (ring : Queue β) : List β :=
  (List.range (minus w ring.enq ring.deq)).map
    (fun j => ring.slots (index k (wrap w (ring.deq + j))))

def Queue.write (k : Nat) (ring : Queue β) (at_ : Nat) (v : β) : Queue β :=
  { ring with slots := Function.update ring.slots (index k at_) v }

structure Holds (w k : Nat) (ring : Queue β) (vs : List β) : Prop where
  small : ring.deq < 2 ^ w
  enq : ring.enq = wrap w (ring.deq + vs.length)
  fits : vs.length ≤ 2 ^ k
  slots : ∀ j, (lt : j < vs.length) → ring.slots (index k (wrap w (ring.deq + j))) = vs[j]

theorem powLt (narrow : k < w) : 2 ^ k < 2 ^ w := Nat.pow_lt_pow_right (by omega) narrow

theorem indexWrap (narrow : k < w) (n : Nat) : index k (wrap w n) = n % 2 ^ k := by
  unfold index wrap
  rw [Nat.and_two_pow_sub_one_eq_mod, Nat.mod_mod_of_dvd _ (Nat.pow_dvd_pow 2 (by omega))]

theorem indexInjective (narrow : k < w) {d i j : Nat} (hi : i < 2 ^ k) (hj : j < 2 ^ k)
    (same : index k (wrap w (d + i)) = index k (wrap w (d + j))) : i = j := by
  rw [indexWrap narrow, indexWrap narrow] at same
  have cancel : i ≡ j [MOD 2 ^ k] := Nat.ModEq.add_left_cancel' d same
  rwa [Nat.ModEq, Nat.mod_eq_of_lt hi, Nat.mod_eq_of_lt hj] at cancel

theorem minusWrap {d n : Nat} (small : d < 2 ^ w) (fits : n < 2 ^ w) :
    minus w (wrap w (d + n)) d = n := by
  unfold minus wrap
  rw [Nat.mod_eq_of_lt small]
  rcases Nat.lt_or_ge (d + n) (2 ^ w) with below | above
  · rw [Nat.mod_eq_of_lt below]
    have split : d + n + (2 ^ w - d) = n + 2 ^ w := by omega
    rw [split, Nat.add_mod_right, Nat.mod_eq_of_lt fits]
  · have reduced : (d + n) % 2 ^ w = d + n - 2 ^ w := by
      rw [Nat.mod_eq_sub_mod above, Nat.mod_eq_of_lt (by omega)]
    rw [reduced]
    have split : d + n - 2 ^ w + (2 ^ w - d) = n := by omega
    rw [split, Nat.mod_eq_of_lt fits]

section Queue

variable {ring : Queue β} {vs : List β} {v : β}

theorem holdsCount (narrow : k < w) (holds : Holds w k ring vs) :
    minus w ring.enq ring.deq = vs.length := by
  rw [holds.enq]
  exact minusWrap holds.small (Nat.lt_of_le_of_lt holds.fits (powLt narrow))

theorem holdsContents (narrow : k < w) (holds : Holds w k ring vs) : ring.contents w k = vs := by
  unfold Queue.contents
  rw [holdsCount narrow holds]
  apply List.ext_getElem
  · simp
  · intro j _ lt
    rw [List.getElem_map, List.getElem_range]
    exact holds.slots j lt

theorem holdsHead (holds : Holds w k ring (v :: vs)) : ring.slots (index k ring.deq) = v := by
  have first := holds.slots 0 (Nat.zero_lt_succ _)
  rwa [Nat.add_zero, wrapSmall holds.small] at first

theorem holdsWrite (narrow : k < w) (holds : Holds w k ring vs) (room : vs.length < 2 ^ k) :
    Holds w k (ring.write k ring.enq v) vs ∧
      (ring.write k ring.enq v).slots (index k ring.enq) = v := by
  refine ⟨⟨holds.small, holds.enq, holds.fits, ?_⟩, Function.update_self ..⟩
  intro j lt
  have apart : index k (wrap w (ring.deq + j)) ≠ index k ring.enq := by
    rw [holds.enq]
    intro same
    have := indexInjective narrow (lt.trans room) room same
    omega
  simp only [Queue.write]
  rw [Function.update_of_ne apart]
  exact holds.slots j lt

theorem wrapSucc (n : Nat) : wrap w (wrap w n + 1) = wrap w (n + 1) := by
  simp [wrap]

theorem holdsEnqueue (holds : Holds w k ring vs) (room : vs.length < 2 ^ k)
    (written : ring.slots (index k ring.enq) = v) :
    Holds w k { ring with enq := wrap w (ring.enq + 1) } (vs ++ [v]) := by
  refine ⟨holds.small, ?_, by rw [List.length_append]; exact room, ?_⟩
  · simp only [holds.enq, wrapSucc, List.length_append, List.length_singleton, Nat.add_assoc]
  · intro j lt
    rcases Nat.lt_or_ge j vs.length with old | last
    · rw [List.getElem_append_left old]
      exact holds.slots j old
    · have eq : j = vs.length := by
        simp at lt
        omega
      subst eq
      simp only [List.getElem_concat_length]
      rw [← written, holds.enq]

theorem holdsDequeue (holds : Holds w k ring (v :: vs)) :
    Holds w k { ring with deq := wrap w (ring.deq + 1) } vs := by
  have shift : ∀ n, wrap w (wrap w (ring.deq + 1) + n) = wrap w (ring.deq + (n + 1)) := by
    intro n
    simp only [wrap, Nat.mod_add_mod]
    congr 1
    omega
  have fits := holds.fits
  rw [List.length_cons] at fits
  refine ⟨wrapLt _ _, ?_, by omega, ?_⟩
  · simp only [holds.enq, List.length_cons, shift]
  · intro j lt
    simp only [shift]
    exact holds.slots (j + 1) (Nat.succ_lt_succ lt)

end Queue

structure Producer (w k : Nat) (ring : Queue β) (vs : List β) (enq deq : Nat) : Prop where
  own : enq = ring.enq
  ahead : vs.length ≤ minus w enq deq
  count : ∃ n, n ≤ 2 ^ k ∧ deq < 2 ^ w ∧ enq = wrap w (deq + n)

structure Consumer (w k : Nat) (ring : Queue β) (vs : List β) (enq deq : Nat) : Prop where
  own : deq = ring.deq
  behind : minus w enq deq ≤ vs.length
  count : ∃ n, n ≤ 2 ^ k ∧ deq < 2 ^ w ∧ enq = wrap w (deq + n)

section Copies

variable {ring : Queue β} {vs : List β} {v : β} {enq deq : Nat}

theorem producerCopy (narrow : k < w) (holds : Holds w k ring vs) :
    Producer w k ring vs ring.enq ring.deq :=
  ⟨rfl, (holdsCount narrow holds).ge, vs.length, holds.fits, holds.small, holds.enq⟩

theorem consumerCopy (narrow : k < w) (holds : Holds w k ring vs) :
    Consumer w k ring vs ring.enq ring.deq :=
  ⟨rfl, (holdsCount narrow holds).le, vs.length, holds.fits, holds.small, holds.enq⟩

theorem copyCount (narrow : k < w) {n : Nat} (fits : n ≤ 2 ^ k) (small : deq < 2 ^ w)
    (eq : enq = wrap w (deq + n)) : minus w enq deq = n := by
  rw [eq]
  exact minusWrap small (Nat.lt_of_le_of_lt fits (powLt narrow))

theorem producerRoom (narrow : k < w) (copy : Producer w k ring vs enq deq)
    (open_ : minus w enq deq ≠ 2 ^ k) : vs.length < 2 ^ k := by
  obtain ⟨n, fits, small, eq⟩ := copy.count
  have ahead := copy.ahead
  rw [copyCount narrow fits small eq] at ahead open_
  omega

theorem consumerNonempty (copy : Consumer w k ring vs enq deq) (some_ : minus w enq deq ≠ 0) :
    ∃ v rest, vs = v :: rest := by
  have behind := copy.behind
  cases vs with
  | nil =>
    simp only [List.length_nil] at behind
    omega
  | cons v rest => exact ⟨v, rest, rfl⟩

theorem producerPut (narrow : k < w) (copy : Producer w k ring vs enq deq)
    (open_ : minus w enq deq ≠ 2 ^ k) :
    Producer w k { ring with enq := wrap w (enq + 1) } (vs ++ [v]) (wrap w (enq + 1)) deq := by
  obtain ⟨n, fits, small, eq⟩ := copy.count
  have ahead := copy.ahead
  rw [copyCount narrow fits small eq] at ahead open_
  have next : wrap w (enq + 1) = wrap w (deq + (n + 1)) := by
    rw [eq, wrapSucc, Nat.add_assoc]
  refine ⟨rfl, ?_, n + 1, by omega, small, next⟩
  rw [copyCount narrow (by omega : n + 1 ≤ 2 ^ k) small next, List.length_append,
    List.length_singleton]
  omega

theorem consumerTake (narrow : k < w) (copy : Consumer w k ring (v :: vs) enq deq)
    (some_ : minus w enq deq ≠ 0) :
    Consumer w k { ring with deq := wrap w (deq + 1) } vs enq (wrap w (deq + 1)) := by
  obtain ⟨n, fits, small, eq⟩ := copy.count
  have behind := copy.behind
  rw [copyCount narrow fits small eq] at behind some_
  rw [List.length_cons] at behind
  have next : enq = wrap w (wrap w (deq + 1) + (n - 1)) := by
    rw [eq]
    simp only [wrap, Nat.mod_add_mod]
    congr 1
    omega
  refine ⟨rfl, ?_, n - 1, by omega, wrapLt _ _, next⟩
  rw [copyCount narrow (by omega : n - 1 ≤ 2 ^ k) (wrapLt _ _) next]
  omega

theorem producerStable {other : Queue β} {rest : List β} (copy : Producer w k ring vs enq deq)
    (same : other.enq = ring.enq) (fewer : rest.length ≤ vs.length) :
    Producer w k other rest enq deq :=
  ⟨copy.own.trans same.symm, fewer.trans copy.ahead, copy.count⟩

theorem consumerStable {other : Queue β} {more : List β} (copy : Consumer w k ring vs enq deq)
    (same : other.deq = ring.deq) (grown : vs.length ≤ more.length) :
    Consumer w k other more enq deq :=
  ⟨copy.own.trans same.symm, copy.behind.trans grown, copy.count⟩

end Copies

end Flexbuild.Rings
