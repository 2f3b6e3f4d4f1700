import Mathlib.Data.BitVec
import Mathlib.Tactic.Common

/-! Parity checks over the bits of a word. A check is the exclusive or of the bits at the places of a mask, and
a syndrome the exclusive or of the indices of the bits that are set, so each bit of it is a check. -/
namespace Flexbuild.ParityChecks

variable {w n k : Nat} {mask mask' f g : Nat → Bool} {index index' : Nat → BitVec w}

def check (mask f : Nat → Bool) : Nat → Bool
  | 0 => false
  | n + 1 => check mask f n ^^ (mask n && f n)

def syndrome (index : Nat → BitVec w) (f : Nat → Bool) : Nat → BitVec w
  | 0 => 0
  | n + 1 => syndrome index f n ^^^ (if f n then index n else 0)

def flipped (f : Nat → Bool) (k : Nat) : Nat → Bool := fun i => if i = k then !f i else f i

section Checks

theorem checkSucc : check mask f (n + 1) = (check mask f n ^^ (mask n && f n)) := rfl

theorem checkCongr (same : ∀ i, i < n → (mask i && f i) = (mask' i && g i)) : check mask f n = check mask' g n := by
  induction n with
  | zero => rfl
  | succ n ih => rw [checkSucc, checkSucc, ih fun i inside => same i (by omega), same n (by omega)]

theorem checkNone (none : ∀ i, i < n → (mask i && f i) = false) : check mask f n = false := by
  induction n with
  | zero => rfl
  | succ n ih => rw [checkSucc, ih fun i inside => none i (by omega), none n (by omega), Bool.xor_false]

theorem checkMasks : check (fun i => mask i ^^ mask' i) f n = (check mask f n ^^ check mask' f n) := by
  induction n with
  | zero => rfl
  | succ n ih =>
    rw [checkSucc, checkSucc, checkSucc, ih]
    cases mask n <;> cases mask' n <;> cases f n <;> simp

theorem checkWords : check mask (fun i => f i ^^ g i) n = (check mask f n ^^ check mask g n) := by
  induction n with
  | zero => rfl
  | succ n ih =>
    rw [checkSucc, checkSucc, checkSucc, ih]
    cases mask n <;> cases f n <;> cases g n <;> simp

theorem checkPlace (inside : k < n) : check (fun i => decide (i = k)) f n = f k := by
  induction n with
  | zero => omega
  | succ n ih =>
    rw [checkSucc]
    by_cases last : k = n
    · subst last
      rw [checkNone]
      · simp
      · intro i below
        have other : i ≠ k := by omega
        simp [other]
    · have other : n ≠ k := fun equal => last equal.symm
      rw [ih (by omega)]
      simp [other]

theorem flipWords (f : Nat → Bool) (k : Nat) : flipped f k = fun i => f i ^^ decide (i = k) := by
  funext i
  unfold flipped
  split <;> simp [*]

theorem checkFlip (inside : k < n) : check mask (flipped f k) n = (check mask f n ^^ mask k) := by
  have place : check mask (fun i => decide (i = k)) n = check (fun i => decide (i = k)) mask n :=
    checkCongr fun i _ => Bool.and_comm _ _
  rw [flipWords, checkWords, place, checkPlace inside]

def placed : List Nat → Nat → Bool
  | [], _ => false
  | k :: l, i => decide (i = k) ^^ placed l i

theorem placedOnce {l : List Nat} (distinct : l.Nodup) (i : Nat) : placed l i = decide (i ∈ l) := by
  induction l with
  | nil => rfl
  | cons k l ih =>
    obtain ⟨fresh, rest⟩ := List.nodup_cons.mp distinct
    rw [placed, ih rest]
    by_cases here : i = k
    · simp [here, fresh]
    · simp [here]

theorem foldPlaces (l : List Nat) (inside : ∀ k ∈ l, k < n) (p : Bool) :
    l.foldl (fun p i => p ^^ f i) p = (p ^^ check (placed l) f n) := by
  induction l generalizing p with
  | nil =>
    rw [checkNone fun _ _ => rfl, Bool.xor_false]
    rfl
  | cons k l ih =>
    have masks : check (placed (k :: l)) f n = (f k ^^ check (placed l) f n) := by
      rw [← checkPlace (f := f) (inside k List.mem_cons_self), ← checkMasks]
      rfl
    rw [List.foldl_cons, ih (fun i member => inside i (List.mem_cons_of_mem k member)), masks, Bool.xor_assoc]

end Checks

section Syndromes

theorem syndromeBit (b : Nat) : (syndrome index f n).getLsbD b = check (fun i => (index i).getLsbD b) f n := by
  induction n with
  | zero => exact BitVec.getLsbD_zero
  | succ n ih =>
    rw [syndrome, BitVec.getLsbD_xor, ih, checkSucc]
    cases f n <;> simp

theorem syndromeZero : syndrome index f n = 0 ↔ ∀ b, b < w → check (fun i => (index i).getLsbD b) f n = false := by
  constructor
  · intro zero b _
    rw [← syndromeBit, zero]
    exact BitVec.getLsbD_zero
  · intro all
    apply BitVec.eq_of_getLsbD_eq
    intro b inside
    rw [syndromeBit, all b inside]
    exact BitVec.getLsbD_zero.symm

theorem syndromeFlip (inside : k < n) : syndrome index (flipped f k) n = syndrome index f n ^^^ index k := by
  apply BitVec.eq_of_getLsbD_eq
  intro b _
  rw [BitVec.getLsbD_xor, syndromeBit, syndromeBit, checkFlip inside]

theorem syndromeCongr (same : ∀ i, i < n → f i = g i) : syndrome index f n = syndrome index g n := by
  induction n with
  | zero => rfl
  | succ n ih => rw [syndrome, syndrome, ih fun i inside => same i (by omega), same n (by omega)]

theorem foldBoth (f : Nat → Bool) (n : Nat) :
    (List.range n).foldl (fun (acc : Bool × BitVec w) i => if f i then (!acc.1, acc.2 ^^^ index i) else acc) (false, 0) =
      (check (fun _ => true) f n, syndrome index f n) := by
  induction n with
  | zero => rfl
  | succ n ih =>
    rw [List.range_succ, List.foldl_append, ih, List.foldl_cons, List.foldl_nil, checkSucc, syndrome]
    cases f n <;> simp

end Syndromes
end Flexbuild.ParityChecks
