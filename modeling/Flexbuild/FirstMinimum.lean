import Mathlib

/-! The first index below a bound that satisfies a predicate with the least key, as a loop
finds it that keeps the best index so far and replaces it only by a strictly smaller one. -/
namespace Flexbuild.FirstMinimum
variable {κ : Type*} [LinearOrder κ]

section Search

variable (p : Nat → Prop) [DecidablePred p] (key : Nat → κ)

def better (found : Option Nat) (i : Nat) : Option Nat :=
  if p i then
    match found with
    | none => some i
    | some j => if key i < key j then some i else some j
  else found

def firstMin (n : Nat) : Option Nat := (List.range n).foldl (better p key) none

structure IsFirstMin (n j : Nat) : Prop where
  below : j < n
  holds : p j
  least : ∀ i < n, p i → key j ≤ key i
  first : ∀ i < j, p i → key j < key i

end Search

variable {p : Nat → Prop} [DecidablePred p] {key : Nat → κ} {n i j : Nat}

theorem betterSkip {found : Option Nat} (fails : ¬p i) : better p key found i = found := if_neg fails

theorem betterFirst (holds : p i) : better p key none i = some i := if_pos holds

theorem betterSmaller (holds : p i) (smaller : key i < key j) : better p key (some j) i = some i := by
  simp only [better, if_pos holds, if_pos smaller]

theorem betterKept (larger : ¬key i < key j) : better p key (some j) i = some j := by
  simp only [better, if_neg larger, ite_self]

theorem firstMinStep (p : Nat → Prop) [DecidablePred p] (key : Nat → κ) (n : Nat) :
    firstMin p key (n + 1) = better p key (firstMin p key n) n := by
  rw [firstMin, List.range_succ, List.foldl_append]
  rfl

theorem isFirstMinStep (min : IsFirstMin p key n j) :
    ∃ k, better p key (some j) n = some k ∧ IsFirstMin p key (n + 1) k := by
  by_cases holds : p n
  · by_cases smaller : key n < key j
    · refine ⟨n, betterSmaller holds smaller, Nat.lt_succ_self n, holds, ?_, ?_⟩
      · intro i below here
        rcases Nat.lt_succ_iff_lt_or_eq.mp below with before | rfl
        · exact le_of_lt (lt_of_lt_of_le smaller (min.least i before here))
        · exact le_refl _
      · exact fun i before here => lt_of_lt_of_le smaller (min.least i before here)
    · refine ⟨j, betterKept smaller, Nat.lt_succ_of_lt min.below, min.holds, ?_, min.first⟩
      intro i below here
      rcases Nat.lt_succ_iff_lt_or_eq.mp below with before | rfl
      · exact min.least i before here
      · exact not_lt.mp smaller
  · refine ⟨j, betterSkip holds, Nat.lt_succ_of_lt min.below, min.holds, ?_, min.first⟩
    intro i below here
    rcases Nat.lt_succ_iff_lt_or_eq.mp below with before | rfl
    · exact min.least i before here
    · exact absurd here holds

theorem firstMinSpec (n : Nat) : (firstMin p key n = none ∧ ∀ i < n, ¬p i) ∨
    ∃ j, firstMin p key n = some j ∧ IsFirstMin p key n j := by
  induction n with
  | zero => exact .inl ⟨rfl, fun _ below => absurd below (Nat.not_lt_zero _)⟩
  | succ n ih =>
    rw [firstMinStep]
    rcases ih with ⟨none, fails⟩ | ⟨j, found, min⟩
    · rw [none]
      by_cases holds : p n
      · refine .inr ⟨n, betterFirst holds, Nat.lt_succ_self n, holds, ?_, fun i before here => absurd here (fails i before)⟩
        intro i below here
        rcases Nat.lt_succ_iff_lt_or_eq.mp below with before | rfl
        · exact absurd here (fails i before)
        · exact le_refl _
      · refine .inl ⟨betterSkip holds, fun i below => ?_⟩
        rcases Nat.lt_succ_iff_lt_or_eq.mp below with before | rfl
        · exact fails i before
        · exact holds
    · rw [found]
      exact .inr (isFirstMinStep min)

theorem firstMinNone : firstMin p key n = none ↔ ∀ i < n, ¬p i := by
  rcases @firstMinSpec _ _ p _ key n with ⟨none, fails⟩ | ⟨j, found, min⟩
  · exact iff_of_true none fails
  · rw [found]
    exact iff_of_false (Option.some_ne_none j) fun fails => fails j min.below min.holds

theorem firstMinSome (found : firstMin p key n = some j) : IsFirstMin p key n j := by
  rcases @firstMinSpec _ _ p _ key n with ⟨none, _⟩ | ⟨k, same, min⟩
  · exact absurd (none.symm.trans found) (Option.some_ne_none j).symm
  · exact Option.some.inj (same.symm.trans found) ▸ min

end Flexbuild.FirstMinimum
