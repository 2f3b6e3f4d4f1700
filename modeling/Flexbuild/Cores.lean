import Mathlib.Data.Fintype.Basic
import Flexbuild.Ledgers

/-! Several cores at work on one shared state, each at a point of its own in its program. What
they hold together is a sum over the cores, and a step of one core changes one term of it. -/
namespace Flexbuild.Cores
open Ledgers

variable {κ α β : Type} [DecidableEq κ] {at_ : κ → α} {k : κ} {v : α}

section Tallies

variable [Fintype κ] {cost : α → Int}

def tally (cost : α → Int) (at_ : κ → α) : Int := owed Finset.univ cost at_

def tallyOthers (cost : α → Int) (at_ : κ → α) (k : κ) : Int := owed (Finset.univ.erase k) cost at_

theorem tallySplit (cost : α → Int) (at_ : κ → α) (k : κ) :
    tally cost at_ = tallyOthers cost at_ k + cost (at_ k) :=
  (Finset.sum_erase_add _ _ (Finset.mem_univ k)).symm

theorem tallyMove : tally cost (Function.update at_ k v) = tallyOthers cost at_ k + cost v := by
  have whole : owed Finset.univ cost (Function.update at_ k v) =
      owed Finset.univ cost at_ - cost (at_ k) + cost v := owedUpdate (Finset.mem_univ k) v
  have before := tallySplit cost at_ k
  unfold tally at before ⊢
  omega

theorem tallyOthersNonneg (nonneg : ∀ j, 0 ≤ cost (at_ j)) : 0 ≤ tallyOthers cost at_ k :=
  owedNonneg (fun j _ => nonneg j)

theorem tallyOthersZero (zero : ∀ j, j ≠ k → cost (at_ j) = 0) : tallyOthers cost at_ k = 0 :=
  owedZero (fun j mem => zero j (Finset.ne_of_mem_erase mem))

theorem tallyOthersMember (nonneg : ∀ j, 0 ≤ cost (at_ j)) {j : κ} (other : j ≠ k) :
    cost (at_ j) ≤ tallyOthers cost at_ k :=
  Finset.single_le_sum (f := fun i => cost (at_ i)) (fun i _ => nonneg i)
    (Finset.mem_erase.mpr ⟨other, Finset.mem_univ j⟩)

end Tallies

section Owners

variable {owner : α → Option β} {x : β}

def Owned (owner : α → Option β) (at_ : κ → α) (x : β) : Prop := ∃ k, owner (at_ k) = some x

def OwnedByOther (owner : α → Option β) (at_ : κ → α) (k : κ) (x : β) : Prop :=
  ∃ j, j ≠ k ∧ owner (at_ j) = some x

def Exclusive (owner : α → Option β) (at_ : κ → α) : Prop :=
  ∀ j k x, owner (at_ j) = some x → owner (at_ k) = some x → j = k

theorem ownedSplit : Owned owner at_ x ↔ OwnedByOther owner at_ k x ∨ owner (at_ k) = some x := by
  constructor
  · rintro ⟨j, own⟩
    by_cases same : j = k
    · exact .inr (same ▸ own)
    · exact .inl ⟨j, same, own⟩
  · rintro (⟨j, _, own⟩ | own)
    · exact ⟨j, own⟩
    · exact ⟨k, own⟩

theorem ownedMove :
    Owned owner (Function.update at_ k v) x ↔ OwnedByOther owner at_ k x ∨ owner v = some x := by
  rw [@ownedSplit κ α β _ _ k, Function.update_self]
  refine or_congr_left ?_
  constructor
  · rintro ⟨j, other, own⟩
    rw [Function.update_of_ne other] at own
    exact ⟨j, other, own⟩
  · rintro ⟨j, other, own⟩
    refine ⟨j, other, ?_⟩
    rw [Function.update_of_ne other]
    exact own

omit [DecidableEq κ] in
theorem exclusiveOther (exclusive : Exclusive owner at_) (own : owner (at_ k) = some x) :
    ¬ OwnedByOther owner at_ k x := by
  rintro ⟨j, other, also⟩
  exact other (exclusive j k x also own)

theorem exclusiveMove (exclusive : Exclusive owner at_)
    (fresh : ∀ x, owner v = some x → ¬ OwnedByOther owner at_ k x) :
    Exclusive owner (Function.update at_ k v) := by
  intro i j x ownI ownJ
  by_cases sameI : i = k
  · by_cases sameJ : j = k
    · rw [sameI, sameJ]
    · subst sameI
      rw [Function.update_self] at ownI
      rw [Function.update_of_ne sameJ] at ownJ
      exact absurd ⟨j, sameJ, ownJ⟩ (fresh x ownI)
  · by_cases sameJ : j = k
    · subst sameJ
      rw [Function.update_self] at ownJ
      rw [Function.update_of_ne sameI] at ownI
      exact absurd ⟨i, sameI, ownI⟩ (fresh x ownJ)
    · rw [Function.update_of_ne sameI] at ownI
      rw [Function.update_of_ne sameJ] at ownJ
      exact exclusive i j x ownI ownJ

end Owners

end Flexbuild.Cores
