import Mathlib.Algebra.BigOperators.Group.Finset.Basic
import Mathlib.Algebra.Order.BigOperators.Group.Finset
import Mathlib.Algebra.Order.Group.Int
import Mathlib.Logic.Function.Basic

/-! Sums over a table of entries, and how they change when one entry is overwritten. -/
namespace Flexbuild.Ledgers

variable {ι α : Type} [DecidableEq ι]

def owed (s : Finset ι) (cost : α → Int) (table : ι → α) : Int := ∑ x ∈ s, cost (table x)

variable {s : Finset ι} {cost : α → Int} {table : ι → α} {i : ι}

theorem owedUpdate (mem : i ∈ s) (v : α) :
    owed s cost (Function.update table i v) = owed s cost table - cost (table i) + cost v := by
  unfold owed
  rw [← Finset.add_sum_erase s _ mem, ← Finset.add_sum_erase s (fun x => cost (table x)) mem]
  have rest : ∑ x ∈ s.erase i, cost (Function.update table i v x) =
      ∑ x ∈ s.erase i, cost (table x) :=
    Finset.sum_congr rfl
      (fun x other => by rw [Function.update_of_ne (Finset.ne_of_mem_erase other)])
  rw [rest, Function.update_self]
  omega

omit [DecidableEq ι] in
theorem owedZero (zero : ∀ x ∈ s, cost (table x) = 0) : owed s cost table = 0 :=
  Finset.sum_eq_zero zero

omit [DecidableEq ι] in
theorem owedNonneg (nonneg : ∀ x ∈ s, 0 ≤ cost (table x)) : 0 ≤ owed s cost table :=
  Finset.sum_nonneg nonneg

end Flexbuild.Ledgers
