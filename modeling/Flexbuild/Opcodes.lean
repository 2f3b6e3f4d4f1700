import Mathlib.Data.Nat.Digits.Lemmas

/-! Words of an instruction set: fields packed with `or`, operands cut into limbs with the low limb
first, and opcodes as ranges of the first word. -/
namespace Flexbuild.Opcodes

theorem joined {x y : Nat} (i : Nat) (above : 2 ^ i ∣ x) (below : y < 2 ^ i) : x ||| y = x + y := by
  obtain ⟨a, rfl⟩ := above
  exact (Nat.two_pow_add_eq_or_of_lt below a).symm

theorem joinedAt {x v : Nat} (i k : Nat) (above : 2 ^ (i + k) ∣ x) (below : v < 2 ^ k) :
    x ||| v <<< i = x + v * 2 ^ i := by
  rw [Nat.shiftLeft_eq]
  refine joined (i + k) above ?_
  rw [Nat.pow_add, Nat.mul_comm]
  exact Nat.mul_lt_mul_of_pos_left below (Nat.two_pow_pos i)

def limbs (w n v : Nat) : List Nat := (List.range n).map fun k => (v >>> (w * k)) % 2 ^ w

theorem limbsLength (w n v : Nat) : (limbs w n v).length = n := by simp [limbs]

theorem limbsValue (w n v : Nat) : Nat.ofDigits (2 ^ w) (limbs w n v) = v % (2 ^ w) ^ n := by
  induction n with
  | zero => simp [limbs, Nat.mod_one]
  | succ n ih =>
    have last : limbs w (n + 1) v = limbs w n v ++ [(v >>> (w * n)) % 2 ^ w] := by
      simp [limbs, List.range_succ]
    rw [last, Nat.ofDigits_append, ih, limbsLength, Nat.ofDigits_singleton, Nat.mod_pow_succ,
      Nat.shiftRight_eq_div_pow, Nat.pow_mul]

structure Row (α : Type) where
  low : Nat
  bits : Nat
  what : α
  deriving DecidableEq, Repr

variable {α : Type} {rows : List (Row α)} {r : Row α} {w : Nat}

def Row.Covers (r : Row α) (w : Nat) : Prop := r.low ≤ w ∧ w < r.low + 2 ^ r.bits

instance (r : Row α) (w : Nat) : Decidable (r.Covers w) :=
  inferInstanceAs (Decidable (r.low ≤ w ∧ w < r.low + 2 ^ r.bits))

def find (rows : List (Row α)) (w : Nat) : Option α :=
  (rows.find? fun r => r.Covers w).map Row.what

def Apart (a b : Row α) : Prop := a.low + 2 ^ a.bits ≤ b.low ∨ b.low + 2 ^ b.bits ≤ a.low

instance (a b : Row α) : Decidable (Apart a b) :=
  inferInstanceAs (Decidable (a.low + 2 ^ a.bits ≤ b.low ∨ b.low + 2 ^ b.bits ≤ a.low))

theorem findCovered (apart : rows.Pairwise Apart) (member : r ∈ rows) (covers : r.Covers w) :
    find rows w = some r.what := by
  induction rows with
  | nil => cases member
  | cons row rows ih =>
    obtain ⟨first, later⟩ := List.pairwise_cons.mp apart
    rcases List.mem_cons.mp member with rfl | inside
    · simp [find, covers]
    · have other : ¬ row.Covers w := by
        intro both
        have clash := first r inside
        unfold Row.Covers at covers both
        unfold Apart at clash
        omega
      have rest := ih later inside
      simpa [find, other] using rest

end Flexbuild.Opcodes
