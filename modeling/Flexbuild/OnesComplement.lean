import Mathlib.Algebra.BigOperators.Group.List.Basic
import Mathlib.Data.BitVec
import Mathlib.Tactic.Common

/-! Sums in ones' complement. A carry out of the word is added in at its low end, so a sum of words is
their sum modulo the greatest word, and it is zero only when all of them are. -/
namespace Flexbuild.OnesComplement

variable {w : Nat}

def add (a b : BitVec w) : BitVec w :=
  let sum := a.toNat + b.toNat
  BitVec.ofNat w (sum + sum / 2 ^ w)

def total (words : List (BitVec w)) : BitVec w := words.foldl add 0

def plain (words : List (BitVec w)) : Nat := (words.map BitVec.toNat).sum

theorem sameResidue {m a b : Nat} (k : Nat) (whole : b = a + m * k) : a ≡ b [MOD m] := by
  rw [whole]
  exact (Nat.add_mul_mod_self_left _ _ _).symm

theorem addToNat (a b : BitVec w) :
    (add a b).toNat = if a.toNat + b.toNat < 2 ^ w then a.toNat + b.toNat else a.toNat + b.toNat + 1 - 2 ^ w := by
  have first := a.isLt
  have second := b.isLt
  rw [add, BitVec.toNat_ofNat]
  split
  · next small => rw [Nat.div_eq_of_lt small, Nat.add_zero, Nat.mod_eq_of_lt small]
  · next large =>
    have one : (a.toNat + b.toNat) / 2 ^ w = 1 := by
      rw [Nat.div_eq_iff (by omega)]
      omega
    rw [one, Nat.mod_eq_sub_mod (by omega), Nat.mod_eq_of_lt (by omega)]

theorem addResidue (a b : BitVec w) : (add a b).toNat ≡ a.toNat + b.toNat [MOD 2 ^ w - 1] := by
  rw [addToNat]
  split
  · rfl
  · next large =>
    have positive : 0 < 2 ^ w := Nat.two_pow_pos w
    exact sameResidue 1 (by omega)

theorem toNatZero (a : BitVec w) : a = 0 ↔ a.toNat = 0 := by
  rw [← BitVec.toNat_inj]
  exact Iff.rfl

theorem addZero (a b : BitVec w) : add a b = 0 ↔ a = 0 ∧ b = 0 := by
  have positive : 0 < 2 ^ w := Nat.two_pow_pos w
  rw [toNatZero, toNatZero, toNatZero, addToNat]
  split <;> omega

theorem foldResidue (words : List (BitVec w)) (start : BitVec w) :
    (words.foldl add start).toNat ≡ start.toNat + plain words [MOD 2 ^ w - 1] := by
  induction words generalizing start with
  | nil => rfl
  | cons a rest ih =>
    have whole : start.toNat + plain (a :: rest) = start.toNat + a.toNat + plain rest := by
      simp only [plain, List.map_cons, List.sum_cons, Nat.add_assoc]
    rw [whole]
    exact (ih (add start a)).trans ((addResidue start a).add_right _)

theorem foldZero (words : List (BitVec w)) (start : BitVec w) :
    words.foldl add start = 0 ↔ start = 0 ∧ ∀ a ∈ words, a = 0 := by
  induction words generalizing start with
  | nil => simp
  | cons a rest ih =>
    rw [List.foldl_cons, ih, addZero, List.forall_mem_cons, and_assoc]

theorem addNothing (a : BitVec w) : add a 0 = a := by
  apply BitVec.eq_of_toNat_eq
  have small := a.isLt
  rw [addToNat, if_pos] <;> simp [small]

theorem foldNothing {words : List (BitVec w)} {start : BitVec w}
    (all : ∀ a ∈ words, a = 0) : words.foldl add start = start := by
  induction words with
  | nil => rfl
  | cons a rest ih =>
    obtain ⟨rfl, zeros⟩ := List.forall_mem_cons.mp all
    rw [List.foldl_cons, addNothing, ih zeros]

theorem onlyResidue {m a b : Nat} (same : a ≡ b [MOD m]) (someA : 0 < a) (someB : 0 < b) (smallA : a ≤ m) (smallB : b ≤ m) :
    a = b := by
  have before : a - 1 ≡ b - 1 [MOD m] := by
    refine Nat.ModEq.add_right_cancel' 1 ?_
    rwa [Nat.sub_add_cancel someA, Nat.sub_add_cancel someB]
  have equal := before.eq_of_lt_of_lt (by omega) (by omega)
  omega

theorem foldSame (words : List (BitVec w)) (a b : BitVec w) :
    words.foldl add a = words.foldl add b ↔ a = b ∨ (a.toNat ≡ b.toNat [MOD 2 ^ w - 1] ∧ ∃ x ∈ words, x ≠ 0) := by
  have first := foldResidue words a
  have second := foldResidue words b
  constructor
  · intro same
    by_cases all : ∀ x ∈ words, x = 0
    · refine .inl ?_
      rwa [foldNothing all, foldNothing all] at same
    · rw [same] at first
      exact .inr ⟨Nat.ModEq.add_right_cancel' _ (first.symm.trans second), by simpa using all⟩
  · rintro (rfl | ⟨residue, x, member, some⟩)
    · rfl
    · have nonzero (c : BitVec w) : (words.foldl add c).toNat ≠ 0 := fun zero =>
        some (((foldZero words c).mp ((toNatZero _).mpr zero)).2 x member)
      have smallA := (words.foldl add a).isLt
      have smallB := (words.foldl add b).isLt
      exact BitVec.eq_of_toNat_eq (onlyResidue ((first.trans (residue.add_right _)).trans second.symm)
        (Nat.pos_of_ne_zero (nonzero a)) (Nat.pos_of_ne_zero (nonzero b)) (by omega) (by omega))

theorem totalResidue (words : List (BitVec w)) : (total words).toNat ≡ plain words [MOD 2 ^ w - 1] := by
  have sum := foldResidue words 0
  rwa [show (0 : BitVec w).toNat = 0 from BitVec.toNat_zero, Nat.zero_add] at sum

theorem totalZero (words : List (BitVec w)) : total words = 0 ↔ ∀ a ∈ words, a = 0 := by
  rw [total, foldZero]
  exact ⟨fun none => none.2, fun none => ⟨rfl, none⟩⟩

theorem totalOnes (positive : 0 < w) (words : List (BitVec w)) :
    total words = BitVec.allOnes w ↔ plain words ≡ 0 [MOD 2 ^ w - 1] ∧ ¬∀ a ∈ words, a = 0 := by
  have two : 2 ^ 1 ≤ 2 ^ w := Nat.pow_le_pow_right (by decide) positive
  have small := (total words).isLt
  rw [← totalZero, ← BitVec.toNat_inj, BitVec.toNat_allOnes, toNatZero]
  constructor
  · intro ones
    refine ⟨(totalResidue words).symm.trans ?_, by omega⟩
    rw [ones]
    exact Nat.mod_self _
  · rintro ⟨vanishes, some⟩
    have whole : 2 ^ w - 1 ∣ (total words).toNat := (Nat.modEq_zero_iff_dvd).mp ((totalResidue words).trans vanishes)
    have least := Nat.le_of_dvd (by omega) whole
    omega

theorem plainSet (words : List (BitVec w)) (i : Nat) (a : BitVec w) (inside : i < words.length) :
    plain (words.set i a) + words[i].toNat = plain words + a.toNat := by
  unfold plain
  induction words generalizing i with
  | nil => cases inside
  | cons b rest ih =>
    cases i with
    | zero =>
      simp only [List.set_cons_zero, List.map_cons, List.sum_cons, List.getElem_cons_zero]
      omega
    | succ i =>
      have below := ih i (Nat.lt_of_succ_lt_succ inside)
      simp only [List.set_cons_succ, List.map_cons, List.sum_cons, List.getElem_cons_succ]
      omega

end Flexbuild.OnesComplement
