import Mathlib.Data.List.Basic
import Mathlib.Tactic.IntervalCases

/-! Numerals as text. Digits are written most significant first, with leading zeros up to a
width; reading them back gives the number. `intLiteral` reads the integer literals of
Python 2, whose prefix chooses the base. -/
namespace Flexbuild.Numerals

abbrev Text := List Char

def digitValue (c : Char) : Option Nat :=
  if 48 ≤ c.toNat ∧ c.toNat ≤ 57 then some (c.toNat - 48)
  else if 97 ≤ c.toNat ∧ c.toNat ≤ 122 then some (c.toNat - 97 + 10)
  else if 65 ≤ c.toNat ∧ c.toNat ≤ 90 then some (c.toNat - 65 + 10)
  else none

def readFrom (base : Nat) : Nat → Text → Option Nat
  | acc, [] => some acc
  | acc, c :: cs =>
      match digitValue c with
      | some d => if d < base then readFrom base (base * acc + d) cs else none
      | none => none

def read (base : Nat) : Text → Option Nat
  | [] => none
  | c :: cs => readFrom base 0 (c :: cs)

def padded (width base n : Nat) : Text :=
  List.replicate (width - (Nat.toDigits base n).length) '0' ++ Nat.toDigits base n

def intLiteral : Text → Option Nat
  | '0' :: 'x' :: t => read 16 t
  | '0' :: 'X' :: t => read 16 t
  | '0' :: 'o' :: t => read 8 t
  | '0' :: 'O' :: t => read 8 t
  | '0' :: 'b' :: t => read 2 t
  | '0' :: 'B' :: t => read 2 t
  | '0' :: t => read 8 ('0' :: t)
  | t => read 10 t

variable {base n d acc : Nat} {c : Char} {xs ys : Text}

theorem digitCharCases (small : d < 16) :
    digitValue d.digitChar = some d ∧ d.digitChar.isAlphanum = true ∧ (d.digitChar = '0' → d = 0) := by
  interval_cases d <;> decide

theorem readFromAppend : readFrom base acc (xs ++ ys) = (readFrom base acc xs).bind fun n => readFrom base n ys := by
  induction xs generalizing acc with
  | nil => rfl
  | cons c xs ih =>
    simp only [List.cons_append, readFrom]
    cases digitValue c with
    | none => rfl
    | some d =>
      simp only
      split
      · exact ih
      · rfl

theorem readFromDigit (small : d < base) (known : base ≤ 16) :
    readFrom base acc [d.digitChar] = some (base * acc + d) := by
  simp only [readFrom, (digitCharCases (show d < 16 by omega)).1, if_pos small]

theorem readFromDigits (two : 1 < base) (known : base ≤ 16) :
    readFrom base 0 (Nat.toDigits base n) = some n := by
  induction n using Nat.base_induction base two with
  | single m small => rw [Nat.toDigits_of_lt_base small, readFromDigit small known, Nat.mul_zero, Nat.zero_add]
  | digit m d small positive ih =>
    rw [← Nat.toDigits_append_toDigits two positive small, readFromAppend, ih,
      Nat.toDigits_of_lt_base small]
    exact readFromDigit small known

theorem readFromZeros (two : 1 < base) (k : Nat) : readFrom base 0 (List.replicate k '0') = some 0 := by
  induction k with
  | zero => rfl
  | succ k ih =>
    have zero : digitValue '0' = some 0 := by decide
    simp only [List.replicate_succ, readFrom, zero, if_pos (show 0 < base by omega), Nat.mul_zero,
      Nat.add_zero, ih]

theorem readPadded (two : 1 < base) (known : base ≤ 16) (width : Nat) :
    read base (padded width base n) = some n := by
  have whole : readFrom base 0 (padded width base n) = some n := by
    rw [padded, readFromAppend, readFromZeros two, Option.bind_some, readFromDigits two known]
  cases text : padded width base n with
  | nil => simp [padded] at text
  | cons c cs =>
    rw [text] at whole
    exact whole

theorem digitsAlphanum (two : 1 < base) (known : base ≤ 16) (mem : c ∈ Nat.toDigits base n) :
    c.isAlphanum = true := by
  induction n using Nat.base_induction base two with
  | single m small =>
    rw [Nat.toDigits_of_lt_base small, List.mem_singleton] at mem
    rw [mem]
    exact (digitCharCases (by omega)).2.1
  | digit m d small positive ih =>
    rw [← Nat.toDigits_append_toDigits two positive small, List.mem_append,
      Nat.toDigits_of_lt_base small, List.mem_singleton] at mem
    rcases mem with mem | rfl
    · exact ih mem
    · exact (digitCharCases (by omega)).2.1

theorem paddedAlphanum (two : 1 < base) (known : base ≤ 16) {width : Nat}
    (mem : c ∈ padded width base n) : c.isAlphanum = true := by
  rcases List.mem_append.mp mem with mem | mem
  · rw [List.eq_of_mem_replicate mem]
    decide
  · exact digitsAlphanum two known mem

theorem digitsHead (two : 1 < base) (known : base ≤ 16) (positive : 0 < n) :
    ∃ c cs, Nat.toDigits base n = c :: cs ∧ c ≠ '0' := by
  induction n using Nat.base_induction base two with
  | single m small =>
    refine ⟨m.digitChar, [], Nat.toDigits_of_lt_base small, fun zero => ?_⟩
    have := (digitCharCases (by omega)).2.2 zero
    omega
  | digit m d small more ih =>
    obtain ⟨c, cs, head, nonzero⟩ := ih more
    refine ⟨c, cs ++ Nat.toDigits base d, ?_, nonzero⟩
    rw [← Nat.toDigits_append_toDigits two more small, head]
    rfl

theorem intLiteralHex (width : Nat) : intLiteral ('0' :: 'x' :: padded width 16 n) = some n :=
  readPadded (by decide) (by decide) width

theorem intLiteralDecimal (positive : 0 < n) : intLiteral (Nat.toDigits 10 n) = some n := by
  obtain ⟨c, cs, head, nonzero⟩ := digitsHead (show 1 < 10 by decide) (by decide) positive
  have whole : readFrom 10 0 (Nat.toDigits 10 n) = some n := readFromDigits (by decide) (by decide)
  rw [head] at whole ⊢
  unfold intLiteral
  split <;> first | (rename_i eq; exact absurd (List.cons.inj eq).1 nonzero) | exact whole

end Flexbuild.Numerals
