import Mathlib.Data.List.Induction
import Mathlib.Tactic.Ring

/-! Strings of bytes as numbers, most significant byte first, and long strings that are made
of blocks of one length and cut in the last one. -/
namespace Flexbuild.BigEndian

abbrev Byte := BitVec 8

def value (l : List Byte) : Nat := l.foldl (fun n b => n * 256 + b.toNat) 0

def encode : Nat → Nat → List Byte
  | 0, _ => []
  | width + 1, n => encode width (n / 256) ++ [BitVec.ofNat 8 n]

variable {l : List Byte} {b : Byte} {n width : Nat}

@[simp] theorem valueNil : value [] = 0 := rfl

@[simp] theorem valueSnoc (l : List Byte) (b : Byte) : value (l ++ [b]) = value l * 256 + b.toNat := by
  rw [value, List.foldl_append]
  rfl

theorem valueLt (l : List Byte) : value l < 256 ^ l.length := by
  induction l using List.reverseRecOn with
  | nil => exact Nat.one_pos
  | append_singleton l b more =>
    rw [valueSnoc, List.length_append, List.length_singleton, Nat.pow_succ]
    have := b.isLt
    omega

@[simp] theorem encodeLength (width n : Nat) : (encode width n).length = width := by
  induction width generalizing n with
  | zero => rfl
  | succ width more => rw [encode, List.length_append, more, List.length_singleton]

theorem encodeValue (l : List Byte) : encode l.length (value l) = l := by
  induction l using List.reverseRecOn with
  | nil => rfl
  | append_singleton l b more =>
    have := b.isLt
    have high : (value l * 256 + b.toNat) / 256 = value l := by omega
    have low : BitVec.ofNat 8 (value l * 256 + b.toNat) = b := by
      apply BitVec.eq_of_toNat_eq
      rw [BitVec.toNat_ofNat]
      omega
    rw [List.length_append, List.length_singleton, valueSnoc, encode, high, low, more]

section Blocks

variable {α : Type} {block : Nat → List α} {size k : Nat}

def blocks (block : Nat → List α) (k : Nat) : List α := (List.range k).flatMap block

theorem blocksSucc (block : Nat → List α) (k : Nat) : blocks block (k + 1) = blocks block k ++ block k := by
  rw [blocks, List.range_succ, List.flatMap_append, List.flatMap_singleton]
  rfl

theorem blocksLength (each : ∀ j, (block j).length = size) (k : Nat) : (blocks block k).length = k * size := by
  induction k with
  | zero => rw [Nat.zero_mul]; rfl
  | succ k more => rw [blocksSucc, List.length_append, more, each, Nat.succ_mul]

theorem blocksCut (each : ∀ j, (block j).length = size) (part k : Nat) :
    (blocks block (k + 1)).take (k * size + part) = blocks block k ++ (block k).take part := by
  rw [blocksSucc, List.take_append, blocksLength each, Nat.add_sub_cancel_left,
    List.take_of_length_le (by rw [blocksLength each]; omega)]

end Blocks

end Flexbuild.BigEndian
