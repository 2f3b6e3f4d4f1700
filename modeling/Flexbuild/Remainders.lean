import Mathlib.Data.BitVec
import Mathlib.Data.List.Basic
import Mathlib.Tactic.Common

/-! Registers that divide a string of bits by a polynomial over the field of two elements. The
polynomial has degree `w` and `g` is the rest of it; bits come most significant first. -/
namespace Flexbuild.Remainders

variable {w : Nat} (g : BitVec w)

def step (r : BitVec w) (b : Bool) : BitVec w := (r <<< 1) ^^^ (if r.msb ^^ b then g else 0#w)

def feed (r : BitVec w) (bits : List Bool) : BitVec w := bits.foldl (step g) r

def zeros (k : Nat) : List Bool := List.replicate k false

def leading (k : Nat) (r : BitVec w) : List Bool := (List.range k).map r.getMsbD

theorem feedCons (r : BitVec w) (b : Bool) (bits : List Bool) : feed g r (b :: bits) = feed g (step g r b) bits := rfl

theorem feedAppend (r : BitVec w) (bits more : List Bool) : feed g r (bits ++ more) = feed g (feed g r bits) more :=
  List.foldl_append ..

theorem chosenXor (b c : Bool) : (if b ^^ c then g else 0#w) = (if b then g else 0#w) ^^^ (if c then g else 0#w) := by
  cases b <;> cases c <;> simp

theorem stepXor (r s : BitVec w) (b c : Bool) : step g (r ^^^ s) (b ^^ c) = step g r b ^^^ step g s c := by
  have both : ((r ^^^ s).msb ^^ (b ^^ c)) = ((r.msb ^^ b) ^^ (s.msb ^^ c)) := by
    rw [BitVec.msb_xor]
    cases r.msb <;> cases s.msb <;> cases b <;> cases c <;> rfl
  unfold step
  rw [both, chosenXor, BitVec.shiftLeft_xor_distrib]
  ac_rfl

theorem feedXor (bits more : List Bool) (same : bits.length = more.length) (r s : BitVec w) :
    feed g (r ^^^ s) (List.zipWith (· ^^ ·) bits more) = feed g r bits ^^^ feed g s more := by
  induction bits generalizing more r s with
  | nil =>
    cases more with
    | nil => rfl
    | cons c more => simp at same
  | cons b bits later =>
    cases more with
    | nil => simp at same
    | cons c more =>
      rw [List.zipWith_cons_cons, feedCons, feedCons, feedCons, stepXor]
      exact later more (Nat.succ.inj same) _ _

theorem leadingSucc (k : Nat) (r : BitVec w) : leading (k + 1) r = r.msb :: leading k (r <<< 1) := by
  unfold leading
  rw [List.range_succ_eq_map, List.map_cons, List.map_map]
  congr 1
  apply List.map_congr_left
  intro j _
  simp [BitVec.getMsbD_shiftLeft]

theorem feedLeading (k : Nat) (r : BitVec w) : feed g r (leading k r) = r <<< k := by
  induction k generalizing r with
  | zero => simp [feed, leading]
  | succ k shifted =>
    have first : step g r r.msb = r <<< 1 := by simp [step]
    rw [leadingSucc, feedCons, first, shifted, ← BitVec.shiftLeft_add, Nat.add_comm]

theorem feedItself (r : BitVec w) : feed g r (leading w r) = 0#w := by
  rw [feedLeading]
  exact BitVec.shiftLeft_eq_zero le_rfl

theorem feedThrough {k : Nat} {bits : List Bool} {h : BitVec w} (long : bits.length = k) (high : h <<< k = 0#w)
    (r : BitVec w) (made : leading k (r ^^^ h) = bits) :
    feed g r bits = (r <<< k) ^^^ feed g h (zeros k) := by
  have zip : List.zipWith (· ^^ ·) bits (zeros k) = bits := by
    rw [← long]
    clear made long
    induction bits with
    | nil => rfl
    | cons b bits rest => simpa [zeros, List.replicate_succ] using rest
  have back : (r ^^^ h) ^^^ h = r := by rw [BitVec.xor_assoc, BitVec.xor_self, BitVec.xor_zero]
  have split := feedXor g bits (zeros k) (by simp [long, zeros]) (r ^^^ h) h
  rw [zip, back] at split
  rw [split]
  congr 1
  rw [← made, feedLeading, BitVec.shiftLeft_xor_distrib, high, BitVec.xor_zero]

end Flexbuild.Remainders
