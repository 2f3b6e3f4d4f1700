import Mathlib.Data.Nat.Bitwise
import Mathlib.Data.List.Basic
import Mathlib.Data.List.Induction
import Mathlib.Tactic.Ring

/-! Numbers as strings of bits and of bytes. `binary s v` is the number `v` with `s` bits, most
significant bit first, and `number` reads such a string; `mirror` turns the `s` bits of a number
round. `pack` and `unpack` are the fixed-width formats of either byte order. -/
namespace Flexbuild.BitStrings

def binary (s v : Nat) : List Bool := (List.range s).reverse.map v.testBit

def number (bs : List Bool) : Nat := bs.foldl (fun n b => 2 * n + b.toNat) 0

def mirror (s v : Nat) : Nat := number (binary s v).reverse

def pack (little : Bool) (n x : Nat) : List Nat :=
  let bytes := (List.range n).map fun i => x / 256 ^ i % 256
  if little then bytes else bytes.reverse

def value (bytes : List Nat) : Nat := bytes.foldr (fun b n => b + 256 * n) 0

def unpack (little : Bool) (bytes : List Nat) : Nat :=
  value (if little then bytes else bytes.reverse)

variable {s v i p n : Nat} {bs cs : List Bool}

theorem binaryLength (s v : Nat) : (binary s v).length = s := by simp [binary]

theorem numberConcat (bs : List Bool) (b : Bool) : number (bs ++ [b]) = 2 * number bs + b.toNat := by
  rw [number, List.foldl_append]
  rfl

theorem testNumber (bs : List Bool) (i : Nat) : (number bs).testBit i = bs.reverse[i]?.getD false := by
  induction bs using List.reverseRecOn generalizing i with
  | nil => simp [number]
  | append_singleton bs b ih =>
    rw [numberConcat, List.reverse_append]
    cases i with
    | zero =>
      rw [Nat.testBit_zero]
      cases b <;> simp
    | succ i =>
      have half : (2 * number bs + b.toNat) / 2 = number bs := by
        cases b
        · simp
        · simp
          omega
      rw [Nat.testBit_succ, half, ih]
      rfl

theorem testReverse (bs : List Bool) (i : Nat) : (number bs.reverse).testBit i = bs[i]?.getD false := by
  rw [testNumber, List.reverse_reverse]

theorem testMirror : (mirror s v).testBit i = (decide (i < s) && v.testBit (s - 1 - i)) := by
  rw [mirror, testReverse, binary]
  by_cases inside : i < s
  · rw [decide_eq_true inside, Bool.true_and, List.getElem?_map,
      List.getElem?_reverse (by rwa [List.length_range]), List.length_range,
      List.getElem?_range (by omega)]
    rfl
  · rw [decide_eq_false inside, Bool.false_and, List.getElem?_eq_none (by simpa using inside)]
    rfl

theorem mirrorLt : mirror s v < 2 ^ s := by
  apply Nat.lt_pow_two_of_testBit
  intro i high
  rw [testMirror, decide_eq_false (by omega), Bool.false_and]

theorem mirrorMirror (small : v < 2 ^ s) : mirror s (mirror s v) = v := by
  apply Nat.eq_of_testBit_eq
  intro i
  rw [testMirror, testMirror]
  by_cases inside : i < s
  · have back : s - 1 - (s - 1 - i) = i := by omega
    rw [decide_eq_true inside, decide_eq_true (show s - 1 - i < s by omega), back, Bool.true_and,
      Bool.true_and]
  · rw [decide_eq_false inside, Bool.false_and,
      Nat.testBit_lt_two_pow (small.trans_le (Nat.pow_le_pow_right (by decide) (by omega)))]

theorem binaryAdd (a b v : Nat) : binary (a + b) v = binary a (v >>> b) ++ binary b v := by
  have high : (fun i => (v >>> b).testBit i) = fun i => v.testBit (b + i) := by
    funext i
    rw [Nat.testBit_shiftRight]
  unfold binary
  rw [Nat.add_comm a b, List.range_add, List.reverse_append, List.map_append, ← List.map_reverse,
    List.map_map]
  exact congrArg (· ++ _) (congrArg (List.map · _) high.symm)

theorem binaryLow (s v : Nat) : binary s (v &&& (2 ^ s - 1)) = binary s v := by
  apply List.map_congr_left
  intro i mem
  have inside : i < s := by simpa using mem
  rw [Nat.testBit_and, Nat.testBit_two_pow_sub_one, decide_eq_true inside, Bool.and_true]

theorem binaryBytes (n v : Nat) :
    ((List.range n).map fun i => (v >>> (8 * n - 8 * (i + 1))) &&& 0xff).flatMap (binary 8) =
      binary (8 * n) v := by
  induction n with
  | zero => rfl
  | succ n ih =>
    have later : (List.range n).map ((fun i => (v >>> (8 * (n + 1) - 8 * (i + 1))) &&& 0xff) ∘ Nat.succ) =
        (List.range n).map fun i => (v >>> (8 * n - 8 * (i + 1))) &&& 0xff := by
      apply List.map_congr_left
      intro i _
      have shift : 8 * (n + 1) - 8 * (i.succ + 1) = 8 * n - 8 * (i + 1) := by omega
      rw [Function.comp_apply, shift]
    have first : 8 * (n + 1) - 8 * (0 + 1) = 8 * n := by omega
    rw [List.range_succ_eq_map, List.map_cons, List.map_map, later, List.flatMap_cons, ih, first,
      show 8 * (n + 1) = 8 + 8 * n by omega, binaryAdd]
    exact congrArg (· ++ _) (binaryLow 8 _)

theorem addApart {a b : Nat} (apart : ∀ i, a.testBit i = true → b.testBit i = false) :
    a + b = a ||| b := by
  induction a using Nat.strong_induction_on generalizing b with
  | _ a ih =>
    rcases Nat.eq_zero_or_pos a with rfl | positive
    · rw [Nat.zero_add, Nat.zero_or]
    · have halves : a / 2 + b / 2 = a / 2 ||| b / 2 :=
        ih (a / 2) (by omega) fun i set => by
          rw [← Nat.testBit_succ] at set ⊢
          exact apart (i + 1) set
      have low : (a ||| b) % 2 = a % 2 + b % 2 := by
        have first := apart 0
        have or_ := @Nat.or_mod_two_eq_one a b
        simp only [Nat.testBit_zero, decide_eq_true_eq, decide_eq_false_iff_not] at first
        omega
      have high : (a ||| b) / 2 = a / 2 ||| b / 2 := Nat.or_div_two
      omega

theorem sumApart {xs : List Nat}
    (apart : xs.Pairwise fun a b => ∀ i, a.testBit i = true → b.testBit i = false) (i : Nat) :
    xs.sum.testBit i = xs.any (·.testBit i) := by
  induction apart generalizing i with
  | nil => simp
  | cons first later ih =>
    rename_i x xs
    have disjoint : ∀ j, x.testBit j = true → xs.sum.testBit j = false := by
      intro j set
      rw [ih, List.any_eq_false]
      intro y mem
      simpa using first y mem j set
    rw [List.sum_cons, addApart disjoint, Nat.testBit_or, ih, List.any_cons]

variable {bytes : List Nat}

theorem valueAt (small : ∀ b ∈ bytes, b < 256) (inside : i < bytes.length) :
    value bytes / 256 ^ i % 256 = bytes[i] := by
  induction bytes generalizing i with
  | nil => cases inside
  | cons b bytes ih =>
    have first := small b List.mem_cons_self
    cases i with
    | zero =>
      show (b + 256 * value bytes) / 1 % 256 = b
      omega
    | succ i =>
      have drop : (b + 256 * value bytes) / 256 = value bytes := by omega
      have later : i < bytes.length := by simpa using inside
      show (b + 256 * value bytes) / 256 ^ (i + 1) % 256 = bytes[i]
      rw [Nat.pow_succ', ← Nat.div_div_eq_div_mul, drop]
      exact ih (fun c mem => small c (List.mem_cons_of_mem _ mem)) later

theorem valueBytes (small : ∀ b ∈ bytes, b < 256) :
    (List.range bytes.length).map (fun i => value bytes / 256 ^ i % 256) = bytes := by
  apply List.ext_getElem (by simp)
  intro i _ inside
  rw [List.getElem_map, List.getElem_range, valueAt small inside]

theorem bytesValue (n : Nat) {x : Nat} (small : x < 256 ^ n) :
    value ((List.range n).map fun i => x / 256 ^ i % 256) = x := by
  induction n generalizing x with
  | zero =>
    rw [Nat.pow_zero] at small
    exact (Nat.lt_one_iff.mp small).symm
  | succ n ih =>
    have less : x / 256 < 256 ^ n := by
      rw [Nat.pow_succ] at small
      omega
    have rest : (List.range n).map ((fun i => x / 256 ^ i % 256) ∘ Nat.succ) =
        (List.range n).map fun i => x / 256 / 256 ^ i % 256 := by
      apply List.map_congr_left
      intro i _
      simp only [Function.comp, Nat.succ_eq_add_one, Nat.pow_succ', Nat.div_div_eq_div_mul]
    rw [List.range_succ_eq_map, List.map_cons, List.map_map, rest]
    show x / 256 ^ 0 % 256 + 256 * value _ = x
    rw [ih less]
    omega

theorem unpackPack (little : Bool) (n : Nat) {x : Nat} (small : x < 256 ^ n) :
    unpack little (pack little n x) = x := by
  cases little
  · simp only [unpack, pack, Bool.false_eq_true, if_false, List.reverse_reverse]
    exact bytesValue n small
  · exact bytesValue n small

theorem packUnpack (small : ∀ b ∈ bytes, b < 256) :
    pack true bytes.length (unpack false bytes) = bytes.reverse := by
  have turned := valueBytes (fun b (mem : b ∈ bytes.reverse) => small b (List.mem_reverse.mp mem))
  rwa [List.length_reverse] at turned

theorem packLength (little : Bool) (n x : Nat) : (pack little n x).length = n := by
  unfold pack
  cases little <;> simp

end Flexbuild.BitStrings
