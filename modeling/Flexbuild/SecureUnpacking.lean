import Mathlib.Data.List.Forall2
import Flexbuild.SecurePacking

/-! Both ways to unpack a buffer that was packed well. The trusted application gets
attributes that point into the buffer, the client copies the values into the buffers of
its caller. -/
namespace Flexbuild.SecureObjects
open ByteMemory Words

structure Carries (mem : Memory) (buf blen : Nat) (x : Attribute) (item : Item) : Prop where
  type : x.type = item.type
  length : x.valueLen = item.valueLen
  value : match item.bytes with
    | none => x.value = 0
    | some bytes => bytes.length = x.valueLen.toNat ∧ buf < x.value ∧
        x.value + bytes.length ≤ buf + blen ∧ load mem x.value bytes.length = bytes

section
variable {m : Machine} {mem out : Memory} {buf blen : Nat} {items : List Item}

theorem bitsAbove (m : Machine) : 2 ^ 32 ≤ 2 ^ m.bits := by cases m <;> decide

theorem allocExact {n : Nat} (small : 12 * n < 2 ^ 32) :
    wrap m.bits (n * m.attributeSize) = n * m.attributeSize := by
  refine wrapSmall ?_
  cases m with
  | narrow =>
    change n * 12 < 2 ^ 32
    omega
  | wide =>
    change n * 24 < 2 ^ 64
    omega

theorem lengthKept (v : BitVec 16) : (v.setWidth 32).setWidth 16 = v := by
  rw [BitVec.setWidth_setWidth_of_le _ (by decide), BitVec.setWidth_eq]

theorem sharedWord (shared : ∀ i < blen, mem (buf + i) = out i) {a : Nat} (inside : a + 4 ≤ blen) :
    loadWord mem (buf + a) = loadWord out a := by
  change loadWord (fun i => mem (buf + i)) a = _
  exact loadWordCongr fun i _ _ => shared i (by omega)

theorem sharedBytes (shared : ∀ i < blen, mem (buf + i) = out i) {a n : Nat} (inside : a + n ≤ blen) :
    load mem (buf + a) n = load out a n :=
  List.map_congr_left fun i member => by
    have := List.mem_range.mp member
    rw [Nat.add_assoc, shared (a + i) (by omega)]

theorem Packed.counted (packed : Packed out blen items) : (loadWord out 0).toNat = items.length := by
  have room := packed.room
  have small := packed.small
  rw [packed.count, BitVec.toNat_ofNat, Nat.mod_eq_of_lt (by omega)]

-- Induction on the headers that are left.
theorem unpackLoopCarries (packed : Packed out blen items) (shared : ∀ i < blen, mem (buf + i) = out i)
    (high : buf + blen < 2 ^ m.bits) {left n : Nat} (all : left + n = items.length) :
    ∃ attrs, unpackLoop m mem buf blen (wrap m.bits (items.length * m.attributeSize)) left n = .ok attrs ∧
      List.Forall₂ (Carries mem buf blen) attrs (items.drop n) := by
  have room := packed.room
  have small := packed.small
  have alloc := @allocExact m items.length (by omega)
  induction left generalizing n with
  | zero =>
    rw [Nat.zero_add] at all
    refine ⟨[], rfl, ?_⟩
    rw [all, List.drop_length]
    exact .nil
  | succ left ih =>
    have inside : n < items.length := by omega
    obtain ⟨attrs, unpacked, carried⟩ := ih (n := n + 1) (by omega)
    have holds := packed.slots n inside
    have fits : m.attributeSize * (n + 1) ≤ wrap m.bits (items.length * m.attributeSize) := by
      rw [alloc, Nat.mul_comm]
      exact Nat.mul_le_mul_right _ inside
    have word (a : Nat) (within : a + 4 ≤ blen) : loadWord mem (buf + a) = loadWord out a :=
      sharedWord shared within
    have type : loadWord mem (buf + 4 + 12 * n) = items[n].type := by
      rw [Nat.add_assoc, word _ (by omega)]
      exact holds.type
    have length : (loadWord mem (buf + 4 + 12 * n + 8)).setWidth 16 = items[n].valueLen := by
      rw [Nat.add_assoc buf, Nat.add_assoc buf, word _ (by omega), holds.length]
      exact lengthKept _
    have offset : loadWord mem (buf + 4 + 12 * n + 4) = loadWord out (4 + 12 * n + 4) := by
      rw [Nat.add_assoc buf, Nat.add_assoc buf, word _ (by omega)]
    rw [unpackLoop, if_neg (by omega)]
    simp only [type, length, offset]
    rw [List.drop_eq_getElem_cons inside]
    rcases holds.value small with ⟨none, zero⟩ | ⟨bytes, p, some, long, here, above, below, loaded⟩
    · simp only [zero, ne_eq, not_true_eq_false, false_and, if_false, if_true]
      rw [unpacked]
      exact ⟨_, rfl, .cons ⟨rfl, rfl, by rw [none]⟩ carried⟩
    · rw [← long, here, wrapSmall (by omega), if_neg (by omega), unpacked]
      refine ⟨_, rfl, .cons ⟨rfl, rfl, ?_⟩ carried⟩
      rw [some, if_neg (by omega), wrapSmall (by omega)]
      change _ ∧ buf < p + buf ∧ p + buf + bytes.length ≤ buf + blen ∧ load mem (p + buf) bytes.length = bytes
      refine ⟨long, by omega, by omega, ?_⟩
      rw [Nat.add_comm, sharedBytes shared below]
      exact loaded

theorem unpackSkAttrsCarries (packed : Packed out blen items)
    (shared : ∀ i < blen, mem (buf + i) = out i) (aligned : buf % 4 = 0) (high : buf + blen < 2 ^ m.bits) :
    ∃ attrs, unpackSkAttrs m mem buf blen = .ok attrs ∧ List.Forall₂ (Carries mem buf blen) attrs items := by
  have room := packed.room
  have small := packed.small
  have above := bitsAbove m
  have count : (loadWord mem buf).toNat = items.length := by
    rw [← packed.counted]
    exact congrArg _ (@sharedWord mem out buf blen shared 0 (by omega))
  obtain ⟨attrs, unpacked, carried⟩ :=
    @unpackLoopCarries m mem out buf blen items packed shared high items.length 0 (Nat.add_zero _)
  refine ⟨attrs, ?_, carried⟩
  have headers : wrap m.bits (items.length * 12) = items.length * 12 := wrapSmall (by omega)
  rw [unpackSkAttrs, if_neg (by omega), if_neg (by omega), count]
  exact (if_neg (by rw [headers]; omega)).trans unpacked

def Ready (x : Attribute) (item : Item) : Prop := item.bytes ≠ none → x.value = 0 → item.valueLen = 0

def filled (x : Attribute) (item : Item) : Attribute := { x with type := item.type, valueLen := item.valueLen }

def writes (attrs : List Attribute) (items : List Item) : List (Nat × List Byte) :=
  List.zipWith (fun x item => (x.value, item.bytes.getD [])) attrs items

theorem writesCons (x : Attribute) (attrs : List Attribute) (item : Item) (items : List Item) :
    writes (x :: attrs) (item :: items) = (x.value, item.bytes.getD []) :: writes attrs items := rfl

theorem unpackClientLoopDelivers (packed : Packed out blen items) {left n : Nat}
    (all : left + n = items.length) {attrs : List Attribute} (ready : List.Forall₂ Ready attrs (items.drop n))
    (mem : Memory) : unpackClientLoop m out blen left n attrs mem =
      .ok (none, List.zipWith filled attrs (items.drop n), storeAll (writes attrs (items.drop n)) mem) := by
  have room := packed.room
  have small := packed.small
  have above := bitsAbove m
  induction left generalizing n attrs mem with
  | zero =>
    rw [Nat.zero_add] at all
    rw [all, List.drop_length] at ready ⊢
    cases ready
    rfl
  | succ left ih =>
    have inside : n < items.length := by omega
    have holds := packed.slots n inside
    have length : (loadWord out (4 + 12 * n + 8)).setWidth 16 = items[n].valueLen := by
      rw [holds.length]
      exact lengthKept _
    rw [List.drop_eq_getElem_cons inside] at ready ⊢
    cases ready with
    | @cons x _ rest _ here later =>
      rw [unpackClientLoop, if_neg (by omega)]
      simp only [holds.type, length]
      rcases holds.value small with ⟨none, zero⟩ | ⟨bytes, p, some, long, offset, _, below, loaded⟩
      · rw [if_pos zero, ih (by omega) later, writesCons, storeAll, none]
        simp only [Option.getD_none, storeNone]
        rfl
      · rw [offset, ← long, wrapSmall (by omega), if_neg (by omega), if_neg (by omega), if_neg, loaded, writesCons,
          storeAll, some]
        · rw [ih (by omega) later]
          rfl
        · rintro (beyond | ⟨null, full⟩)
          · omega
          · exact full (here (by simp [some]) null)

theorem unpackAttrsDelivers (packed : Packed out blen items) {address : Nat} (aligned : address % 4 = 0)
    {attrs : List Attribute} (ready : List.Forall₂ Ready attrs items) (mem : Memory) :
    unpackAttrs m out address blen attrs mem =
      .ok (none, List.zipWith filled attrs items, storeAll (writes attrs items) mem) := by
  have room := packed.room
  have small := packed.small
  have above := bitsAbove m
  have headers : wrap m.bits (items.length * 12) = items.length * 12 := wrapSmall (by omega)
  rw [unpackAttrs, if_neg (by omega), if_neg (by omega), packed.counted]
  exact (if_neg (by rw [headers]; omega)).trans
    (@unpackClientLoopDelivers m out blen items packed items.length 0 (Nat.add_zero _) attrs ready mem)

end

end Flexbuild.SecureObjects
