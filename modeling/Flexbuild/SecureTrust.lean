import Flexbuild.SecureUnpacking

/-! What the trusted application takes from bytes it does not trust. The bytes are safe
exactly when one of its checks rejects them, or when no sum and no product of the checks
leaves the machine word and every value that is read has its four bytes. -/
namespace Flexbuild.SecureObjects
open ByteMemory Words

structure Header where
  type : BitVec 32
  offset : Nat
  length : Nat
  deriving DecidableEq, Repr

def header (mem : Memory) (buf n : Nat) : Header :=
  let ap := buf + 4 + 12 * n
  ⟨loadWord mem ap, (loadWord mem (ap + 4)).toNat,
    ((loadWord mem (ap + 8)).setWidth 16 : BitVec 16).toNat⟩

def Header.Refused (m : Machine) (blen : Nat) (h : Header) : Prop :=
  h.offset ≠ 0 ∧ blen < wrap m.bits (h.offset + h.length)

instance (m : Machine) (blen : Nat) (h : Header) : Decidable (h.Refused m blen) :=
  inferInstanceAs (Decidable (_ ∧ _))

def Header.Null (m : Machine) (buf : Nat) (h : Header) : Prop :=
  h.offset = 0 ∨ h.offset + buf = 2 ^ m.bits

def Header.Exact (m : Machine) (buf : Nat) (h : Header) : Prop :=
  h.Null m buf ∨ h.offset + h.length < 2 ^ m.bits

def Sized (m : Machine) (mem : Memory) (buf count : Nat) (type : BitVec 32) (next : BitVec 32 → Prop) : Prop :=
  ∀ n < count, (header mem buf n).type = type → (∀ k < n, (header mem buf k).type ≠ type) →
    ¬ (header mem buf n).Null m buf ∧ 4 ≤ (header mem buf n).length ∧
      next (loadWord mem (buf + (header mem buf n).offset))

def Typed (m : Machine) (mem : Memory) (buf count : Nat) : Prop :=
  Sized m mem buf count skAttrObjectType fun object => object = skKeyPair ∨ object = skPublicKey →
    Sized m mem buf count skAttrKeyType fun key => key = skkRsa →
      Sized m mem buf count skAttrModulusBits fun _ => True

def Fits (m : Machine) (blen alloc n : Nat) : Prop :=
  4 + 12 * (n + 1) ≤ blen ∧ m.attributeSize * (n + 1) ≤ alloc

instance (m : Machine) (blen alloc n : Nat) : Decidable (Fits m blen alloc n) :=
  inferInstanceAs (Decidable (_ ∧ _))

def Rejected (m : Machine) (mem : Memory) (buf blen count : Nat) : Prop :=
  blen = 0 ∨ buf % 4 ≠ 0 ∨ blen < 4 ∨ blen - 4 < wrap m.bits (count * 12) ∨
    ∃ n < count, Fits m blen (wrap m.bits (count * m.attributeSize)) n ∧ (header mem buf n).Refused m blen

def Harmless (m : Machine) (mem : Memory) (buf blen : Nat) : Prop :=
  let count := (loadWord mem buf).toNat
  Rejected m mem buf blen count ∨
    count * 12 < 2 ^ m.bits ∧ (∀ n < count, (header mem buf n).Exact m buf) ∧ Typed m mem buf count

def Inside (buf blen : Nat) (x : Attribute) : Prop :=
  x.value = 0 ∨ buf ≤ x.value ∧ x.value + x.valueLen.toNat ≤ buf + blen

def Read.Bounded (r : Read) : Prop := r.through.value ≠ 0 ∧ r.bytes ≤ r.through.valueLen.toNat

def Safe (m : Machine) (mem : Memory) (buf blen : Nat) : Prop :=
  match unpackSkAttrs m mem buf blen with
  | .error .fault => False
  | .error (.status _) => True
  | .ok attrs => (∀ x ∈ attrs, Inside buf blen x) ∧
      ∀ r ∈ (taGetTeeObjectTypeAndAttr mem attrs).1, r.Bounded

def Header.unpacked (m : Machine) (buf : Nat) (h : Header) : Attribute :=
  ⟨h.type, if h.offset = 0 then 0 else wrap m.bits (h.offset + buf), BitVec.ofNat 16 h.length⟩

section
variable {m : Machine} {mem : Memory} {buf blen alloc count : Nat} {h : Header}

theorem headerLength (n : Nat) : BitVec.ofNat 16 (header mem buf n).length =
    (loadWord mem (buf + 4 + 12 * n + 8)).setWidth 16 := BitVec.ofNat_toNat _ _

theorem unpackLoopStep (left n : Nat) : unpackLoop m mem buf blen alloc (left + 1) n =
    if Fits m blen alloc n then
      if (header mem buf n).Refused m blen then .error (.status .badParameters)
      else unpackLoop m mem buf blen alloc left (n + 1) >>= fun rest =>
        .ok ((header mem buf n).unpacked m buf :: rest)
    else .error .fault := by
  rw [unpackLoop]
  by_cases fits : Fits m blen alloc n
  · rw [if_pos fits, if_neg (by unfold Fits at fits; omega)]
    unfold Header.unpacked
    rw [headerLength]
    rfl
  · rw [if_neg fits, if_pos (by unfold Fits at fits; omega)]

theorem Fits.earlier {n k : Nat} (fits : Fits m blen alloc n) (le : k ≤ n) : Fits m blen alloc k := by
  refine ⟨?_, (Nat.mul_le_mul_left _ (Nat.succ_le_succ le)).trans fits.2⟩
  have := fits.1
  omega

-- Induction on the headers that are left: all are taken, or one is refused, or one does
-- not fit.
theorem unpackLoopOutcome (left n : Nat) :
    match unpackLoop m mem buf blen alloc left n with
    | .ok attrs => attrs = (List.range' n left).map (fun k => (header mem buf k).unpacked m buf) ∧
        ∀ k, n ≤ k → k < n + left → Fits m blen alloc k ∧ ¬ (header mem buf k).Refused m blen
    | .error (.status _) => ∃ k, n ≤ k ∧ k < n + left ∧ Fits m blen alloc k ∧ (header mem buf k).Refused m blen
    | .error .fault => ∃ k, n ≤ k ∧ k < n + left ∧ ¬ Fits m blen alloc k ∧
        ∀ i, n ≤ i → i < k → ¬ (header mem buf i).Refused m blen := by
  induction left generalizing n with
  | zero => exact ⟨rfl, fun k low high => absurd high (by omega)⟩
  | succ left ih =>
    rw [unpackLoopStep]
    by_cases fits : Fits m blen alloc n
    · rw [if_pos fits]
      by_cases refused : (header mem buf n).Refused m blen
      · rw [if_pos refused]
        exact ⟨n, le_rfl, by omega, fits, refused⟩
      · rw [if_neg refused]
        have rest := ih (n + 1)
        cases run : unpackLoop m mem buf blen alloc left (n + 1) with
        | ok attrs =>
          rw [run] at rest
          obtain ⟨same, all⟩ := rest
          refine ⟨by rw [same, List.range'_succ, List.map_cons], fun k low high => ?_⟩
          rcases Nat.eq_or_lt_of_le low with rfl | later
          · exact ⟨fits, refused⟩
          · exact all k later (by omega)
        | error failure =>
          rw [run] at rest
          cases failure with
          | fault =>
            obtain ⟨k, low, high, outside, before⟩ := rest
            refine ⟨k, by omega, by omega, outside, fun i low' high' => ?_⟩
            rcases Nat.eq_or_lt_of_le low' with rfl | later
            · exact refused
            · exact before i later high'
          | status code =>
            obtain ⟨k, low, high, found⟩ := rest
            exact ⟨k, by omega, by omega, found⟩
    · rw [if_neg fits]
      exact ⟨n, le_rfl, by omega, fits, fun i low high => absurd high (by omega)⟩

theorem unpackedLength (n : Nat) :
    ((header mem buf n).unpacked m buf).valueLen.toNat = (header mem buf n).length := by
  change (BitVec.ofNat 16 (header mem buf n).length).toNat = _
  rw [headerLength]
  rfl

theorem headerOffset (m : Machine) (mem : Memory) (buf n : Nat) : (header mem buf n).offset < 2 ^ m.bits :=
  (loadWord mem (buf + 4 + 12 * n + 4)).isLt.trans_le (bitsAbove m)

theorem unpackedNull (high : buf + blen < 2 ^ m.bits) (n : Nat) :
    ((header mem buf n).unpacked m buf).value = 0 ↔ (header mem buf n).Null m buf := by
  have small := headerOffset m mem buf n
  generalize header mem buf n = h at *
  unfold Header.Null
  by_cases zero : h.offset = 0
  · simp [zero, Header.unpacked]
  · have value : (h.unpacked m buf).value = (h.offset + buf) % 2 ^ m.bits := if_neg zero
    rw [value, or_iff_right zero]
    rcases Nat.lt_trichotomy (h.offset + buf) (2 ^ m.bits) with less | same | more
    · rw [Nat.mod_eq_of_lt less]
      omega
    · rw [same, Nat.mod_self]
      simp
    · rw [Nat.mod_eq_sub_mod more.le, Nat.mod_eq_of_lt (by omega)]
      omega

theorem insideExact (high : buf + blen < 2 ^ m.bits) {n : Nat} (passed : ¬ (header mem buf n).Refused m blen) :
    Inside buf blen ((header mem buf n).unpacked m buf) ↔ (header mem buf n).Exact m buf := by
  have null := @unpackedNull m mem buf blen high n
  have length := @unpackedLength m mem buf n
  have small := headerOffset m mem buf n
  unfold Inside Header.Exact
  rw [null, length]
  refine or_congr_right' fun full => ?_
  generalize header mem buf n = h at *
  unfold Header.Null at full
  push Not at full
  obtain ⟨some, other⟩ := full
  have value : (h.unpacked m buf).value = wrap m.bits (h.offset + buf) := if_neg some
  rw [value]
  unfold Header.Refused wrap at *
  have passed : (h.offset + h.length) % 2 ^ m.bits ≤ blen := by
    by_contra beyond
    exact passed ⟨some, by omega⟩
  constructor
  · rintro ⟨above, below⟩
    rcases Nat.lt_or_ge (h.offset + buf) (2 ^ m.bits) with less | more
    · rw [Nat.mod_eq_of_lt less] at below
      omega
    · rw [Nat.mod_eq_sub_mod more, Nat.mod_eq_of_lt (by omega)] at above
      omega
  · intro exact
    rw [Nat.mod_eq_of_lt exact] at passed
    rw [Nat.mod_eq_of_lt (by omega)]
    omega

def SizedAttr (mem : Memory) (attrs : List Attribute) (type : BitVec 32) (next : BitVec 32 → Prop) : Prop :=
  ∀ x, taGetSkAttr type attrs = some x → x.value ≠ 0 ∧ 4 ≤ x.valueLen.toNat ∧ next (loadWord mem x.value)

theorem rsaReads (attrs : List Attribute) (type : TeeObjectType) (places : List (BitVec 32 × TeeAttributeId)) :
    (∀ r ∈ (getRsaObject mem attrs type places).1, r.Bounded) ↔
      SizedAttr mem attrs skAttrModulusBits fun _ => True := by
  unfold getRsaObject SizedAttr
  cases taGetSkAttr skAttrModulusBits attrs with
  | none => simp
  | some size => simp [Read.Bounded]

theorem keyReads (attrs : List Attribute) (type : TeeObjectType) (places : List (BitVec 32 × TeeAttributeId)) :
    (∀ r ∈ (getKeyObject mem attrs type places).1, r.Bounded) ↔
      SizedAttr mem attrs skAttrKeyType fun key => key = skkRsa →
        SizedAttr mem attrs skAttrModulusBits fun _ => True := by
  have rest := @rsaReads mem attrs type places
  unfold getKeyObject SizedAttr
  cases taGetSkAttr skAttrKeyType attrs with
  | none => simp
  | some key =>
    by_cases rsa : loadWord mem key.value = skkRsa
    · simp only [if_pos rsa, List.forall_mem_cons, rest]
      simp [Read.Bounded, SizedAttr, rsa, and_assoc]
    · simp [Read.Bounded, rsa]

theorem objectReads (attrs : List Attribute) :
    (∀ r ∈ (taGetTeeObjectTypeAndAttr mem attrs).1, r.Bounded) ↔
      SizedAttr mem attrs skAttrObjectType fun object => object = skKeyPair ∨ object = skPublicKey →
        SizedAttr mem attrs skAttrKeyType fun key => key = skkRsa →
          SizedAttr mem attrs skAttrModulusBits fun _ => True := by
  have rest := @keyReads mem attrs
  unfold taGetTeeObjectTypeAndAttr SizedAttr
  cases taGetSkAttr skAttrObjectType attrs with
  | none => simp
  | some object =>
    by_cases pair : loadWord mem object.value = skKeyPair
    · simp only [if_pos pair, List.forall_mem_cons, rest]
      simp [Read.Bounded, SizedAttr, pair, and_assoc]
    · by_cases key : loadWord mem object.value = skPublicKey
      · simp only [if_neg pair, if_pos key, List.forall_mem_cons, rest]
        simp [Read.Bounded, SizedAttr, key, and_assoc]
      · simp [Read.Bounded, pair, key]

structure Accepted (m : Machine) (mem : Memory) (buf blen count : Nat) : Prop where
  high : buf + blen < 2 ^ m.bits
  passed : ∀ n < count, ¬ (header mem buf n).Refused m blen
  exact : ∀ n < count, (header mem buf n).Exact m buf

def unpackedAttrs (m : Machine) (mem : Memory) (buf count : Nat) : List Attribute :=
  (List.range count).map fun n => (header mem buf n).unpacked m buf

theorem unpackSkAttrsHeaders {l : List Attribute} (some : blen ≠ 0) (done : unpackSkAttrs m mem buf blen = .ok l) :
    l = unpackedAttrs m mem buf (loadWord mem buf).toNat := by
  rw [unpackSkAttrs, if_neg some] at done
  split at done
  · cases done
  · have outcome := @unpackLoopOutcome m mem buf blen
      (wrap m.bits ((loadWord mem buf).toNat * m.attributeSize)) (loadWord mem buf).toNat 0
    by_cases counted : blen - 4 < wrap m.bits ((loadWord mem buf).toNat * 12)
    · simp only [if_pos counted] at done
      cases done
    · simp only [if_neg counted] at done
      rw [done] at outcome
      rw [outcome.1, unpackedAttrs, List.range_eq_range']

theorem Accepted.value (accepted : Accepted m mem buf blen count) {n : Nat} (less : n < count)
    (full : ¬ (header mem buf n).Null m buf) :
    ((header mem buf n).unpacked m buf).value = buf + (header mem buf n).offset := by
  have passed := accepted.passed n less
  have sum := (accepted.exact n less).resolve_left full
  have high := accepted.high
  have some : (header mem buf n).offset ≠ 0 := fun zero => full (.inl zero)
  have value : ((header mem buf n).unpacked m buf).value = wrap m.bits ((header mem buf n).offset + buf) := if_neg some
  rw [Header.Refused, wrapSmall sum] at passed
  rw [value, wrapSmall (by omega), Nat.add_comm]

theorem foundFirst {type : BitVec 32} {x : Attribute} :
    taGetSkAttr type (unpackedAttrs m mem buf count) = some x ↔ ∃ n < count,
      x = (header mem buf n).unpacked m buf ∧ (header mem buf n).type = type ∧
        ∀ k < n, (header mem buf k).type ≠ type := by
  rw [taGetSkAttr, List.find?_eq_some_iff_getElem]
  simp only [unpackedAttrs, List.getElem_map, List.getElem_range, List.length_map, List.length_range]
  constructor
  · rintro ⟨here, n, less, rfl, before⟩
    exact ⟨n, less, rfl, of_decide_eq_true here, fun k below same => by simpa [Header.unpacked, same] using before k below⟩
  · rintro ⟨n, less, rfl, here, before⟩
    exact ⟨decide_eq_true here, n, less, rfl, fun k below => by simp [Header.unpacked, before k below]⟩

theorem Accepted.sized (accepted : Accepted m mem buf blen count) (type : BitVec 32) (next : BitVec 32 → Prop) :
    SizedAttr mem (unpackedAttrs m mem buf count) type next ↔ Sized m mem buf count type next := by
  constructor
  · intro sized n less here before
    obtain ⟨full, long, meets⟩ := sized _ (foundFirst.mpr ⟨n, less, rfl, here, before⟩)
    rw [Ne, unpackedNull accepted.high] at full
    rw [accepted.value less full] at meets
    exact ⟨full, unpackedLength (m := m) n ▸ long, meets⟩
  · intro sized x found
    obtain ⟨n, less, rfl, here, before⟩ := foundFirst.mp found
    obtain ⟨full, long, meets⟩ := sized n less here before
    rw [unpackedLength, Ne, unpackedNull accepted.high, accepted.value less full]
    exact ⟨full, long, meets⟩

theorem Accepted.typed (accepted : Accepted m mem buf blen count) :
    (∀ r ∈ (taGetTeeObjectTypeAndAttr mem (unpackedAttrs m mem buf count)).1, r.Bounded) ↔
      Typed m mem buf count := by
  rw [objectReads]
  unfold Typed
  simp only [accepted.sized]

theorem fitsAll (room : 4 ≤ blen) (counted : ¬ blen - 4 < wrap m.bits (count * 12)) (small : count * 12 < 2 ^ m.bits)
    (word : count < 2 ^ 32) {n : Nat} (less : n < count) : Fits m blen (wrap m.bits (count * m.attributeSize)) n := by
  rw [wrapSmall small] at counted
  have whole : count * m.attributeSize < 2 ^ m.bits := by
    cases m with
    | narrow => exact small
    | wide =>
      change count * 24 < 2 ^ 64
      omega
  rw [wrapSmall whole, Fits, Nat.mul_comm count]
  exact ⟨by omega, Nat.mul_le_mul_left _ less⟩

theorem fitsNotAll (high : blen < 2 ^ m.bits) (large : ¬ count * 12 < 2 ^ m.bits) : ¬ Fits m blen (wrap m.bits (count * m.attributeSize)) (count - 1) := by
  intro fits
  have := fits.1
  omega

end

theorem attributesTrusted {m : Machine} {mem : Memory} {buf blen : Nat} (high : buf + blen < 2 ^ m.bits) :
    Safe m mem buf blen ↔ Harmless m mem buf blen := by
  have word : (loadWord mem buf).toNat < 2 ^ 32 := (loadWord mem buf).isLt
  unfold Safe Harmless unpackSkAttrs
  generalize (loadWord mem buf).toNat = count at *
  simp only
  by_cases none : blen = 0
  · rw [if_pos none]
    exact iff_of_true ⟨nofun, nofun⟩ (.inl (.inl none))
  rw [if_neg none]
  by_cases form : buf % 4 ≠ 0 ∨ blen < 4
  · rw [if_pos form]
    exact iff_of_true trivial (.inl (form.elim (fun odd => .inr (.inl odd)) fun short => .inr (.inr (.inl short))))
  rw [if_neg form]
  by_cases counted : blen - 4 < wrap m.bits (count * 12)
  · rw [if_pos counted]
    exact iff_of_true trivial (.inl (.inr (.inr (.inr (.inl counted)))))
  rw [if_neg counted]
  have outcome := @unpackLoopOutcome m mem buf blen (wrap m.bits (count * m.attributeSize)) count 0
  rw [Nat.zero_add] at outcome
  have rejected (yes : Rejected m mem buf blen count) :
      ∃ n < count, Fits m blen (wrap m.bits (count * m.attributeSize)) n ∧ (header mem buf n).Refused m blen := by
    rcases yes with zero | odd | short | less | found
    · exact absurd zero none
    · exact absurd (.inl odd) form
    · exact absurd (.inr short) form
    · exact absurd less counted
    · exact found
  have fits (small : count * 12 < 2 ^ m.bits) (n : Nat) (less : n < count) :=
    fitsAll (by omega) counted small word less
  cases run : unpackLoop m mem buf blen (wrap m.bits (count * m.attributeSize)) count 0 with
  | error failure =>
    rw [run] at outcome
    cases failure with
    | status code =>
      obtain ⟨k, -, less, fit, refused⟩ := outcome
      exact iff_of_true trivial (.inl (.inr (.inr (.inr (.inr ⟨k, less, fit, refused⟩)))))
    | fault =>
      obtain ⟨k, -, less, outside, before⟩ := outcome
      refine iff_of_false id ?_
      rintro (yes | ⟨small, -⟩)
      · obtain ⟨n, _, fit, refused⟩ := rejected yes
        rcases Nat.lt_or_ge n k with earlier | later
        · exact before n (Nat.zero_le n) earlier refused
        · exact outside (fit.earlier later)
      · exact outside (fits small k less)
  | ok attrs =>
    rw [run] at outcome
    obtain ⟨same, all⟩ := outcome
    have passed (n : Nat) (less : n < count) := (all n (Nat.zero_le n) less).2
    have small : count * 12 < 2 ^ m.bits := by
      by_contra large
      have some : 0 < count := by omega
      exact fitsNotAll (by omega) large (all (count - 1) (Nat.zero_le _) (by omega)).1
    have never : ¬ Rejected m mem buf blen count := fun yes => by
      obtain ⟨n, less, -, refused⟩ := rejected yes
      exact passed n less refused
    rw [or_iff_right never, and_iff_right small]
    have attrsSame : attrs = unpackedAttrs m mem buf count := by rw [same, ← List.range_eq_range', unpackedAttrs]
    have inside : (∀ x ∈ attrs, Inside buf blen x) ↔ ∀ n < count, (header mem buf n).Exact m buf := by
      rw [attrsSame]
      constructor
      · intro inside n less
        exact (insideExact high (passed n less)).mp (inside _ (List.mem_map.mpr ⟨n, List.mem_range.mpr less, rfl⟩))
      · intro exact x member
        obtain ⟨n, range, rfl⟩ := List.mem_map.mp member
        exact (insideExact high (passed n (List.mem_range.mp range))).mpr (exact n (List.mem_range.mp range))
    change (_ ∧ _) ↔ _
    rw [inside]
    refine and_congr_right fun exact => ?_
    rw [attrsSame]
    exact (Accepted.mk high passed exact).typed

def sent (words : List (BitVec 32)) : Memory := store (fun _ => 0) 0x10000 (words.flatMap wordBytes)

def keyPairSent : Memory := sent [3, skAttrObjectType, 40, 4, skAttrKeyType, 44, 4, skAttrModulusBits, 48, 4,
  skKeyPair, skkRsa, 2048]

theorem attributesTrustedExample : Safe .narrow keyPairSent 0x10000 52 ↔ Harmless .narrow keyPairSent 0x10000 52 :=
  attributesTrusted (by decide)

theorem attributesEscape : ¬ Safe .narrow (sent [1, skAttrModulus, 0xFFFFFFF0, 0x10]) 0x10000 16 ∧
    ¬ Safe .wide (sent [1, skAttrObjectType, 0, 0]) 0x10000 16 := by
  have below : unpackSkAttrs .narrow (sent [1, skAttrModulus, 0xFFFFFFF0, 0x10]) 0x10000 16 =
      .ok [⟨skAttrModulus, 0xFFF0, 16⟩] := by decide
  have null : unpackSkAttrs .wide (sent [1, skAttrObjectType, 0, 0]) 0x10000 16 =
      .ok [⟨skAttrObjectType, 0, 0⟩] := by decide
  unfold Safe
  rw [below, null]
  constructor
  · intro safe
    have := safe.1 _ (List.mem_singleton_self _)
    unfold Inside at this
    simp at this
  · intro safe
    have := safe.2 ⟨⟨skAttrObjectType, 0, 0⟩, 4⟩ (by simp [taGetTeeObjectTypeAndAttr, taGetSkAttr])
    exact this.1 rfl

end Flexbuild.SecureObjects
