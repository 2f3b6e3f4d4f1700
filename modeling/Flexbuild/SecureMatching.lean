import Flexbuild.SecureCrossing
import Flexbuild.SecureTrust

/-! The trusted application answers a request for the attributes of an object. What it
unpacks from the stored bytes are the attributes that were stored, and what it unpacks
from the request leaves room for the answer, value after value. -/
namespace Flexbuild.SecureObjects
open ByteMemory Words Results

def stored (objAttrs : List Attribute) (type : BitVec 32) : Option Attribute :=
  taGetSkAttr type (objAttrs.filter keeps)

structure Kept (source : Memory) (objAttrs : List Attribute) (data : Memory) (dataLen : Nat) : Prop where
  some : objAttrs ≠ []
  valued : Valued objAttrs
  first : StoredFirst objAttrs
  positive : Positive objAttrs
  fits : packedSize objAttrs < 2 ^ 32
  packed : packSkAttrs source objAttrs = .ok (data, dataLen)

def patched (objs : List Attribute) (x : Attribute) : Attribute :=
  match taGetSkAttr x.type objs with
  | none => x
  | some y =>
    if x.value = 0 then { x with valueLen := y.valueLen }
    else if x.valueLen.toNat < y.valueLen.toNat then { x with valueLen := -1 }
    else { x with valueLen := y.valueLen }

def copied (data : Memory) (objs : List Attribute) (x : Attribute) : Nat × List Byte :=
  (x.value, match taGetSkAttr x.type objs with
    | none => []
    | some y =>
      if x.value = 0 ∨ x.valueLen.toNat < y.valueLen.toNat then [] else load data y.value y.valueLen.toNat)

def Unmatched (objs : List Attribute) (x : Attribute) : Prop :=
  match taGetSkAttr x.type objs with
  | none => True
  | some y => x.value ≠ 0 ∧ x.valueLen.toNat < y.valueLen.toNat

section
variable {m : Machine} {data mem source client : Memory} {objs objAttrs attrs : List Attribute}

theorem matchAttrsRun (sound : ∀ y ∈ objs, y.value = 0 → y.valueLen = 0) (l : List Attribute) (mem : Memory)
    (resAttr : Option Status) : ∃ res, matchAttrs data objs l mem resAttr =
      .ok (l.map (patched objs), storeAll (l.map (copied data objs)) mem, res) ∧
      (res = none ↔ resAttr = none ∧ ∀ x ∈ l, ¬ Unmatched objs x) := by
  induction l generalizing mem resAttr with
  | nil => exact ⟨resAttr, rfl, by simp⟩
  | cons x rest ih =>
    rw [matchAttrs, List.map_cons, List.map_cons, storeAll]
    simp only [List.forall_mem_cons]
    cases found : taGetSkAttr x.type objs with
    | none =>
      obtain ⟨res, run, none⟩ := ih mem (some .badParameters)
      have here : patched objs x = x := by simp [patched, found]
      have nothing : (copied data objs x).2 = [] := by simp [copied, found]
      refine ⟨res, ?_, by simp [none, Unmatched, found]⟩
      rw [here, nothing, storeNone]
      simp only [run]
      rfl
    | some y =>
      by_cases null : x.value = 0
      · obtain ⟨res, run, none⟩ := ih mem resAttr
        have here : patched objs x = { x with valueLen := y.valueLen } := by simp [patched, found, null]
        have nothing : (copied data objs x).2 = [] := by simp [copied, found, null]
        refine ⟨res, ?_, by simp [none, Unmatched, found, null]⟩
        rw [here, nothing, storeNone]
        simp only [if_pos null, run]
        rfl
      · by_cases short : x.valueLen.toNat < y.valueLen.toNat
        · obtain ⟨res, run, none⟩ := ih mem (some .shortBuffer)
          have here : patched objs x = { x with valueLen := -1 } := by simp [patched, found, null, short]
          have nothing : (copied data objs x).2 = [] := by simp [copied, found, short]
          refine ⟨res, ?_, by simp [none, Unmatched, found, null, short]⟩
          rw [here, nothing, storeNone]
          simp only [if_neg null, if_pos short, run]
          rfl
        · obtain ⟨res, run, none⟩ := ih (store mem x.value (load data y.value y.valueLen.toNat)) resAttr
          have here : patched objs x = { x with valueLen := y.valueLen } := by simp [patched, found, null, short]
          have bytes : copied data objs x = (x.value, load data y.value y.valueLen.toNat) := by
            simp [copied, found, null, short]
          have valued : ¬ (y.value = 0 ∧ y.valueLen ≠ 0) := fun both =>
            both.2 (sound y (List.mem_of_find?_eq_some found) both.1)
          refine ⟨res, ?_, by simp [none, Unmatched, found, Nat.le_of_not_lt short]⟩
          rw [here, bytes]
          simp only [if_neg null, if_neg short, if_neg valued, run]
          rfl

structure SameValue (data source : Memory) (x y : Attribute) : Prop where
  type : x.type = y.type
  length : x.valueLen = y.valueLen
  small : x.valueLen.toNat < 2 ^ 15
  null : x.value = 0 → x.valueLen = 0
  bytes : load data x.value x.valueLen.toNat = load source y.value x.valueLen.toNat

theorem foundRelated {R : Attribute → Attribute → Prop} {l l' : List Attribute} (related : List.Forall₂ R l l')
    (types : ∀ x y, R x y → x.type = y.type) (type : BitVec 32) :
    (taGetSkAttr type l = none ∧ taGetSkAttr type l' = none) ∨
      ∃ x y, taGetSkAttr type l = some x ∧ taGetSkAttr type l' = some y ∧ R x y := by
  induction related with
  | nil => exact .inl ⟨rfl, rfl⟩
  | @cons x y rest rest' here _ ih =>
    by_cases same : x.type = type
    · exact .inr ⟨x, y, List.find?_cons_of_pos (by simp [same]),
        List.find?_cons_of_pos (by simp [← types x y here, same]), here⟩
    · have skip : taGetSkAttr type (x :: rest) = taGetSkAttr type rest := List.find?_cons_of_neg (by simp [same])
      have skip' : taGetSkAttr type (y :: rest') = taGetSkAttr type rest' :=
        List.find?_cons_of_neg (by simp [← types x y here, same])
      rw [skip, skip']
      exact ih

variable {dataLen heap buf address : Nat} {out : Memory}

theorem Kept.unpacked (kept : Kept source objAttrs data dataLen) (aligned : heap % 4 = 0)
    (high : heap + dataLen < 2 ^ m.bits) :
    4 ≤ dataLen ∧ ∃ objs, unpackSkAttrs m (placed heap data) heap dataLen = .ok objs ∧
      List.Forall₂ (SameValue (placed heap data) source) objs (objAttrs.filter keeps) := by
  obtain ⟨some, valued, first, positive, fits, packed⟩ := kept
  obtain ⟨data', packed', whole⟩ := @packSkAttrsPacked source objAttrs some first fits
  obtain ⟨rfl, rfl⟩ := Prod.mk.inj (Except.ok.inj (packed.symm.trans packed'))
  have shared (i : Nat) (_ : i < packedSize objAttrs) : placed heap data (heap + i) = data i :=
    congrArg data (Nat.add_sub_cancel_left heap i)
  obtain ⟨objs, unpacked, carried⟩ := unpackSkAttrsCarries whole shared aligned high
  refine ⟨(Nat.le_add_right _ _).trans whole.room, objs, unpacked, ?_⟩
  rw [List.forall₂_map_right_iff] at carried
  obtain ⟨long, each⟩ := List.forall₂_iff_get.mp carried
  refine List.forall₂_iff_get.mpr ⟨long, fun j inside inside' => ?_⟩
  obtain ⟨type, length, value⟩ := each j inside inside'
  have member := List.get_mem (objAttrs.filter keeps) ⟨j, inside'⟩
  generalize objs.get ⟨j, inside⟩ = x at *
  generalize (objAttrs.filter keeps).get ⟨j, inside'⟩ = y at *
  obtain ⟨member, kind⟩ := List.mem_filter.mp member
  have small := positive y member kind
  change x.valueLen = y.valueLen at length
  have null := valued y member
  unfold Attribute.item at value
  cases empty : unvalued y with
  | true =>
    have zero : y.valueLen = 0 := ((unvaluedIff small).mp empty).elim id null
    exact ⟨type, length, length ▸ small, fun _ => length.trans zero, by rw [length, zero]; rfl⟩
  | false =>
    simp only [empty, Bool.false_eq_true, if_false] at value
    obtain ⟨-, above, -, loaded⟩ := value
    rw [loadLength] at loaded
    exact ⟨type, length, length ▸ small, fun zero => absurd zero (by omega), by rw [length]; exact loaded⟩

structure Asked (buf blen : Nat) (x y : Attribute) : Prop where
  type : x.type = y.type
  length : x.valueLen = y.valueLen
  null : x.value = 0 ↔ y.valueLen = 0

def Before (x y : Attribute) : Prop := x.value ≠ 0 → y.value ≠ 0 → x.value + x.valueLen.toNat ≤ y.value

theorem requestUnpacked (packed : Packed out dataLen (attrs.map fun x => x.item client plain))
    (aligned : buf % 4 = 0) (high : buf + dataLen < 2 ^ m.bits) :
    ∃ l, unpackSkAttrs m (placed buf out) buf dataLen = .ok l ∧ List.Forall₂ (Asked buf dataLen) l attrs ∧
      l.Pairwise Before := by
  have shared (i : Nat) (_ : i < dataLen) : placed buf out (buf + i) = out i :=
    congrArg out (Nat.add_sub_cancel_left buf i)
  obtain ⟨l, unpacked, carried⟩ := unpackSkAttrsCarries packed shared aligned high
  refine ⟨l, unpacked, ?_, ?_⟩
  · rw [List.forall₂_map_right_iff] at carried
    refine carried.imp fun x y here => ?_
    obtain ⟨type, length, value⟩ := here
    refine ⟨type, length, ?_⟩
    unfold Attribute.item plain at value
    by_cases zero : y.valueLen = 0
    · simp only [zero, decide_true, if_true] at value
      exact iff_of_true value zero
    · simp only [zero, decide_false, Bool.false_eq_true, if_false] at value
      exact iff_of_false (by omega) zero
  · have room := packed.room
    have listed := unpackSkAttrsHeaders (by omega) unpacked
    generalize (attrs.map fun x => x.item client plain) = items at *
    obtain ⟨long, each⟩ := List.forall₂_iff_get.mp carried
    have place (j : Nat) (inside : j < l.length) (full : l[j].value ≠ 0) :
        (∃ inside' : j < items.length, items[j].bytes ≠ none ∧ items[j].valueLen = l[j].valueLen) ∧
        l[j].value = (loadWord out (4 + 12 * j + 4)).toNat + buf := by
      have inside' : j < items.length := long ▸ inside
      obtain ⟨-, length, value⟩ := each j inside inside'
      rw [List.get_eq_getElem, List.get_eq_getElem] at length value
      have offset : (header (placed buf out) buf j).offset = (loadWord out (4 + 12 * j + 4)).toNat := by
        change (loadWord (placed buf out) (buf + 4 + 12 * j + 4)).toNat = _
        rw [Nat.add_assoc buf, Nat.add_assoc buf, sharedWord shared (by omega)]
      have unpack : l[j] = (header (placed buf out) buf j).unpacked m buf := by
        simp only [listed, unpackedAttrs, List.getElem_map, List.getElem_range]
      rcases (packed.slots j inside').value packed.small with ⟨none, zero⟩ | ⟨bytes, p, some, _, here, _, below, _⟩
      · rw [none] at value
        exact absurd value full
      · refine ⟨⟨inside', by simp [some], length.symm⟩, ?_⟩
        have nonzero : (header (placed buf out) buf j).offset ≠ 0 := by omega
        rw [unpack]
        change (if _ then 0 else _) = _
        rw [if_neg nonzero, offset, here, wrapSmall (by omega)]
    refine List.pairwise_iff_getElem.mpr fun i j insideI insideJ less fullI fullJ => ?_
    obtain ⟨⟨_, bytesI, lengthI⟩, valueI⟩ := place i insideI fullI
    obtain ⟨⟨hereJ, bytesJ, -⟩, valueJ⟩ := place j insideJ fullJ
    have ordered := packed.ordered i j less hereJ bytesI bytesJ
    rw [lengthI] at ordered
    omega

theorem patchedKeeps (objs : List Attribute) (x : Attribute) :
    (patched objs x).type = x.type ∧ (patched objs x).value = x.value := by
  unfold patched
  split
  · exact ⟨rfl, rfl⟩
  · split
    · exact ⟨rfl, rfl⟩
    · split <;> exact ⟨rfl, rfl⟩

theorem storedFirstTypes (l : List Attribute) :
    StoredFirst l ↔ (l.map Attribute.type).Pairwise fun s t => storedType t = true → storedType s = true := by
  rw [List.pairwise_map]
  rfl

theorem patchedSpace {x y : Attribute} (asked : Asked buf dataLen x y) :
    (if keeps (patched objs x) then 12 + (if unvalued (patched objs x) then 0 else roundup (patched objs x).valueLen)
      else 0) ≤ 12 + (if y.valueLen = 0 then 0 else roundup y.valueLen) := by
  have mono {v w : BitVec 16} (le : v.toNat ≤ w.toNat) : roundup v ≤ roundup w := by
    obtain ⟨lowV, highV, wholeV⟩ := roundupBounds v
    obtain ⟨lowW, highW, wholeW⟩ := roundupBounds w
    omega
  have bound : (if unvalued (patched objs x) then 0 else roundup (patched objs x).valueLen) ≤
      if y.valueLen = 0 then 0 else roundup y.valueLen := by
    by_cases empty : unvalued (patched objs x) = true
    · rw [if_pos empty]
      exact Nat.zero_le _
    · rw [if_neg empty]
      rw [unvalued, decide_eq_true_iff, not_or, (patchedKeeps objs x).2, asked.null] at empty
      obtain ⟨positive, full⟩ := empty
      rw [if_neg full]
      refine mono ?_
      have value : x.value ≠ 0 := fun null => full (asked.null.mp null)
      rw [← asked.length]
      unfold patched at positive ⊢
      split at positive
      · exact le_rfl
      · rw [if_neg value] at positive ⊢
        split at positive
        · exact absurd (show (-1 : BitVec 16).toInt ≤ 0 by decide) positive
        · rw [if_neg ‹_›]
          exact Nat.le_of_not_lt ‹_›
  split
  · omega
  · omega

theorem patchedSize {l : List Attribute} (asked : List.Forall₂ (Asked buf dataLen) l attrs) :
    packedSize (l.map (patched objs)) ≤ getAttrSize attrs := by
  have sums : ((l.map (patched objs)).map fun x =>
      if keeps x then 12 + (if unvalued x then 0 else roundup x.valueLen) else 0).sum ≤
      12 * attrs.length + (attrs.map fun x => if x.valueLen = 0 then 0 else roundup x.valueLen).sum := by
    induction asked with
    | nil => exact Nat.zero_le _
    | cons here _ ih =>
      have first := @patchedSpace objs _ _ _ _ here
      simp only [List.map_cons, List.sum_cons, List.length_cons] at ih ⊢
      omega
  unfold packedSize getAttrSize
  omega

theorem patchedTypes {l : List Attribute} (asked : List.Forall₂ (Asked buf dataLen) l attrs) :
    (l.map (patched objs)).map Attribute.type = attrs.map Attribute.type := by
  induction asked with
  | nil => rfl
  | @cons x y rest rest' here _ ih =>
    rw [List.map_cons, List.map_cons, List.map_cons, (patchedKeeps objs x).1, here.type, ih]

theorem patchedFirst {l : List Attribute} (asked : List.Forall₂ (Asked buf dataLen) l attrs)
    (first : StoredFirst attrs) : StoredFirst (l.map (patched objs)) := by
  rw [storedFirstTypes, patchedTypes asked, ← storedFirstTypes]
  exact first

theorem copiedWithin {x : Attribute} {i : Nat} (within : ¬ Beyond i (copied data objs x)) :
    x.value ≠ 0 ∧ x.value ≤ i ∧ i < x.value + x.valueLen.toNat := by
  unfold Beyond copied at within
  simp only at within
  split at within
  · simp only [List.length_nil] at within
    omega
  · split at within
    · simp only [List.length_nil] at within
      omega
    · rw [loadLength] at within
      rename_i roomy
      push Not at roomy
      exact ⟨roomy.1, by omega, by omega⟩

theorem copiedApart {l : List Attribute} (before : l.Pairwise Before) :
    (l.map (copied data objs)).Pairwise Separate := by
  rw [List.pairwise_map]
  refine before.imp fun {x y} before i within => ?_
  by_contra both
  obtain ⟨full, low, high⟩ := copiedWithin within
  obtain ⟨full', low', -⟩ := copiedWithin both
  have := before full full'
  omega

theorem Packed.frame {items : List Item} {out' : Memory} {blen size : Nat} (packed : Packed out blen items)
    (le : blen ≤ size) (small : size < 2 ^ 32) (same : ∀ i < blen, out' i = out i) : Packed out' size items := by
  obtain ⟨count, room, -, slots, ordered⟩ := packed
  have word (a : Nat) (inside : a + 4 ≤ blen) : loadWord out' a = loadWord out a :=
    loadWordCongr fun i _ _ => same i (by omega)
  refine ⟨(word 0 (by omega)).trans count, by omega, small, fun j inside => ?_, fun i j less inside fullI fullJ => ?_⟩
  · exact (slots j inside).frame le_rfl le (fun i _ _ => same i (by omega)) fun i _ below => same i below
  · rw [word _ (by omega), word _ (by omega)]
    exact ordered i j less inside fullI fullJ

theorem replyPacked {l : List Attribute} (asked : List.Forall₂ (Asked buf dataLen) l attrs) (first : StoredFirst attrs)
    (fits : getAttrSize attrs < 2 ^ 32)
    (none : attrs = [] → Packed (fun i => mem (buf + i)) (getAttrSize attrs) []) :
    ∃ out outLen, packSkAttrs mem (l.map (patched objs)) = .ok (out, outLen) ∧ outLen ≤ getAttrSize attrs ∧
      Packed (fun i => store mem buf (load out 0 outLen) (buf + i)) (getAttrSize attrs)
        (((l.map (patched objs)).filter keeps).map fun x => x.item mem unvalued) := by
  have size := @patchedSize objs attrs dataLen buf l asked
  by_cases empty : attrs = []
  · have whole := none empty
    subst empty
    cases asked
    refine ⟨_, 0, rfl, Nat.zero_le _, ?_⟩
    rw [loadNone, storeNone]
    exact whole
  · have some : l.map (patched objs) ≠ [] := by
      have long := asked.length_eq
      intro zero
      rw [List.map_eq_nil_iff] at zero
      rw [zero] at long
      exact empty (List.length_eq_zero_iff.mp long.symm)
    obtain ⟨out, packed, whole⟩ := @packSkAttrsPacked mem _ some
      (@patchedFirst objs attrs dataLen buf l asked first) (by omega)
    refine ⟨out, _, packed, size, whole.frame size fits fun i below => ?_⟩
    have inside : i < (load out 0 (packedSize (l.map (patched objs)))).length := by rwa [loadLength]
    rw [storeInside inside]
    simp [load]

end

end Flexbuild.SecureObjects
