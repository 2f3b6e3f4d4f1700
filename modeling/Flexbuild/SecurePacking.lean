import Flexbuild.SecureObjects
import Flexbuild.Results

/-! Both ways to pack. A slot that is written at its own place holds the header of its
attribute and leads to the value, and the loop over attributes that are all kept fills
slot after slot and the space of the values without a gap. -/
namespace Flexbuild.SecureObjects
open ByteMemory Words Results

structure Item where
  type : BitVec 32
  valueLen : BitVec 16
  bytes : Option (List Byte)
  deriving DecidableEq, Repr

def Attribute.item (mem : Memory) (empty : Attribute → Bool) (x : Attribute) : Item :=
  ⟨x.type, x.valueLen, if empty x then none else some (load mem x.value x.valueLen.toNat)⟩

def Leads (out : Memory) (low high slot : Nat) (item : Item) : Prop :=
  match item.bytes with
  | none => loadWord out (4 + 12 * slot + 4) = 0
  | some bytes => bytes.length = item.valueLen.toNat ∧ ∃ p, loadWord out (4 + 12 * slot + 4) =
      BitVec.ofNat 32 p ∧ low ≤ p ∧ p + bytes.length ≤ high ∧ load out p bytes.length = bytes

structure Holds (out : Memory) (low high slot : Nat) (item : Item) : Prop where
  type : loadWord out (4 + 12 * slot) = item.type
  length : loadWord out (4 + 12 * slot + 8) = item.valueLen.setWidth 32
  leads : Leads out low high slot item

theorem roundupBounds (v : BitVec 16) : v.toNat ≤ roundup v ∧ roundup v < v.toNat + 4 ∧ 4 ∣ roundup v := by
  have small := v.isLt
  have exact : roundup v = roundUp v.toNat 4 := alignUpExact (i := 2) (by omega) (by omega)
  rw [exact]
  exact ⟨leRoundUp _ (by omega), roundUpLt _ (by omega), dvdRoundUp _ _⟩

theorem putBind {α : Type} {size a : Nat} {m : Memory} {bytes : List Byte} {f : Memory → Result α} {r : α} :
    (put size m a bytes >>= f) = .ok r ↔ a + bytes.length ≤ size ∧ f (store m a bytes) = .ok r := by
  unfold put
  split
  · rename_i room
    exact (and_iff_right room).symm
  · rename_i outside
    exact ⟨fun wrong => (nomatch wrong), fun both => absurd both.1 outside⟩

theorem fetchBind {α : Type} {m : Memory} {value n : Nat} {f : List Byte → Result α} {r : α} :
    (fetch m value n >>= f) = .ok r ↔ value ≠ 0 ∧ f (load m value n) = .ok r := by
  unfold fetch
  split
  · rename_i null
    exact ⟨fun wrong => (nomatch wrong), fun both => absurd null both.1⟩
  · rename_i valued
    exact (and_iff_right valued).symm

def headed (out : Memory) (n : Nat) (x : Attribute) : Memory :=
  storeWord (storeWord out (4 + 12 * n) x.type) (4 + 12 * n + 8) (x.valueLen.setWidth 32)

section
variable {mem out : Memory} {size n b : Nat} {x : Attribute} {r : Memory × Nat}

theorem packAttrEmpty : packAttr mem size n true x out b = .ok r ↔
    4 + 12 * (n + 1) ≤ size ∧ r = (storeWord (headed out n x) (4 + 12 * n + 4) 0, b) := by
  rw [packAttr, putBind, putBind, if_pos rfl, putBind]
  simp only [wordLength]
  constructor
  · rintro ⟨-, room, -, done⟩
    exact ⟨by omega, (Except.ok.inj done).symm⟩
  · rintro ⟨room, rfl⟩
    exact ⟨by omega, by omega, by omega, rfl⟩

theorem packAttrFull : packAttr mem size n false x out b = .ok r ↔
    4 + 12 * (n + 1) ≤ size ∧ x.value ≠ 0 ∧ b + x.valueLen.toNat ≤ size ∧
      r = (storeWord (store (headed out n x) b (load mem x.value x.valueLen.toNat)) (4 + 12 * n + 4)
        (BitVec.ofNat 32 b), b + roundup x.valueLen) := by
  rw [packAttr, putBind, putBind, if_neg Bool.false_ne_true, fetchBind, putBind, putBind]
  simp only [wordLength, loadLength]
  constructor
  · rintro ⟨-, room, valued, inside, -, done⟩
    exact ⟨by omega, valued, inside, (Except.ok.inj done).symm⟩
  · rintro ⟨room, valued, inside, rfl⟩
    exact ⟨by omega, by omega, valued, inside, by omega, rfl⟩

end

section
variable {out out' : Memory} {low low' high high' slot n b size : Nat} {item : Item} {mem : Memory}
  {x : Attribute}

theorem Holds.frame (holds : Holds out low high slot item) (ge : low' ≤ low) (le : high ≤ high')
    (head : ∀ i, 4 + 12 * slot ≤ i → i < 4 + 12 * (slot + 1) → out' i = out i)
    (values : ∀ i, low ≤ i → i < high → out' i = out i) : Holds out' low' high' slot item := by
  obtain ⟨type, length, leads⟩ := holds
  have word (a : Nat) (above : 4 + 12 * slot ≤ a) (below : a + 4 ≤ 4 + 12 * (slot + 1)) :
      loadWord out' a = loadWord out a :=
    loadWordCongr fun i _ _ => head i (by omega) (by omega)
  refine ⟨(word _ (by omega) (by omega)).trans type, (word _ (by omega) (by omega)).trans length, ?_⟩
  unfold Leads at leads ⊢
  rw [word _ (by omega) (by omega)]
  split at leads
  · exact leads
  · obtain ⟨long, p, here, above, below, bytes⟩ := leads
    refine ⟨long, p, here, by omega, by omega, ?_⟩
    rw [loadCongr fun i _ _ => values i (by omega) (by omega)]
    exact bytes

theorem Holds.value {slot low high : Nat} {item : Item} (holds : Holds out low high slot item)
    (small : high < 2 ^ 32) :
    (item.bytes = none ∧ (loadWord out (4 + 12 * slot + 4)).toNat = 0) ∨
    ∃ bytes p, item.bytes = some bytes ∧ bytes.length = item.valueLen.toNat ∧
      (loadWord out (4 + 12 * slot + 4)).toNat = p ∧ low ≤ p ∧ p + bytes.length ≤ high ∧
      load out p bytes.length = bytes := by
  have leads := holds.leads
  unfold Leads at leads
  split at leads
  · rename_i none
    exact .inl ⟨none, by rw [leads]; rfl⟩
  · rename_i bytes here
    obtain ⟨long, p, word, above, below, loaded⟩ := leads
    refine .inr ⟨bytes, p, here, long, ?_, above, below, loaded⟩
    rw [word, BitVec.toNat_ofNat, Nat.mod_eq_of_lt (by omega)]

def space (empty : Attribute → Bool) (x : Attribute) : Nat := if empty x then 0 else roundup x.valueLen

theorem headedOutside {n i : Nat} {x : Attribute}
    (outside : i < 4 + 12 * n ∨ 4 + 12 * (n + 1) ≤ i) : headed out n x i = out i := by
  rw [headed, storeWordOutside (by omega), storeWordOutside (by omega)]

theorem headedWords {out out' : Memory} {n : Nat} {x : Attribute}
    (kept : ∀ i, 4 + 12 * n ≤ i → i < 4 + 12 * (n + 1) → i < 4 + 12 * n + 4 ∨ 4 + 12 * n + 8 ≤ i →
      out' i = headed out n x i) :
    loadWord out' (4 + 12 * n) = x.type ∧ loadWord out' (4 + 12 * n + 8) = x.valueLen.setWidth 32 := by
  constructor
  · rw [loadWordCongr fun i _ _ => kept i (by omega) (by omega) (by omega), headed, storeWord,
      loadWordApart (.inl (by omega))]
    exact loadWordStored
  · rw [loadWordCongr fun i _ _ => kept i (by omega) (by omega) (by omega), headed]
    exact loadWordStored

theorem packAttrHolds {empty : Attribute → Bool} (valued : empty x = false → x.value ≠ 0)
    (before : 4 + 12 * (n + 1) ≤ b) (room : b + space empty x ≤ size) :
    ∃ out', packAttr mem size n (empty x) x out b = .ok (out', b + space empty x) ∧
      Holds out' b (b + space empty x) n (x.item mem empty) ∧
      (empty x = false → loadWord out' (4 + 12 * n + 4) = BitVec.ofNat 32 b) ∧
      ∀ i, (i < 4 + 12 * n ∨ 4 + 12 * (n + 1) ≤ i ∧ i < b ∨ b + space empty x ≤ i) → out' i = out i := by
  have inside : 4 + 12 * (n + 1) ≤ size := by omega
  unfold space Attribute.item at *
  cases kind : empty x with
  | true =>
    refine ⟨_, packAttrEmpty.mpr ⟨inside, rfl⟩, ?_, nofun, fun i outside => ?_⟩
    · obtain ⟨type, length⟩ := @headedWords out (storeWord (headed out n x) (4 + 12 * n + 4) 0) n x
        fun i _ _ apart => storeWordOutside (by omega)
      exact ⟨type, length, loadWordStored⟩
    · rw [storeWordOutside (by omega), headedOutside (by omega)]
  | false =>
    have long := (roundupBounds x.valueLen).1
    rw [kind] at room
    simp only [Bool.false_eq_true, if_false] at room ⊢
    refine ⟨_, packAttrFull.mpr ⟨inside, valued kind, by omega, rfl⟩, ?_, fun _ => loadWordStored,
      fun i outside => ?_⟩
    · have far (i : Nat) (below : i < b) :
          store (headed out n x) b (load mem x.value x.valueLen.toNat) i = headed out n x i :=
        storeOutside (.inl below)
      obtain ⟨type, length⟩ := @headedWords out (storeWord (store (headed out n x) b
        (load mem x.value x.valueLen.toNat)) (4 + 12 * n + 4) (BitVec.ofNat 32 b)) n x
        fun i _ _ apart => by rw [storeWordOutside (by omega), far i (by omega)]
      refine ⟨type, length, loadLength _ _ _, b, loadWordStored, le_rfl, ?_, ?_⟩
      · rw [loadLength]
        omega
      · rw [storeWord, loadApart (by simp only [wordLength]; omega)]
        exact loadStored
    · rw [storeWordOutside (by omega), storeOutside (by rw [loadLength]; omega), headedOutside (by omega)]

end

def total (empty : Attribute → Bool) (l : List Attribute) : Nat := (l.map (space empty)).sum

theorem totalCons (empty : Attribute → Bool) (x : Attribute) (l : List Attribute) :
    total empty (x :: l) = space empty x + total empty l := rfl

theorem totalEmpty {empty : Attribute → Bool} {l : List Attribute} (none : ∀ x ∈ l, empty x = true) :
    total empty l = 0 := by
  induction l with
  | nil => rfl
  | cons x l ih =>
    rw [totalCons, space, if_pos (none x List.mem_cons_self), ih fun y member => none y (List.mem_cons_of_mem _ member)]

theorem spaceMultiple (empty : Attribute → Bool) (x : Attribute) : 4 ∣ space empty x := by
  unfold space
  split
  · exact dvd_zero 4
  · exact (roundupBounds x.valueLen).2.2

structure Filled (mem : Memory) (empty : Attribute → Bool) (n b : Nat) (l : List Attribute)
    (out out' : Memory) : Prop where
  holds : ∀ j, (inside : j < l.length) → Holds out' b (b + total empty l) (n + j) (l[j].item mem empty)
  ordered : ∀ i j, (less : i < j) → (inside : j < l.length) → empty l[i] = false → empty l[j] = false →
    (loadWord out' (4 + 12 * (n + i) + 4)).toNat + l[i].valueLen.toNat ≤
      (loadWord out' (4 + 12 * (n + j) + 4)).toNat
  same : ∀ i, (i < 4 + 12 * n ∨ 4 + 12 * (n + l.length) ≤ i ∧ i < b ∨ b + total empty l ≤ i) → out' i = out i
  covered : ∀ q, 4 ∣ q → b ≤ q → q < b + total empty l → ∃ j, ∃ inside : j < l.length, ∃ p,
    empty l[j] = false ∧ loadWord out' (4 + 12 * (n + j) + 4) = BitVec.ofNat 32 p ∧ p ≤ q ∧
      q < p + l[j].valueLen.toNat

-- Induction on the attributes: what follows neither touches the slots that are done nor
-- the values before the cursor.
theorem packLoopFilled {mem : Memory} {size : Nat} {keep empty : Attribute → Bool} {l : List Attribute}
    {n b : Nat} {out : Memory} (kept : ∀ x ∈ l, keep x = true)
    (valued : ∀ x ∈ l, empty x = false → x.value ≠ 0) (before : 4 + 12 * (n + l.length) ≤ b)
    (whole : 4 ∣ b) (room : b + total empty l ≤ size) (small : b + total empty l < 2 ^ 32) :
    ∃ out', packLoop mem size keep empty l n out b = .ok (out', b + total empty l) ∧
      Filled mem empty n b l out out' := by
  induction l generalizing n b out with
  | nil => exact ⟨out, rfl, nofun, nofun, fun _ _ => rfl, fun q _ le lt => absurd lt (Nat.not_lt.mpr le)⟩
  | cons x rest ih =>
    rw [List.length_cons] at before
    rw [totalCons] at room small ⊢
    obtain ⟨mid, packed, first, leads, frame⟩ := @packAttrHolds out n b size mem x empty
      (valued x List.mem_cons_self) (by omega) (by omega)
    obtain ⟨out', looped, holds, ordered, same, covered⟩ := @ih (n + 1) (b + space empty x) mid
      (fun y member => kept y (List.mem_cons_of_mem _ member))
      (fun y member => valued y (List.mem_cons_of_mem _ member)) (by omega)
      (Nat.dvd_add whole (spaceMultiple empty x)) (by omega) (by omega)
    have sum : b + space empty x + total empty rest = b + (space empty x + total empty rest) := by omega
    rw [sum] at looped holds same covered
    have head (i : Nat) (below : i < 4 + 12 * (n + 1)) : out' i = mid i := same i (.inl below)
    have start (full : empty x = false) : loadWord out' (4 + 12 * n + 4) = BitVec.ofNat 32 b := by
      rw [← leads full]
      exact loadWordCongr fun i _ _ => head i (by omega)
    have taken (full : empty x = false) : space empty x = roundup x.valueLen := if_neg (by simp [full])
    have next (j : Nat) : n + 1 + j = n + (j + 1) := by omega
    obtain ⟨long, close, whole'⟩ := roundupBounds x.valueLen
    refine ⟨out', ?_, ?_, ?_, fun i outside => ?_, fun q word le lt => ?_⟩
    · rw [packLoop, if_pos (kept x List.mem_cons_self), packed]
      exact looped
    · intro j inside
      rw [totalCons]
      cases j with
      | zero =>
        exact first.frame le_rfl (by omega) (fun i _ below => head i below) fun i low below => same i (by omega)
      | succ j =>
        have there := holds j (Nat.lt_of_succ_lt_succ inside)
        rw [next] at there
        exact there.frame (Nat.le_add_right _ _) le_rfl (fun _ _ _ => rfl) fun _ _ _ => rfl
    · intro i j less inside fullI fullJ
      cases j with
      | zero => cases less
      | succ j =>
        have insideJ := Nat.lt_of_succ_lt_succ inside
        cases i with
        | zero =>
          have behind := holds j insideJ
          obtain ⟨none, -⟩ | ⟨bytes, p, -, -, offset, above, -⟩ := behind.value (by omega)
          · have fullJ : empty rest[j] = false := fullJ
            simp [Attribute.item, fullJ] at none
          · rw [next] at offset
            rw [taken fullI] at above
            change (loadWord out' (4 + 12 * n + 4)).toNat + x.valueLen.toNat ≤ _
            rw [start fullI, offset, BitVec.toNat_ofNat, Nat.mod_eq_of_lt (by omega)]
            omega
        | succ i =>
          have there := ordered i j (Nat.lt_of_succ_lt_succ less) insideJ fullI fullJ
          rwa [next, next] at there
    · rw [List.length_cons, totalCons] at outside
      rw [same i (by omega), frame i (by omega)]
    · rw [totalCons] at lt
      rcases Nat.lt_or_ge q (b + space empty x) with here | later
      · have full : empty x = false := by
          by_contra none
          rw [Bool.not_eq_false] at none
          rw [space, if_pos none] at here
          omega
        rw [taken full] at here
        refine ⟨0, Nat.succ_pos _, b, full, start full, le, ?_⟩
        change q < b + x.valueLen.toNat
        omega
      · obtain ⟨j, inside, p, full, leads', low', high'⟩ := covered q word later lt
        refine ⟨j + 1, Nat.succ_lt_succ inside, p, full, ?_, low', high'⟩
        rwa [next] at leads'

section
variable {mem : Memory} {size : Nat} {keep empty : Attribute → Bool}

theorem packLoopAppend (l rest : List Attribute) (n : Nat) (out : Memory) (b : Nat) :
    packLoop mem size keep empty (l ++ rest) n out b =
      packLoop mem size keep empty l n out b >>= fun r =>
        packLoop mem size keep empty rest (n + l.length) r.1 r.2 := by
  induction l generalizing n out b with
  | nil => rfl
  | cons x l ih =>
    have after : n + (x :: l).length = n + 1 + l.length := by
      rw [List.length_cons]
      omega
    rw [List.cons_append, packLoop, packLoop, after]
    split
    · cases packAttr mem size n (empty x) x out b with
      | error failure => rfl
      | ok r => exact ih _ _ _
    · exact ih _ _ _

theorem packLoopSkips {l : List Attribute} (skipped : ∀ x ∈ l, keep x = false) (n : Nat) (out : Memory) (b : Nat) :
    packLoop mem size keep empty l n out b = .ok (out, b) := by
  induction l generalizing n with
  | nil => rfl
  | cons x l ih =>
    rw [packLoop, if_neg (by simp [skipped x List.mem_cons_self])]
    exact ih (fun y member => skipped y (List.mem_cons_of_mem _ member)) _

end

structure Packed (out : Memory) (size : Nat) (items : List Item) : Prop where
  count : loadWord out 0 = BitVec.ofNat 32 items.length
  room : 4 + 12 * items.length ≤ size
  small : size < 2 ^ 32
  slots : ∀ j, (inside : j < items.length) → Holds out (4 + 12 * items.length) size j items[j]
  ordered : ∀ i j, (less : i < j) → (inside : j < items.length) → items[i].bytes ≠ none → items[j].bytes ≠ none →
    (loadWord out (4 + 12 * i + 4)).toNat + items[i].valueLen.toNat ≤ (loadWord out (4 + 12 * j + 4)).toNat

theorem Filled.packed {mem out out' : Memory} {empty : Attribute → Bool} {l : List Attribute}
    (filled : Filled mem empty 0 (4 + 12 * l.length) l
      (storeWord out 0 (BitVec.ofNat 32 l.length)) out')
    (small : 4 + 12 * l.length + total empty l < 2 ^ 32) :
    Packed out' (4 + 12 * l.length + total empty l) (l.map fun x => x.item mem empty) := by
  refine ⟨?_, ?_, small, fun j inside => ?_, fun i j less inside fullI fullJ => ?_⟩
  · rw [loadWordCongr fun i _ below => filled.same i (.inl (by omega)), List.length_map]
    exact loadWordStored
  · rw [List.length_map]
    exact Nat.le_add_right _ _
  · rw [List.length_map] at inside
    rw [List.length_map, List.getElem_map]
    have there := filled.holds j inside
    rwa [Nat.zero_add] at there
  · rw [List.length_map] at inside
    have full (k : Nat) (here : k < l.length) (some : (l[k].item mem empty).bytes ≠ none) : empty l[k] = false := by
      by_contra yes
      exact some (if_pos (by simpa using yes))
    simp only [List.getElem_map] at fullI fullJ ⊢
    have there := filled.ordered i j less inside (full i (by omega) fullI) (full j inside fullJ)
    rwa [Nat.zero_add, Nat.zero_add] at there

def plain (x : Attribute) : Bool := x.valueLen = 0

theorem getAttrSizeTotal (attrs : List Attribute) :
    getAttrSize attrs = 4 + 12 * attrs.length + total plain attrs := by
  unfold getAttrSize total space plain
  simp only [decide_eq_true_eq]

theorem packAttrsPacked {mem : Memory} {attrs : List Attribute} (buffer : Memory)
    (valued : ∀ x ∈ attrs, x.value = 0 → x.valueLen = 0) (small : getAttrSize attrs < 2 ^ 32) :
    ∃ out, packAttrs mem buffer (getAttrSize attrs) attrs = .ok (out, getAttrSize attrs) ∧
      Packed out (getAttrSize attrs) (attrs.map fun x => x.item mem plain) := by
  rw [getAttrSizeTotal] at small ⊢
  obtain ⟨out, packed, filled⟩ := @packLoopFilled mem (4 + 12 * attrs.length + total plain attrs)
    (fun _ => true) plain attrs 0 (4 + 12 * attrs.length)
    (storeWord buffer 0 (BitVec.ofNat 32 attrs.length)) (fun _ _ => rfl)
    (fun x member full null => by simp [plain, valued x member null] at full) (by omega) (by omega) le_rfl small
  refine ⟨out, ?_, filled.packed small⟩
  rw [packAttrs, if_neg (by omega), putBind]
  exact ⟨by simp only [wordLength]; omega, packed⟩

def StoredFirst (attrs : List Attribute) : Prop := attrs.Pairwise fun x y => keeps y = true → keeps x = true

theorem StoredFirst.split {attrs : List Attribute} (first : StoredFirst attrs) :
    ∃ rest, attrs = attrs.filter keeps ++ rest ∧ ∀ x ∈ rest, keeps x = false := by
  induction attrs with
  | nil => exact ⟨[], rfl, nofun⟩
  | cons x l ih =>
    obtain ⟨before, later⟩ := List.pairwise_cons.mp first
    cases kind : keeps x with
    | true =>
      obtain ⟨rest, split, skipped⟩ := ih later
      exact ⟨rest, by rw [List.filter_cons_of_pos kind, List.cons_append, ← split], skipped⟩
    | false =>
      have none (y : Attribute) (member : y ∈ l) : keeps y = false := by
        by_contra yes
        exact absurd (before y member (Bool.not_eq_false _ ▸ yes)) (by simp [kind])
      refine ⟨x :: l, ?_, fun y member => ?_⟩
      · rw [List.filter_eq_nil_iff.mpr, List.nil_append]
        intro y member
        rcases List.mem_cons.mp member with rfl | later
        · simp [kind]
        · simp [none y later]
      · rcases List.mem_cons.mp member with rfl | later
        · exact kind
        · exact none y later

theorem packedSizeTotal (attrs : List Attribute) : packedSize attrs =
    4 + 12 * (attrs.filter keeps).length + total unvalued (attrs.filter keeps) := by
  have both (l : List Attribute) : (l.map fun x =>
      if keeps x then 12 + (if unvalued x then 0 else roundup x.valueLen) else 0).sum =
      12 * (l.filter keeps).length + total unvalued (l.filter keeps) := by
    induction l with
    | nil => rfl
    | cons x l ih =>
      rw [List.map_cons, List.sum_cons, ih]
      cases kind : keeps x with
      | true =>
        rw [List.filter_cons_of_pos kind, List.length_cons, totalCons, space, if_pos rfl]
        omega
      | false => simp [kind]
  rw [packedSize, both]
  omega

theorem packSkAttrsPacked {mem : Memory} {attrs : List Attribute} (some : attrs ≠ [])
    (first : StoredFirst attrs) (small : packedSize attrs < 2 ^ 32) :
    ∃ out, packSkAttrs mem attrs = .ok (out, packedSize attrs) ∧
      Packed out (packedSize attrs) ((attrs.filter keeps).map fun x => x.item mem unvalued) := by
  obtain ⟨rest, split, skipped⟩ := first.split
  have size := packedSizeTotal attrs
  rw [size] at small
  obtain ⟨out, packed, filled⟩ := @packLoopFilled mem (packedSize attrs) keeps unvalued (attrs.filter keeps) 0
    (4 + 12 * (attrs.filter keeps).length)
    (storeWord (fun _ => 0) 0 (BitVec.ofNat 32 (attrs.filter keeps).length))
    (fun x member => (List.mem_filter.mp member).2)
    (fun x _ full null => by simp [unvalued, null] at full) (by omega) (by omega) size.ge small
  have whole := filled.packed small
  rw [← size] at whole
  refine ⟨out, ?_, whole⟩
  have run : packLoop mem (packedSize attrs) keeps unvalued attrs 0
      (storeWord (fun _ => 0) 0 (BitVec.ofNat 32 (attrs.filter keeps).length))
      (4 + 12 * (attrs.filter keeps).length) = .ok (out, packedSize attrs) := by
    rw [split, packLoopAppend, ← split, packed]
    exact (packLoopSkips skipped _ _ _).trans (by rw [← size])
  rw [packSkAttrs, if_neg some]
  refine putBind.mpr ⟨by simp only [wordLength]; omega, ?_⟩
  change (packLoop mem (packedSize attrs) keeps unvalued attrs 0
    (storeWord (fun _ => 0) 0 (BitVec.ofNat 32 (attrs.filter keeps).length))
    (4 + 12 * (attrs.filter keeps).length) >>= _) = _
  rw [run]
  rfl

section
variable {mem out : Memory} {size n b low : Nat} {keep empty : Attribute → Bool} {x : Attribute} {l : List Attribute}
  {r : Memory × Nat}

theorem packAttrRan {e : Bool} (done : packAttr mem size n e x out b = .ok r) :
    4 + 12 * (n + 1) ≤ size ∧ b ≤ r.2 ∧
      (∀ i < b, (i < 4 + 12 * n ∨ 4 + 12 * (n + 1) ≤ i) → r.1 i = out i) ∧
      (4 + 12 * (n + 1) ≤ b → loadWord r.1 (4 + 12 * n + 8) = x.valueLen.setWidth 32) := by
  cases e with
  | true =>
    obtain ⟨room, rfl⟩ := packAttrEmpty.mp done
    refine ⟨room, le_rfl, fun i _ outside => ?_, fun _ => ?_⟩
    · exact (storeWordOutside (by omega)).trans (headedOutside outside)
    · exact (headedWords fun i _ _ _ => storeWordOutside (by omega)).2
  | false =>
    obtain ⟨room, -, inside, rfl⟩ := packAttrFull.mp done
    refine ⟨room, Nat.le_add_right _ _, fun i below outside => ?_, fun above => ?_⟩
    · exact (storeWordOutside (by omega)).trans ((storeOutside (.inl below)).trans (headedOutside outside))
    · exact (headedWords fun i _ _ _ =>
        (storeWordOutside (by omega)).trans (storeOutside (.inl (by omega)))).2

theorem packLoopCons : packLoop mem size keep empty (x :: l) n out b = .ok r ↔
    if keep x then ∃ mid, packAttr mem size n (empty x) x out b = .ok mid ∧
      packLoop mem size keep empty l (n + 1) mid.1 mid.2 = .ok r
    else packLoop mem size keep empty l (n + 1) out b = .ok r := by
  rw [packLoop]
  split
  · exact bindOk
  · exact Iff.rfl

theorem slotsLater {i : Nat} (outside : ∀ t, (inside : t < (x :: l).length) → keep (x :: l)[t] = true →
      i < 4 + 12 * (n + t) ∨ 4 + 12 * (n + t + 1) ≤ i) (t : Nat) (inside : t < l.length) (kept : keep l[t] = true) :
    i < 4 + 12 * (n + 1 + t) ∨ 4 + 12 * (n + 1 + t + 1) ≤ i := by
  have := outside (t + 1) (Nat.succ_lt_succ inside) kept
  omega

theorem packLoopRan (done : packLoop mem size keep empty l n out b = .ok r) (above : low ≤ b) :
    (∀ i < low, (∀ t, (inside : t < l.length) → keep l[t] = true →
      i < 4 + 12 * (n + t) ∨ 4 + 12 * (n + t + 1) ≤ i) → r.1 i = out i) ∧
    ∀ t, (inside : t < l.length) → keep l[t] = true → 4 + 12 * (n + t + 1) ≤ low →
      loadWord r.1 (4 + 12 * (n + t) + 8) = l[t].valueLen.setWidth 32 := by
  induction l generalizing n out b with
  | nil =>
    cases done
    exact ⟨fun _ _ _ => rfl, nofun⟩
  | cons x l ih =>
    rw [packLoopCons] at done
    split at done
    · rename_i kept
      obtain ⟨mid, packed, run⟩ := done
      obtain ⟨-, grown, frame, header⟩ := packAttrRan packed
      obtain ⟨same, headers⟩ := ih run (by omega)
      refine ⟨fun i below outside => ?_, fun t inside kept' room => ?_⟩
      · rw [same i below (slotsLater outside)]
        exact frame i (by omega) (outside 0 (Nat.succ_pos _) kept)
      · cases t with
        | zero =>
          rw [loadWordCongr fun i _ _ => same i (by omega) fun t inside _ => .inl (by omega)]
          exact header (by omega)
        | succ t =>
          have there := headers t (Nat.lt_of_succ_lt_succ inside) kept' (by omega)
          rwa [show n + 1 + t = n + (t + 1) by omega] at there
    · rename_i skipped
      obtain ⟨same, headers⟩ := ih done above
      refine ⟨fun i below outside => same i below (slotsLater outside), fun t inside kept' room => ?_⟩
      cases t with
      | zero => exact absurd kept' skipped
      | succ t =>
        have there := headers t (Nat.lt_of_succ_lt_succ inside) kept' (by omega)
        rwa [show n + 1 + t = n + (t + 1) by omega] at there

theorem packLoopEmpty (done : packLoop mem size keep empty l n out b = .ok r)
    (none : ∀ x ∈ l, keep x = true → empty x = true) :
    (∀ i, (∀ t, (inside : t < l.length) → keep l[t] = true →
      i < 4 + 12 * (n + t) ∨ 4 + 12 * (n + t + 1) ≤ i) → r.1 i = out i) ∧
    ∀ t, (inside : t < l.length) → keep l[t] = true →
      4 + 12 * (n + t + 1) ≤ size ∧ loadWord r.1 (4 + 12 * (n + t) + 4) = 0 := by
  induction l generalizing n out b with
  | nil =>
    cases done
    exact ⟨fun _ _ => rfl, nofun⟩
  | cons x l ih =>
    rw [packLoopCons] at done
    have rest (y : Attribute) (member : y ∈ l) : keep y = true → empty y = true :=
      none y (List.mem_cons_of_mem _ member)
    split at done
    · rename_i kept
      obtain ⟨mid, packed, run⟩ := done
      rw [none x List.mem_cons_self kept] at packed
      obtain ⟨room, rfl⟩ := packAttrEmpty.mp packed
      obtain ⟨same, headers⟩ := ih run rest
      refine ⟨fun i outside => ?_, fun t inside kept' => ?_⟩
      · have here := outside 0 (Nat.succ_pos _) kept
        exact (same i (slotsLater outside)).trans ((storeWordOutside (by omega)).trans (headedOutside here))
      · cases t with
        | zero =>
          refine ⟨room, ?_⟩
          rw [loadWordCongr fun i _ _ => same i fun t inside _ => .inl (by omega)]
          exact loadWordStored
        | succ t =>
          have there := headers t (Nat.lt_of_succ_lt_succ inside) kept'
          rwa [show n + 1 + t = n + (t + 1) by omega] at there
    · rename_i skipped
      obtain ⟨same, headers⟩ := ih done rest
      refine ⟨fun i outside => same i (slotsLater outside), fun t inside kept' => ?_⟩
      cases t with
      | zero => exact absurd kept' skipped
      | succ t =>
        have there := headers t (Nat.lt_of_succ_lt_succ inside) kept'
        rwa [show n + 1 + t = n + (t + 1) by omega] at there

theorem packLoopRuns (valued : ∀ x ∈ l, keep x = true → empty x = false → x.value ≠ 0)
    (room : b + total empty (l.filter keep) ≤ size) : (∃ r, packLoop mem size keep empty l n out b = .ok r) ↔
      ∀ t, (inside : t < l.length) → keep l[t] = true → 4 + 12 * (n + t + 1) ≤ size := by
  induction l generalizing n out b with
  | nil => exact iff_of_true ⟨_, rfl⟩ nofun
  | cons x l ih =>
    have rest (y : Attribute) (member : y ∈ l) := valued y (List.mem_cons_of_mem _ member)
    simp only [packLoopCons]
    have slots : (∀ t, (inside : t < (x :: l).length) → keep (x :: l)[t] = true → 4 + 12 * (n + t + 1) ≤ size) ↔
        (keep x = true → 4 + 12 * (n + 1) ≤ size) ∧
        ∀ t, (inside : t < l.length) → keep l[t] = true → 4 + 12 * (n + 1 + t + 1) ≤ size := by
      constructor
      · intro all
        refine ⟨all 0 (Nat.succ_pos _), fun t inside kept => ?_⟩
        have := all (t + 1) (Nat.succ_lt_succ inside) kept
        omega
      · rintro ⟨first, later⟩ t inside kept
        cases t with
        | zero => exact first kept
        | succ t =>
          have := later t (Nat.lt_of_succ_lt_succ inside) kept
          omega
    rw [slots]
    by_cases kept : keep x = true
    · simp only [if_pos kept]
      rw [List.filter_cons_of_pos kept, totalCons] at room
      constructor
      · rintro ⟨r, mid, packed, run⟩
        obtain ⟨head, -⟩ := packAttrRan packed
        refine ⟨fun _ => head, (@ih mid.1 (n + 1) mid.2 rest ?_).mp ⟨r, run⟩⟩
        cases none : empty x with
        | true =>
          rw [none] at packed
          obtain ⟨-, rfl⟩ := packAttrEmpty.mp packed
          exact (Nat.add_le_add_left (Nat.le_add_left _ _) _).trans room
        | false =>
          rw [none] at packed
          obtain ⟨-, -, -, rfl⟩ := packAttrFull.mp packed
          rw [space, none] at room
          simp only [Bool.false_eq_true, if_false] at room
          change b + roundup x.valueLen + _ ≤ size
          omega
      · rintro ⟨head, later⟩
        cases none : empty x with
        | true =>
          obtain ⟨r, run⟩ := (@ih (storeWord (headed out n x) (4 + 12 * n + 4) 0) (n + 1) b rest
            ((Nat.add_le_add_left (Nat.le_add_left _ _) _).trans room)).mpr later
          exact ⟨r, _, packAttrEmpty.mpr ⟨head kept, rfl⟩, run⟩
        | false =>
          rw [space, none] at room
          simp only [Bool.false_eq_true, if_false] at room
          have long := (roundupBounds x.valueLen).1
          obtain ⟨r, run⟩ := (@ih (storeWord (store (headed out n x) b (load mem x.value x.valueLen.toNat))
            (4 + 12 * n + 4) (BitVec.ofNat 32 b)) (n + 1) (b + roundup x.valueLen) rest (by omega)).mpr later
          exact ⟨r, _, packAttrFull.mpr ⟨head kept, valued x List.mem_cons_self kept none, by omega, rfl⟩, run⟩
    · simp only [if_neg kept]
      rw [List.filter_cons_of_neg kept] at room
      rw [ih rest room]
      exact (and_iff_right fun here => absurd here kept).symm

end

def Slotted (size : Nat) (attrs : List Attribute) : Prop :=
  ∀ i, (inside : i < attrs.length) → keeps attrs[i] = true → 4 + 12 * (i + 1) ≤ size

theorem packSkAttrsRuns {mem : Memory} {attrs : List Attribute} :
    (∃ r, packSkAttrs mem attrs = .ok r) ↔ Slotted (packedSize attrs) attrs := by
  by_cases none : attrs = []
  · subst none
    exact iff_of_true ⟨_, rfl⟩ nofun
  · have size := packedSizeTotal attrs
    have loop := @packLoopRuns mem (storeWord (fun _ => 0) 0 (BitVec.ofNat 32 (attrs.filter keeps).length))
      (packedSize attrs) 0 (4 + 12 * (attrs.filter keeps).length) keeps unvalued attrs
      (fun x _ _ full null => by simp [unvalued, null] at full) size.ge
    simp only [Nat.zero_add] at loop
    rw [Slotted, ← loop]
    constructor
    · rintro ⟨r, done⟩
      rw [packSkAttrs, if_neg none] at done
      obtain ⟨-, run⟩ := putBind.mp done
      obtain ⟨r, looped, -⟩ := bindOk.mp run
      exact ⟨r, looped⟩
    · rintro ⟨r, looped⟩
      refine ⟨(r.1, packedSize attrs), ?_⟩
      rw [packSkAttrs, if_neg none]
      refine putBind.mpr ⟨?_, bindOk.mpr ⟨r, looped, rfl⟩⟩
      simp only [wordLength]
      omega

end Flexbuild.SecureObjects
