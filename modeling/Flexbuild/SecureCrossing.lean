import Flexbuild.SecureUnpacking

/-! Attributes across the boundary. What the client packs arrives as it was. What the
trusted application packs arrives as its stored part exactly when no attribute that is
stored follows one that is not and no stored value has a length with the sign bit. -/
namespace Flexbuild.SecureObjects
open ByteMemory Words Results

def Attribute.view (mem : Memory) (x : Attribute) : BitVec 32 × BitVec 16 × List Byte :=
  (x.type, x.valueLen, if x.value = 0 then [] else load mem x.value x.valueLen.toNat)

def Valued (attrs : List Attribute) : Prop := ∀ x ∈ attrs, x.value = 0 → x.valueLen = 0

def Disjoint (a b : Nat × Nat) : Prop :=
  ∀ i, a.1 ≤ i → i < a.1 + a.2 → ¬ (b.1 ≤ i ∧ i < b.1 + b.2)

structure Room (dest attrs : List Attribute) : Prop where
  ready : List.Forall₂ (fun d x => d.value = 0 → x.valueLen = 0) dest attrs
  apart : (List.zipWith (fun d x => (d.value, x.valueLen.toNat)) dest attrs).Pairwise Disjoint

def Arrives (m : Machine) (client : Memory) (attrs : List Attribute) : Prop :=
  ∀ buffer, ∃ out, packAttrs client buffer (getAttrSize attrs) attrs = .ok (out, getAttrSize attrs) ∧
    ∀ mem buf, buf % 4 = 0 → buf + getAttrSize attrs < 2 ^ m.bits →
      (∀ i < getAttrSize attrs, mem (buf + i) = out i) →
        ∃ got, unpackSkAttrs m mem buf (getAttrSize attrs) = .ok got ∧
          got.map (Attribute.view mem) = attrs.map (Attribute.view client)

def Returns (m : Machine) (mem : Memory) (attrs : List Attribute) : Prop :=
  ∃ out blen, packSkAttrs mem attrs = .ok (out, blen) ∧
    ∀ address dest client, address % 4 = 0 → Room dest (attrs.filter keeps) →
      ∃ got client', unpackAttrs m out address blen dest client = .ok (none, got, client') ∧
        got.map (Attribute.view client') = (attrs.filter keeps).map (Attribute.view mem)

section
variable {m : Machine} {mem client : Memory} {attrs dest : List Attribute} {buf blen : Nat}

theorem carriesView {x y : Attribute} (valued : x.value = 0 → x.valueLen = 0)
    (carries : Carries mem buf blen y (x.item client plain)) : y.view mem = x.view client := by
  obtain ⟨type, length, value⟩ := carries
  unfold Attribute.view
  rw [type, length]
  unfold Attribute.item plain at *
  by_cases none : x.valueLen = 0
  · simp [none]
  · have full : x.value ≠ 0 := fun null => none (valued null)
    rw [decide_eq_false none] at value
    simp only [Bool.false_eq_true, if_false, loadLength] at value ⊢
    obtain ⟨-, above, -, loaded⟩ := value
    rw [if_neg (by omega : y.value ≠ 0), if_neg full, loaded]

theorem arrives (valued : Valued attrs) (small : getAttrSize attrs < 2 ^ 32) : Arrives m client attrs := by
  intro buffer
  obtain ⟨out, packed, whole⟩ := @packAttrsPacked client attrs buffer valued small
  refine ⟨out, packed, fun mem buf aligned high shared => ?_⟩
  obtain ⟨got, unpacked, carried⟩ := unpackSkAttrsCarries whole shared aligned high
  refine ⟨got, unpacked, ?_⟩
  rw [List.forall₂_map_right_iff] at carried
  clear unpacked whole packed small high shared
  generalize getAttrSize attrs = blen at carried
  induction carried with
  | nil => rfl
  | @cons y x _ _ here _ ih =>
    rw [List.map_cons, List.map_cons, carriesView (valued x List.mem_cons_self) here,
      ih fun z member => valued z (List.mem_cons_of_mem _ member)]

def Positive (attrs : List Attribute) : Prop := ∀ x ∈ attrs, keeps x = true → x.valueLen.toNat < 2 ^ 15

theorem unvaluedIff {x : Attribute} (small : x.valueLen.toNat < 2 ^ 15) :
    unvalued x = true ↔ x.valueLen = 0 ∨ x.value = 0 := by
  have same : x.valueLen.toInt = x.valueLen.toNat := BitVec.toInt_eq_toNat_of_lt (by omega)
  rw [unvalued, decide_eq_true_iff, same]
  refine or_congr_left ⟨fun le => ?_, fun zero => by simp [zero]⟩
  exact BitVec.eq_of_toNat_eq (by simp; omega)

theorem itemBytes {x : Attribute} (valued : x.value = 0 → x.valueLen = 0) (small : x.valueLen.toNat < 2 ^ 15) :
    ((x.item mem unvalued).bytes.getD []).length = x.valueLen.toNat ∧
      x.view mem = (x.type, x.valueLen, (x.item mem unvalued).bytes.getD []) := by
  unfold Attribute.item Attribute.view
  cases kind : unvalued x with
  | true =>
    have zero : x.valueLen = 0 := ((unvaluedIff small).mp kind).elim id valued
    simp [zero]
  | false =>
    have full : x.value ≠ 0 := fun null => by simp [(unvaluedIff small).mpr (.inr null)] at kind
    simp [full]

theorem writesRanges (valued : Valued attrs) (small : ∀ x ∈ attrs, x.valueLen.toNat < 2 ^ 15) :
    (writes dest (attrs.map fun x => x.item mem unvalued)).map (fun w => (w.1, w.2.length)) =
      List.zipWith (fun d x => (d.value, x.valueLen.toNat)) dest attrs := by
  induction dest generalizing attrs with
  | nil => rfl
  | cons d dest ih =>
    cases attrs with
    | nil => rfl
    | cons x attrs =>
      rw [List.map_cons, writesCons, List.map_cons, List.zipWith_cons_cons,
        (itemBytes (valued x List.mem_cons_self) (small x List.mem_cons_self)).1,
        ih (fun y member => valued y (List.mem_cons_of_mem _ member))
          fun y member => small y (List.mem_cons_of_mem _ member)]

theorem Room.separate (room : Room dest attrs) (valued : Valued attrs)
    (small : ∀ x ∈ attrs, x.valueLen.toNat < 2 ^ 15) :
    (writes dest (attrs.map fun x => x.item mem unvalued)).Pairwise Separate := by
  have apart := room.apart
  rw [← @writesRanges mem attrs dest valued small, List.pairwise_map] at apart
  refine apart.imp fun disjoint i inside => ?_
  unfold Beyond at *
  have := disjoint i (by omega) (by omega)
  omega

theorem Room.views (room : Room dest attrs) (valued : Valued attrs)
    (small : ∀ x ∈ attrs, x.valueLen.toNat < 2 ^ 15) (client : Memory) :
    (List.zipWith filled dest (attrs.map fun x => x.item mem unvalued)).map (Attribute.view
      (storeAll (writes dest (attrs.map fun x => x.item mem unvalued)) client)) = attrs.map (Attribute.view mem) := by
  have apart := @Room.separate mem attrs dest room valued small
  obtain ⟨ready, -⟩ := room
  have same := ready.length_eq
  refine List.ext_getElem (by simp [same]) fun j inside inside' => ?_
  rw [List.length_map] at inside'
  have member : attrs[j] ∈ attrs := List.getElem_mem inside'
  obtain ⟨long, view⟩ := @itemBytes mem attrs[j] (valued _ member) (small _ member)
  have here : (dest[j].value, (attrs[j].item mem unvalued).bytes.getD []) ∈
      writes dest (attrs.map fun x => x.item mem unvalued) := by
    refine List.mem_iff_getElem.mpr ⟨j, by simp [writes]; omega, by simp [writes]⟩
  have read := @storeAllRead client _ _ apart here
  simp only [List.getElem_map, List.getElem_zipWith, view]
  unfold Attribute.view filled
  by_cases null : dest[j].value = 0
  · have zero : attrs[j].valueLen = 0 := (List.forall₂_iff_get.mp ready).2 j (by omega) inside' null
    rw [if_pos null]
    rw [zero] at long
    rw [List.length_eq_zero_iff.mp long]
    rfl
  · rw [if_neg null]
    simp only [long] at read
    exact congrArg _ (congrArg _ read)

theorem returns (first : StoredFirst attrs) (valued : Valued attrs) (positive : Positive attrs)
    (fits : packedSize attrs < 2 ^ 32) : Returns m mem attrs := by
  by_cases some : attrs = []
  · subst some
    refine ⟨_, _, rfl, fun address dest client aligned room => ?_⟩
    have none : dest = [] := by
      obtain ⟨ready, -⟩ := room
      cases ready
      rfl
    subst none
    exact ⟨[], client, rfl, rfl⟩
  · obtain ⟨out, packed, whole⟩ := @packSkAttrsPacked mem attrs some first fits
    refine ⟨out, _, packed, fun address dest client aligned room => ?_⟩
    have ready : List.Forall₂ Ready dest ((attrs.filter keeps).map fun x => x.item mem unvalued) := by
      refine List.forall₂_map_right_iff.mpr (room.ready.imp ?_)
      exact fun _ _ here _ => here
    refine ⟨_, _, unpackAttrsDelivers whole aligned ready client, ?_⟩
    refine room.views (fun x member => valued x (List.mem_of_mem_filter member)) (fun x member => ?_) client
    exact positive x (List.mem_of_mem_filter member) (List.mem_filter.mp member).2

end

def seen (buf : Memory) (j : Nat) : Item :=
  let valueLen : BitVec 16 := (loadWord buf (4 + 12 * j + 8)).setWidth 16
  let p := (loadWord buf (4 + 12 * j + 4)).toNat
  ⟨loadWord buf (4 + 12 * j), valueLen, if p = 0 then none else some (load buf p valueLen.toNat)⟩

section
variable {m : Machine} {buf mem mem' : Memory} {blen : Nat} {got dest : List Attribute}

theorem unpackClientLoopSeen {left n : Nat} (long : dest.length = left)
    (done : unpackClientLoop m buf blen left n dest mem = .ok (none, got, mem')) :
    got = List.zipWith filled dest ((List.range' n left).map (seen buf)) ∧
      mem' = storeAll (writes dest ((List.range' n left).map (seen buf))) mem := by
  induction left generalizing n dest mem got with
  | zero =>
    cases List.length_eq_zero_iff.mp long
    cases done
    exact ⟨rfl, rfl⟩
  | succ left ih =>
    cases dest with
    | nil => cases long
    | cons x rest =>
      rw [List.range'_succ, List.map_cons, writesCons, List.zipWith_cons_cons, storeAll]
      have long : rest.length = left := Nat.succ.inj long
      have items : (seen buf n).bytes = if (loadWord buf (4 + 12 * n + 4)).toNat = 0 then none
          else some (load buf (loadWord buf (4 + 12 * n + 4)).toNat
            ((loadWord buf (4 + 12 * n + 8)).setWidth 16 : BitVec 16).toNat) := rfl
      rw [unpackClientLoop] at done
      split at done
      · cases done
      · rw [items]
        by_cases zero : (loadWord buf (4 + 12 * n + 4)).toNat = 0
        · simp only [if_pos zero] at done ⊢
          obtain ⟨⟨status, later, after⟩, run, same⟩ := bindOk.mp done
          cases same
          obtain ⟨rfl, rfl⟩ := ih long run
          refine ⟨rfl, ?_⟩
          rw [Option.getD_none, storeNone]
        · simp only [if_neg zero] at done ⊢
          split at done
          · cases done
          · split at done
            · cases done
            · obtain ⟨⟨status, later, after⟩, run, same⟩ := bindOk.mp done
              cases same
              obtain ⟨rfl, rfl⟩ := ih long run
              exact ⟨rfl, rfl⟩

theorem packSkAttrsRan {attrs : List Attribute} {out : Memory} (some : attrs ≠ [])
    (done : packSkAttrs mem attrs = .ok (out, blen)) : blen = packedSize attrs ∧
      ∃ b, packLoop mem (packedSize attrs) keeps unvalued attrs 0
        (storeWord (fun _ => 0) 0 (BitVec.ofNat 32 (attrs.filter keeps).length))
        (4 + 12 * (attrs.filter keeps).length) = .ok (out, b) := by
  rw [packSkAttrs, if_neg some] at done
  obtain ⟨-, run⟩ := putBind.mp done
  obtain ⟨⟨out', b⟩, looped, same⟩ := bindOk.mp run
  cases same
  exact ⟨rfl, b, looped⟩

def marked : Memory := fun _ => 0xFF#8

def farBuffers (n : Nat) : List Attribute := (List.range n).map fun j => ⟨0, 1 + 65536 * j, 0⟩

theorem farRoom (attrs : List Attribute) : Room (farBuffers attrs.length) attrs := by
  have long : (farBuffers attrs.length).length = attrs.length := by simp [farBuffers]
  have far (j : Nat) (inside : j < (farBuffers attrs.length).length) :
      (farBuffers attrs.length)[j].value = 1 + 65536 * j := by simp [farBuffers]
  constructor
  · refine List.forall₂_iff_get.mpr ⟨long, fun j inside _ null => absurd null ?_⟩
    rw [List.get_eq_getElem, far]
    omega
  · refine List.pairwise_iff_getElem.mpr fun i j insideI insideJ less => ?_
    simp only [List.getElem_zipWith]
    rw [List.length_zipWith] at insideI insideJ
    rw [far i (by omega), far j (by omega)]
    intro a low high both
    have := (attrs[i]).valueLen.isLt
    omega

def Short (items : List Item) : Prop := ∀ item ∈ items, (item.bytes.getD []).length < 65536

theorem farWrite (items : List Item) {j : Nat} (inside : j < (writes (farBuffers items.length) items).length) :
    j < items.length ∧ (writes (farBuffers items.length) items)[j] =
      (1 + 65536 * j, (items[j]?.bind Item.bytes).getD []) := by
  have inside' : j < items.length := by simpa [writes, farBuffers] using inside
  exact ⟨inside', by simp [writes, farBuffers, inside']⟩

variable {items : List Item}

theorem farApart (short : Short items) : (writes (farBuffers items.length) items).Pairwise Separate := by
  refine List.pairwise_iff_getElem.mpr fun i j insideI insideJ less a within => ?_
  obtain ⟨hereI, writeI⟩ := farWrite items insideI
  obtain ⟨hereJ, writeJ⟩ := farWrite items insideJ
  have small := short items[i] (List.getElem_mem hereI)
  rw [writeI, Beyond, List.getElem?_eq_getElem hereI] at within
  rw [writeJ, Beyond]
  simp only [Option.bind_some] at within ⊢
  omega

theorem farRead (short : Short items) {j : Nat} (inside : j < items.length) :
    load (storeAll (writes (farBuffers items.length) items) fun _ => 0) (1 + 65536 * j)
      (items[j].bytes.getD []).length = items[j].bytes.getD [] := by
  refine storeAllRead (w := (1 + 65536 * j, items[j].bytes.getD [])) (farApart short) ?_
  refine List.mem_iff_getElem.mpr ⟨j, by simpa [writes, farBuffers] using inside, ?_⟩
  simp [writes, farBuffers]

theorem farKept (short : Short items) {j : Nat} (inside : j < items.length)
    (none : items[j].bytes = none) {a : Nat} (low : 1 + 65536 * j ≤ a) (high : a < 1 + 65536 * (j + 1)) :
    storeAll (writes (farBuffers items.length) items) (fun _ => 0) a = 0 := by
  refine storeAllOutside fun w member => ?_
  obtain ⟨i, insideI, rfl⟩ := List.mem_iff_getElem.mp member
  obtain ⟨hereI, writeI⟩ := farWrite items insideI
  have small := short items[i] (List.getElem_mem hereI)
  rw [writeI, List.getElem?_eq_getElem hereI, Beyond, Option.bind_some]
  change _ ∨ 1 + 65536 * i + (items[i].bytes.getD []).length ≤ a
  rcases Nat.lt_trichotomy i j with less | rfl | more
  · omega
  · rw [none]
    exact .inr low
  · left
    change a < 1 + 65536 * i
    omega

theorem unpackAttrsSeen {address : Nat} (some : 0 < blen) (count : (loadWord buf 0).toNat = dest.length)
    (done : unpackAttrs m buf address blen dest mem = .ok (none, got, mem')) :
    got = List.zipWith filled dest ((List.range dest.length).map (seen buf)) ∧
      mem' = storeAll (writes dest ((List.range dest.length).map (seen buf))) mem := by
  rw [unpackAttrs, if_neg (by omega)] at done
  split at done
  · cases done
  · rw [count] at done
    by_cases short : blen - 4 < wrap m.bits (dest.length * 12)
    · simp only [if_pos short] at done
      cases done
    · simp only [if_neg short] at done
      rw [List.range_eq_range']
      exact unpackClientLoopSeen rfl done

theorem seenShort (buf : Memory) (j : Nat) : ((seen buf j).bytes.getD []).length < 65536 := by
  have := (seen buf j).valueLen.isLt
  unfold seen at *
  simp only at *
  split
  · exact Nat.succ_pos _
  · rw [Option.getD_some, loadLength]
    exact this

theorem returnsSeen {attrs : List Attribute} (some : attrs ≠ []) (valued : Valued attrs)
    (fits : packedSize attrs < 2 ^ 32) (returned : Returns m marked attrs) :
    ∃ out b, packLoop marked (packedSize attrs) keeps unvalued attrs 0
        (storeWord (fun _ => 0) 0 (BitVec.ofNat 32 (attrs.filter keeps).length))
        (4 + 12 * (attrs.filter keeps).length) = .ok (out, b) ∧
      ∀ j, (inside : j < (attrs.filter keeps).length) →
        (loadWord out (4 + 12 * j + 8)).setWidth 16 = (attrs.filter keeps)[j].valueLen ∧
        ((attrs.filter keeps)[j].valueLen ≠ 0 → (loadWord out (4 + 12 * j + 4)).toNat ≠ 0 ∧
          ∀ q, (loadWord out (4 + 12 * j + 4)).toNat ≤ q →
            q < (loadWord out (4 + 12 * j + 4)).toNat + (attrs.filter keeps)[j].valueLen.toNat →
              out q = 0xFF#8) := by
  obtain ⟨out, blen, packed, arrives⟩ := returned
  obtain ⟨rfl, b, run⟩ := packSkAttrsRan some packed
  refine ⟨out, b, run, ?_⟩
  have size := packedSizeTotal attrs
  have valued (x : Attribute) (member : x ∈ attrs.filter keeps) := valued x (List.mem_of_mem_filter member)
  generalize attrs.filter keeps = l at *
  have count : (loadWord out 0).toNat = l.length := by
    rw [loadWordCongr fun i _ below => (packLoopRan run le_rfl).1 i (by omega) fun t _ _ => .inl (by omega)]
    refine (congrArg BitVec.toNat loadWordStored).trans ?_
    rw [BitVec.toNat_ofNat, Nat.mod_eq_of_lt (by omega)]
  have long : (farBuffers l.length).length = l.length := by simp [farBuffers]
  obtain ⟨got, client, unpacked, views⟩ := arrives 0 (farBuffers l.length) (fun _ => 0) rfl (farRoom l)
  obtain ⟨rfl, rfl⟩ := unpackAttrsSeen (by omega) (count.trans long.symm) unpacked
  rw [long] at views
  generalize made : (List.range l.length).map (seen out) = items at *
  have same : items.length = l.length := by simp [← made]
  have item (j : Nat) (inside : j < items.length) : items[j] = seen out j := by simp [← made]
  have short : Short items := by
    intro item member
    rw [← made] at member
    obtain ⟨j, -, rfl⟩ := List.mem_map.mp member
    exact seenShort out j
  rw [← same] at views
  intro j inside
  have inside' : j < items.length := by omega
  have view := List.getElem_of_eq views (i := j) (by simp [same, inside, farBuffers])
  simp only [List.getElem_map, List.getElem_zipWith, item j inside'] at view
  have length : (seen out j).valueLen = l[j].valueLen := congrArg (fun v => v.2.1) view
  refine ⟨length, fun full => ?_⟩
  have insideFar : j < (farBuffers items.length).length := by simpa [farBuffers] using inside'
  have far : (farBuffers items.length)[j] = ⟨0, 1 + 65536 * j, 0⟩ := by simp [farBuffers]
  have value : l[j].value ≠ 0 := fun null => full (valued _ (List.getElem_mem inside) null)
  have bytes := congrArg (fun v => v.2.2) view
  simp only [Attribute.view, filled, far, length, if_neg value] at bytes
  rw [if_neg (by omega)] at bytes
  have positive : 0 < l[j].valueLen.toNat := by
    rw [Nat.pos_iff_ne_zero]
    exact fun zero => full (BitVec.eq_of_toNat_eq zero)
  have byte (i : Nat) (less : i < l[j].valueLen.toNat) :
      storeAll (writes (farBuffers items.length) items) (fun _ => 0) (1 + 65536 * j + i) = 0xFF#8 := by
    have there := List.getElem_of_eq bytes (i := i) (by simpa using less)
    simpa [load, marked] using there
  have copied : items[j].bytes = if (loadWord out (4 + 12 * j + 4)).toNat = 0 then none
      else Option.some (load out (loadWord out (4 + 12 * j + 4)).toNat l[j].valueLen.toNat) := by
    rw [item j inside', ← length]
    rfl
  have small := l[j].valueLen.isLt
  by_cases zero : (loadWord out (4 + 12 * j + 4)).toNat = 0
  · rw [if_pos zero] at copied
    have kept := farKept short inside' copied (Nat.le_add_right _ 0) (by omega)
    rw [byte 0 positive] at kept
    exact absurd kept (by decide)
  · rw [if_neg zero] at copied
    refine ⟨zero, fun q low high => ?_⟩
    have read := farRead short inside'
    rw [copied, Option.getD_some, loadLength, bytes] at read
    have there := List.getElem_of_eq read (i := q - (loadWord out (4 + 12 * j + 4)).toNat) (by simp; omega)
    simp only [load, List.getElem_map, List.getElem_range, Nat.add_sub_cancel' low] at there
    exact there.symm

end

section
variable {attrs : List Attribute} {m : Machine}

theorem notStoredFirst (disordered : ¬ StoredFirst attrs) : ∃ pre x post, attrs = pre ++ x :: post ∧
    (∀ y ∈ pre, keeps y = true) ∧ keeps x = false ∧ ∃ y ∈ post, keeps y = true := by
  induction attrs with
  | nil => exact absurd List.Pairwise.nil disordered
  | cons x l ih =>
    cases kind : keeps x with
    | true =>
      have later : ¬ StoredFirst l := fun first => disordered (List.pairwise_cons.mpr ⟨fun _ _ _ => kind, first⟩)
      obtain ⟨pre, y, post, rfl, kept, skipped, after⟩ := ih later
      refine ⟨x :: pre, y, post, rfl, fun z member => ?_, skipped, after⟩
      rcases List.mem_cons.mp member with rfl | member
      · exact kind
      · exact kept z member
    | false =>
      refine ⟨[], x, l, rfl, nofun, kind, ?_⟩
      by_contra none
      have none (y : Attribute) (member : y ∈ l) : ¬ keeps y = true := fun yes => none ⟨y, member, yes⟩
      refine disordered (List.pairwise_cons.mpr ⟨fun y member yes => absurd yes (none y member), ?_⟩)
      exact List.pairwise_of_forall_mem_list fun y _ z member yes => absurd yes (none z member)

theorem lastKept {l : List Attribute} (some : ∃ y ∈ l, keeps y = true) :
    ∃ u y w, l = u ++ y :: w ∧ keeps y = true ∧ ∀ z ∈ w, keeps z = false := by
  induction l with
  | nil => simp at some
  | cons x l ih =>
    by_cases later : ∃ y ∈ l, keeps y = true
    · obtain ⟨u, y, w, rfl, kept, skipped⟩ := ih later
      exact ⟨x :: u, y, w, rfl, kept, skipped⟩
    · obtain ⟨y, member, kept⟩ := some
      have none (z : Attribute) (inside : z ∈ l) : keeps z = false := by
        by_contra yes
        exact later ⟨z, inside, Bool.not_eq_false _ ▸ yes⟩
      rcases List.mem_cons.mp member with rfl | inside
      · exact ⟨[], y, l, rfl, kept, none⟩
      · exact absurd kept (by simp [none y inside])

theorem keptPlace {l : List Attribute} {t : Nat} (inside : t < l.length) (kept : keeps l[t] = true) :
    ∃ c, ∃ here : c < (l.filter keeps).length, c ≤ t ∧ (l.filter keeps)[c] = l[t] := by
  induction l generalizing t with
  | nil => cases inside
  | cons x l ih =>
    cases t with
    | zero =>
      have kept : keeps x = true := kept
      exact ⟨0, by simp [List.filter_cons_of_pos kept], le_rfl, by simp [List.filter_cons_of_pos kept]⟩
    | succ t =>
      obtain ⟨c, here, le, same⟩ := ih (Nat.lt_of_succ_lt_succ inside) kept
      cases kind : keeps x with
      | true => exact ⟨c + 1, by simpa [List.filter_cons_of_pos kind], by omega, by simpa [List.filter_cons_of_pos kind]⟩
      | false =>
        have dropped : (x :: l).filter keeps = l.filter keeps := List.filter_cons_of_neg (by simp [kind])
        refine ⟨c, by rwa [dropped], by omega, ?_⟩
        simpa [dropped] using same

theorem returnsFirst (valued : Valued attrs) (fits : packedSize attrs < 2 ^ 32)
    (returned : Returns m marked attrs) : StoredFirst attrs := by
  by_contra disordered
  obtain ⟨pre, x, post, split, kept, skipped, after⟩ := notStoredFirst disordered
  obtain ⟨out, b, run, read⟩ := returnsSeen (by simp [split]) valued fits returned
  have stored : attrs.filter keeps = pre ++ post.filter keeps := by
    rw [split, List.filter_append, List.filter_eq_self.mpr kept, List.filter_cons_of_neg (by simp [skipped])]
  have size := packedSizeTotal attrs
  have valuedPre (y : Attribute) (member : y ∈ pre) (full : unvalued y = false) : y.value ≠ 0 :=
    fun null => by simp [unvalued, null] at full
  rw [stored, List.length_append] at run size
  rw [stored] at read
  have sum : total unvalued (pre ++ post.filter keeps) = total unvalued pre + total unvalued (post.filter keeps) := by
    simp [total]
  generalize places : post.filter keeps = late at *
  generalize bl : packedSize attrs = blen at *
  obtain ⟨mid, packed, filled⟩ := @packLoopFilled marked blen keeps unvalued
    pre 0 (4 + 12 * (pre.length + late.length))
    (storeWord (fun _ => 0) 0 (BitVec.ofNat 32 (pre.length + late.length))) kept valuedPre (by omega)
    (by omega) (by omega) (by omega)
  rw [split, packLoopAppend, packed] at run
  have rest : packLoop marked blen keeps unvalued post (0 + pre.length + 1) mid
      (4 + 12 * (pre.length + late.length) + total unvalued pre) = .ok (out, b) := by
    have shifted := packLoopCons.mp run
    rwa [if_neg (by simp [skipped])] at shifted
  rw [Nat.zero_add] at rest
  obtain ⟨frame, headers⟩ := packLoopRan rest (Nat.le_add_right (4 + 12 * (pre.length + late.length)) _)
  have blank (i : Nat) (low : pre.length ≤ i) (high : i < pre.length + late.length) :
      loadWord mid (4 + 12 * i + 8) = 0 := by
    refine (loadWordCongr fun a _ _ => ?_).trans (loadWordZero _)
    rw [filled.same a (.inr (.inl ⟨by omega, by omega⟩))]
    exact storeWordOutside (by omega)
  have shown (c : Nat) (inside : c < late.length) :
      (loadWord out (4 + 12 * (pre.length + c) + 8)).setWidth 16 = late[c].valueLen := by
    have here := (read (pre.length + c) (by simp; omega)).1
    simpa [List.getElem_append_right] using here
  have emptyLate : ∀ c, (inside : c < late.length) → late[c].valueLen = 0 := by
    intro c
    induction c using Nat.strongRecOn with
    | ind c ih =>
      intro inside
      rw [← shown c inside]
      cases c with
      | zero =>
        rw [loadWordCongr fun a _ _ => frame a (by omega) fun t _ _ => .inl (by omega), blank _ (by omega) (by omega)]
        rfl
      | succ c =>
        have fewer : late.length ≤ post.length := places ▸ List.length_filter_le _ _
        have insidePost : c < post.length := by omega
        by_cases kind : keeps post[c] = true
        · obtain ⟨c', here, le, same⟩ := keptPlace insidePost kind
          simp only [places] at here same
          rw [show pre.length + (c + 1) = pre.length + 1 + c by omega, headers c insidePost kind (by omega),
            lengthKept, ← same]
          exact ih c' (by omega) here
        · rw [loadWordCongr fun a _ _ => frame a (by omega) fun t _ yes => ?_, blank _ (by omega) (by omega)]
          · rfl
          · rcases Nat.lt_trichotomy t c with less | rfl | more
            · omega
            · exact absurd yes kind
            · omega
  have unvaluedZero {z : Attribute} (zero : z.valueLen = 0) : unvalued z = true := by simp [unvalued, zero]
  have none (z : Attribute) (member : z ∈ late) : unvalued z = true := by
    obtain ⟨c, inside, rfl⟩ := List.mem_iff_getElem.mp member
    exact unvaluedZero (emptyLate c inside)
  have totalLate : total unvalued late = 0 := totalEmpty none
  obtain ⟨u, y, w, rfl, keptY, skippedW⟩ := lastKept after
  have behind : late.length ≤ u.length + 1 := by
    have last : w.filter keeps = [] := List.filter_eq_nil_iff.mpr fun z member => by simp [skippedW z member]
    rw [← places, List.filter_append, List.filter_cons_of_pos keptY, last, List.length_append]
    exact Nat.add_le_add_right (List.length_filter_le _ _) 1
  obtain ⟨-, slots⟩ := packLoopEmpty rest fun z member yes =>
    none z (places ▸ List.mem_filter.mpr ⟨member, yes⟩)
  obtain ⟨inside, zero⟩ := slots u.length (by simp) (by simpa using keptY)
  obtain ⟨j, insideJ, p, full, word, low, high⟩ :=
    filled.covered (4 + 12 * (pre.length + 1 + u.length) + 4) (by omega) (by omega) (by omega)
  rw [Nat.zero_add] at word
  have same : loadWord out (4 + 12 * j + 4) = BitVec.ofNat 32 p := by
    rw [← word]
    exact loadWordCongr fun a _ _ => frame a (by omega) fun t _ _ => .inl (by omega)
  have start : (loadWord out (4 + 12 * j + 4)).toNat = p := by
    rw [same, BitVec.toNat_ofNat, Nat.mod_eq_of_lt (by omega)]
  have insideBoth : j < (pre ++ late).length := by
    rw [List.length_append]
    omega
  have owner : (pre ++ late)[j] = pre[j] := List.getElem_append_left insideJ
  have bytes := (read j insideBoth).2
  rw [start, owner] at bytes
  obtain ⟨-, bytes⟩ := bytes fun zero => by simp [unvaluedZero zero] at full
  have byte := loadWordLow out (4 + 12 * (pre.length + 1 + u.length) + 4)
  rw [zero, bytes _ low high] at byte
  exact absurd byte (by decide)

theorem returnsPositive (valued : Valued attrs) (fits : packedSize attrs < 2 ^ 32) (first : StoredFirst attrs)
    (returned : Returns m marked attrs) : Positive attrs := by
  intro x member kept
  by_contra large
  have some : attrs ≠ [] := List.ne_nil_of_mem member
  obtain ⟨out, b, run, read⟩ := returnsSeen some valued fits returned
  obtain ⟨out', packed, whole⟩ := @packSkAttrsPacked marked attrs some first fits
  obtain ⟨-, b', run'⟩ := packSkAttrsRan some packed
  obtain ⟨rfl, rfl⟩ := Prod.mk.inj (Except.ok.inj (run.symm.trans run'))
  obtain ⟨j, inside, rfl⟩ := List.mem_iff_getElem.mp (List.mem_filter.mpr ⟨member, kept⟩)
  generalize attrs.filter keeps = l at *
  have negative : unvalued l[j] = true := by
    have small := l[j].valueLen.isLt
    rw [unvalued, decide_eq_true_iff, BitVec.toInt_eq_toNat_cond, if_neg (by omega)]
    omega
  have inside' : j < (l.map fun x => x.item marked unvalued).length := by simpa using inside
  have leads := (whole.slots j inside').leads
  have none : (l[j].item marked unvalued).bytes = none := by rw [Attribute.item, if_pos negative]
  rw [List.getElem_map, Leads, none] at leads
  obtain ⟨offset, -⟩ := (read j inside).2 fun zero => large (by rw [zero]; decide)
  exact offset (by rw [leads]; rfl)

theorem attributesCross (m : Machine) :
    (∀ client attrs, Valued attrs → getAttrSize attrs < 2 ^ 32 → Arrives m client attrs) ∧
    ∀ attrs, Valued attrs → packedSize attrs < 2 ^ 32 →
      ((∀ mem, Returns m mem attrs) ↔ StoredFirst attrs ∧ Positive attrs) := by
  refine ⟨fun client attrs valued small => arrives valued small, fun attrs valued fits => ⟨fun all => ?_, ?_⟩⟩
  · have first := returnsFirst valued fits (all marked)
    exact ⟨first, returnsPositive valued fits first (all marked)⟩
  · exact fun ⟨first, positive⟩ mem => returns first valued positive fits

end

def modulusFirst : List Attribute := [⟨skAttrModulus, 0x200, 4⟩, ⟨skAttrPrivateExponent, 0x100, 4⟩]

theorem attributesCrossExample : Arrives .wide (fun i => BitVec.ofNat 8 i) modulusFirst ∧
    Returns .narrow (fun i => BitVec.ofNat 8 i) modulusFirst := by
  have valued : Valued modulusFirst := by
    unfold Valued
    decide
  have first : StoredFirst modulusFirst := by
    unfold StoredFirst
    decide
  have positive : Positive modulusFirst := by
    unfold Positive
    decide
  exact ⟨(attributesCross .wide).1 _ _ valued (by decide),
    ((attributesCross .narrow).2 _ valued (by decide)).mpr ⟨first, positive⟩ _⟩

theorem privateFirst : Valued modulusFirst.reverse ∧ packedSize modulusFirst.reverse = 20 ∧
    packSkAttrs (fun _ => 0) modulusFirst.reverse = .error .fault ∧
    ¬ Returns .wide (fun _ => 0) modulusFirst.reverse := by
  have valued : Valued modulusFirst.reverse := by
    unfold Valued
    decide
  have outside : packSkAttrs (fun _ => 0) modulusFirst.reverse = .error .fault := rfl
  refine ⟨valued, by decide, outside, fun ⟨out, blen, packed, _⟩ => ?_⟩
  rw [outside] at packed
  cases packed

end Flexbuild.SecureObjects
