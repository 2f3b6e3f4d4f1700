import Mathlib.Data.List.GetD
import Mathlib.Tactic.Common

/-! Memory as bytes at addresses. `load` and `store` move strings of bytes, `loadWord` and
`storeWord` words of 32 bits with the low byte first. A read sees the last store over its
range, and a store changes nothing outside its own. -/
namespace Flexbuild.ByteMemory

abbrev Byte := BitVec 8
abbrev Memory := Nat → Byte

def load (m : Memory) (a n : Nat) : List Byte := (List.range n).map fun i => m (a + i)

def store (m : Memory) (a : Nat) (bytes : List Byte) : Memory := fun i =>
  if a ≤ i then bytes.getD (i - a) (m i) else m i

def wordBytes (v : BitVec 32) : List Byte :=
  [v.extractLsb' 0 8, v.extractLsb' 8 8, v.extractLsb' 16 8, v.extractLsb' 24 8]

def loadWord (m : Memory) (a : Nat) : BitVec 32 := m (a + 3) ++ m (a + 2) ++ m (a + 1) ++ m a

def storeWord (m : Memory) (a : Nat) (v : BitVec 32) : Memory := store m a (wordBytes v)

variable {m m' : Memory} {a b n i : Nat} {bytes : List Byte} {v : BitVec 32}

@[simp] theorem loadLength (m : Memory) (a n : Nat) : (load m a n).length = n := by simp [load]

@[simp] theorem loadNone (m : Memory) (a : Nat) : load m a 0 = [] := rfl

@[simp] theorem wordLength (v : BitVec 32) : (wordBytes v).length = 4 := rfl

@[simp] theorem storeNone (m : Memory) (a : Nat) : store m a [] = m := by
  funext i
  simp [store]

theorem storeOutside (outside : i < a ∨ a + bytes.length ≤ i) : store m a bytes i = m i := by
  unfold store
  split
  · exact List.getD_eq_default _ _ (by omega)
  · rfl

theorem storeInside (inside : i < bytes.length) : store m a bytes (a + i) = bytes[i] := by
  rw [store, if_pos (Nat.le_add_right a i), Nat.add_sub_cancel_left, List.getD_eq_getElem _ _ inside]

theorem loadCongr (same : ∀ i, a ≤ i → i < a + n → m i = m' i) : load m a n = load m' a n :=
  List.map_congr_left fun i inside =>
    same (a + i) (Nat.le_add_right a i) (Nat.add_lt_add_left (List.mem_range.mp inside) a)

theorem loadWordCongr (same : ∀ i, a ≤ i → i < a + 4 → m i = m' i) : loadWord m a = loadWord m' a := by
  unfold loadWord
  rw [same a (by omega) (by omega), same (a + 1) (by omega) (by omega),
    same (a + 2) (by omega) (by omega), same (a + 3) (by omega) (by omega)]

@[simp] theorem loadStored : load (store m a bytes) a bytes.length = bytes := by
  refine List.ext_getElem (by simp) fun i _ inside => ?_
  simp only [load, List.getElem_map, List.getElem_range]
  exact storeInside inside

theorem loadApart (apart : b + n ≤ a ∨ a + bytes.length ≤ b) : load (store m a bytes) b n = load m b n :=
  loadCongr fun _ _ _ => storeOutside (by omega)

theorem loadWordApart (apart : b + 4 ≤ a ∨ a + bytes.length ≤ b) :
    loadWord (store m a bytes) b = loadWord m b :=
  loadWordCongr fun _ _ _ => storeOutside (by omega)

theorem wordJoined (v : BitVec 32) : (v.extractLsb' 24 8 ++ v.extractLsb' 16 8 ++ v.extractLsb' 8 8 ++
    v.extractLsb' 0 8 : BitVec 32) = v := by
  ext i inside
  simp only [BitVec.getElem_append, BitVec.getElem_extractLsb']
  split
  · simp [BitVec.getLsbD_eq_getElem inside]
  · split
    · rw [← BitVec.getLsbD_eq_getElem inside]
      congr 1
      omega
    · split
      · rw [← BitVec.getLsbD_eq_getElem inside]
        congr 1
        omega
      · rw [← BitVec.getLsbD_eq_getElem inside]
        congr 1
        omega

@[simp] theorem loadWordStored : loadWord (storeWord m a v) a = v := by
  have byte (i : Nat) (inside : i < 4) : storeWord m a v (a + i) = (wordBytes v)[i] := storeInside inside
  unfold loadWord
  rw [byte 3 (by omega), byte 2 (by omega), byte 1 (by omega), show storeWord m a v a = _ from byte 0 (by omega)]
  exact wordJoined v

theorem loadWordZero (a : Nat) : loadWord (fun _ => 0) a = 0 := by
  change (0#8 ++ 0#8 ++ 0#8 ++ 0#8 : BitVec 32) = 0
  decide

theorem loadWordLow (m : Memory) (a : Nat) : (loadWord m a).setWidth 8 = m a := by
  unfold loadWord
  ext i inside
  rw [BitVec.getElem_setWidth, BitVec.getLsbD_append, if_pos inside, BitVec.getLsbD_eq_getElem inside]

theorem storeWordOutside (outside : i < a ∨ a + 4 ≤ i) : storeWord m a v i = m i := storeOutside outside

def storeAll : List (Nat × List Byte) → Memory → Memory
  | [], m => m
  | w :: rest, m => storeAll rest (store m w.1 w.2)

def Beyond (i : Nat) (w : Nat × List Byte) : Prop := i < w.1 ∨ w.1 + w.2.length ≤ i

def Separate (w w' : Nat × List Byte) : Prop := ∀ i, ¬ Beyond i w → Beyond i w'

theorem storeAllOutside {writes : List (Nat × List Byte)} (outside : ∀ w ∈ writes, Beyond i w) :
    storeAll writes m i = m i := by
  induction writes generalizing m with
  | nil => rfl
  | cons w rest ih =>
    rw [storeAll, ih fun w member => outside w (List.mem_cons_of_mem _ member)]
    exact storeOutside (outside w List.mem_cons_self)

theorem storeAllRead {writes : List (Nat × List Byte)} {w : Nat × List Byte}
    (apart : writes.Pairwise Separate) (member : w ∈ writes) :
    load (storeAll writes m) w.1 w.2.length = w.2 := by
  induction writes generalizing m with
  | nil => cases member
  | cons first rest ih =>
    obtain ⟨before, later⟩ := List.pairwise_cons.mp apart
    rcases List.mem_cons.mp member with rfl | member
    · rw [storeAll, loadCongr fun i low high => storeAllOutside fun w member => before w member i ?_]
      · exact loadStored
      · unfold Beyond
        omega
    · exact ih later member

end Flexbuild.ByteMemory
