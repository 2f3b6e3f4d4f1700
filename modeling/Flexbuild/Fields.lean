import Flexbuild.ByteMemory

/-! Strings of bytes with fields of one, two and four bytes, the high byte first. Writing
a field keeps the length of the string; a field that was written reads back, and bytes
outside of it stay. -/
namespace Flexbuild.Fields
open ByteMemory (Byte)

def byteAt (l : List Byte) (i : Nat) : Byte := l.getD i 0

def halfAt (l : List Byte) (i : Nat) : BitVec 16 := byteAt l i ++ byteAt l (i + 1)

def fullAt (l : List Byte) (i : Nat) : BitVec 32 := halfAt l i ++ halfAt l (i + 2)

def overwrite (l : List Byte) (a : Nat) (bytes : List Byte) : List Byte :=
  l.mapIdx fun i b => if a ≤ i then bytes.getD (i - a) b else b

def halfBytes (v : BitVec 16) : List Byte := [v.extractLsb' 8 8, v.extractLsb' 0 8]

def fullBytes (v : BitVec 32) : List Byte := halfBytes (v.extractLsb' 16 16) ++ halfBytes (v.extractLsb' 0 16)

def setByte (l : List Byte) (a : Nat) (v : Byte) : List Byte := overwrite l a [v]

def setHalf (l : List Byte) (a : Nat) (v : BitVec 16) : List Byte := overwrite l a (halfBytes v)

def setFull (l : List Byte) (a : Nat) (v : BitVec 32) : List Byte := overwrite l a (fullBytes v)

variable {l r bytes : List Byte} {a b i n : Nat}

@[simp] theorem overwriteLength (l : List Byte) (a : Nat) (bytes : List Byte) : (overwrite l a bytes).length = l.length :=
  List.length_mapIdx

@[simp] theorem setByteLength (l : List Byte) (a : Nat) (v : Byte) : (setByte l a v).length = l.length :=
  overwriteLength _ _ _

@[simp] theorem setHalfLength (l : List Byte) (a : Nat) (v : BitVec 16) : (setHalf l a v).length = l.length :=
  overwriteLength _ _ _

@[simp] theorem setFullLength (l : List Byte) (a : Nat) (v : BitVec 32) : (setFull l a v).length = l.length :=
  overwriteLength _ _ _

theorem byteOutside (outside : i < a ∨ a + bytes.length ≤ i) : byteAt (overwrite l a bytes) i = byteAt l i := by
  unfold byteAt overwrite
  rw [List.getD_eq_getElem?_getD, List.getD_eq_getElem?_getD, List.getElem?_mapIdx]
  cases l[i]? with
  | none => rfl
  | some b =>
    rw [Option.map_some, Option.getD_some, Option.getD_some]
    split
    · exact List.getD_eq_default _ _ (by omega)
    · rfl

theorem byteInside (inside : i < bytes.length) (room : a + i < l.length) :
    byteAt (overwrite l a bytes) (a + i) = byteAt bytes i := by
  unfold byteAt overwrite
  rw [List.getD_eq_getElem?_getD, List.getElem?_mapIdx, List.getElem?_eq_getElem room, Option.map_some, Option.getD_some,
    if_pos (Nat.le_add_right a i), Nat.add_sub_cancel_left, List.getD_eq_getElem _ _ inside, List.getD_eq_getElem _ _ inside]

theorem halfCongr (same : ∀ i, a ≤ i → i < a + 2 → byteAt l i = byteAt r i) : halfAt l a = halfAt r a := by
  unfold halfAt
  rw [same a (by omega) (by omega), same (a + 1) (by omega) (by omega)]

theorem fullCongr (same : ∀ i, a ≤ i → i < a + 4 → byteAt l i = byteAt r i) : fullAt l a = fullAt r a := by
  unfold fullAt
  rw [halfCongr fun i low high => same i low (by omega), halfCongr fun i low high => same i (by omega) (by omega)]

theorem halfOutside (outside : b + 2 ≤ a ∨ a + bytes.length ≤ b) : halfAt (overwrite l a bytes) b = halfAt l b :=
  halfCongr fun _ _ _ => byteOutside (by omega)

theorem setByteRead {v : Byte} (room : a < l.length) : byteAt (setByte l a v) a = v :=
  byteInside (i := 0) (Nat.succ_pos 0) room

theorem setHalfRead {v : BitVec 16} (room : a + 2 ≤ l.length) : halfAt (setHalf l a v) a = v := by
  have high : byteAt (setHalf l a v) a = v.extractLsb' 8 8 := byteInside (i := 0) (Nat.succ_pos 1) (by omega)
  have low : byteAt (setHalf l a v) (a + 1) = v.extractLsb' 0 8 := byteInside (i := 1) (Nat.lt_succ_self 1) (by omega)
  rw [halfAt, high, low]
  exact BitVec.extractLsb'_append_extractLsb'

theorem setFullRead {v : BitVec 32} (room : a + 4 ≤ l.length) : fullAt (setFull l a v) a = v := by
  have byte (i : Nat) (inside : i < 4) : byteAt (setFull l a v) (a + i) = byteAt (fullBytes v) i :=
    byteInside inside (by omega)
  have high : halfAt (setFull l a v) a = v.extractLsb' 16 16 := by
    rw [halfAt, show byteAt (setFull l a v) a = _ from byte 0 (by omega), byte 1 (by omega)]
    exact BitVec.extractLsb'_append_extractLsb'
  have low : halfAt (setFull l a v) (a + 2) = v.extractLsb' 0 16 := by
    rw [halfAt, byte 2 (by omega), byte 3 (by omega)]
    exact BitVec.extractLsb'_append_extractLsb'
  rw [fullAt, high, low]
  exact BitVec.extractLsb'_append_extractLsb'

theorem byteTake (below : i < n) : byteAt (l.take n) i = byteAt l i := by
  unfold byteAt
  rw [List.getD_eq_getElem?_getD, List.getD_eq_getElem?_getD, List.getElem?_take_of_lt below]

theorem byteDrop : byteAt (l.drop n) i = byteAt l (n + i) := by
  unfold byteAt
  rw [List.getD_eq_getElem?_getD, List.getD_eq_getElem?_getD, List.getElem?_drop]

theorem byteAppend (below : i < l.length) : byteAt (l ++ r) i = byteAt l i := by
  unfold byteAt
  rw [List.getD_eq_getElem?_getD, List.getD_eq_getElem?_getD, List.getElem?_append_left below]

theorem dropOverwritten (below : a + bytes.length ≤ n) : (overwrite l a bytes).drop n = l.drop n := by
  refine List.ext_getElem (by simp) fun i inside inside' => ?_
  simp only [List.getElem_drop, overwrite, List.getElem_mapIdx]
  split
  · exact List.getD_eq_default _ _ (by omega)
  · rfl

end Flexbuild.Fields
