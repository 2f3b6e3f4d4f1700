import Mathlib
import Flexbuild.ByteMemory

/-! A pool of ids in external memory: an index of two bytes, the last id, and the ids as a stack of
bytes. A call holds the mutex of the pool from its first access to its last, so it is one step. -/
namespace Flexbuild.IdPool
open ByteMemory

inductive Refusal where
  | enospc | enavail
  deriving DecidableEq, Repr

-- The pool as it is filled in local memory, `fillIds` bytes of it.
def localPool (lastIdInPool : Byte) (numOfWrites fillIds : Nat) : List Byte :=
  let pool := (List.range fillIds).map fun (i : Nat) => BitVec.ofInt 8 (((numOfWrites <<< 6 + i : Nat) : Int) - 3)
  if numOfWrites = 0 then ((pool.set 0 0).set 1 0).set 2 lastIdInPool else pool

def fillPool (pool : Nat) (lastIdInPool : Byte) : Nat → Memory → Nat → Nat → Memory
  | 0, m, _, _ => m
  | fuel + 1, m, numOfWrites, poolLengthToFill =>
    if poolLengthToFill = 0 then m
    else
      let fillIds := if poolLengthToFill < 64 then poolLengthToFill else 64
      fillPool pool lastIdInPool fuel (store m (pool + numOfWrites <<< 6) (localPool lastIdInPool numOfWrites fillIds))
        ((numOfWrites + 1) % 2 ^ 8) (poolLengthToFill - fillIds)

def idPoolInit (numOfIds : BitVec 16) (pool : Nat) (m : Memory) : Memory :=
  let poolLengthToFill := (numOfIds + 3).toNat
  fillPool pool ((numOfIds - 1).setWidth 8) poolLengthToFill m 0 poolLengthToFill

def index (m : Memory) (pool : Nat) : BitVec 16 := m pool ++ m (pool + 1)

def indexBytes (index : BitVec 16) : List Byte := [index.extractLsb' 8 8, index.extractLsb' 0 8]

def getId (pool : Nat) (m : Memory) : Memory × Except Refusal Byte :=
  let index := index m pool
  let lastId := m (pool + 2)
  if index.toNat ≤ lastId.toNat then
    (store m pool (indexBytes (index + 1)), .ok (m (pool + index.toNat + 3)))
  else (m, .error .enospc)

def releaseId (id : Byte) (pool : Nat) (m : Memory) : Memory × Except Refusal Unit :=
  let index := index m pool
  if index = 0 then (m, .error .enavail)
  else
    let index := index - 1
    (store (store m (pool + index.toNat + 3) [id]) pool (indexBytes index), .ok ())

structure State where
  memory : Memory
  held : List Byte

inductive Step (numOfIds pool : Nat) : State → State → Prop where
  | got {s m id} (given : getId pool s.memory = (m, .ok id)) : Step numOfIds pool s ⟨m, id :: s.held⟩
  | refused {s m refusal} (none : getId pool s.memory = (m, .error refusal)) : Step numOfIds pool s ⟨m, s.held⟩
  | released {s m id} (member : id ∈ s.held) (taken : releaseId id pool s.memory = (m, .ok ())) :
      Step numOfIds pool s ⟨m, s.held.erase id⟩
  | kept {s m id refusal} (member : id ∈ s.held) (failed : releaseId id pool s.memory = (m, .error refusal)) :
      Step numOfIds pool s ⟨m, s.held⟩
  | elsewhere {s m} (outside : ∀ i, pool ≤ i → i < pool + numOfIds + 3 → m i = s.memory i) :
      Step numOfIds pool s ⟨m, s.held⟩

inductive Reachable (numOfIds : BitVec 16) (pool : Nat) : State → Prop where
  | init (m : Memory) : Reachable numOfIds pool ⟨idPoolInit numOfIds pool m, []⟩
  | step {s s'} (before : Reachable numOfIds pool s) (next : Step numOfIds.toNat pool s s') : Reachable numOfIds pool s'

section filling

variable {m : Memory} {pool i j : Nat} {lastIdInPool : Byte}

def poolByte (lastIdInPool : Byte) (offset : Nat) : Byte :=
  if offset < 2 then 0 else if offset = 2 then lastIdInPool else BitVec.ofNat 8 (offset - 3)

theorem localPoolLength (numOfWrites fillIds : Nat) : (localPool lastIdInPool numOfWrites fillIds).length = fillIds := by
  unfold localPool
  split <;> simp

theorem byteOf {offset : Nat} (behind : 3 ≤ offset) : BitVec.ofInt 8 ((offset : Int) - 3) = BitVec.ofNat 8 (offset - 3) := by
  rw [show (offset : Int) - 3 = ((offset - 3 : Nat) : Int) by omega]
  exact BitVec.ofInt_natCast 8 _

theorem localPoolByte {numOfWrites fillIds : Nat} (inside : i < (localPool lastIdInPool numOfWrites fillIds).length) :
    (localPool lastIdInPool numOfWrites fillIds)[i] = poolByte lastIdInPool (numOfWrites * 64 + i) := by
  have place : numOfWrites <<< 6 + i = numOfWrites * 64 + i := by rw [Nat.shiftLeft_eq]
  simp only [localPool, poolByte]
  by_cases first : numOfWrites = 0
  · subst first
    simp only [if_true, List.getElem_set, List.getElem_map, List.getElem_range]
    by_cases zero : i = 0
    · subst zero
      rfl
    by_cases one : i = 1
    · subst one
      rfl
    by_cases two : i = 2
    · subst two
      rfl
    rw [if_neg (Ne.symm two), if_neg (Ne.symm one), if_neg (Ne.symm zero), if_neg (by omega), if_neg (by omega), place]
    exact byteOf (by omega)
  · simp only [if_neg first, List.getElem_map, List.getElem_range]
    rw [if_neg (by omega), if_neg (by omega), place]
    exact byteOf (by omega)

theorem fillPoolByte {fuel numOfWrites poolLengthToFill : Nat} (enough : poolLengthToFill ≤ fuel)
    (small : poolLengthToFill ≠ 0 → numOfWrites * 64 + poolLengthToFill ≤ 259)
    (inside : i < numOfWrites * 64 + poolLengthToFill)
    (written : i < numOfWrites * 64 → m (pool + i) = poolByte lastIdInPool i) :
    fillPool pool lastIdInPool fuel m numOfWrites poolLengthToFill (pool + i) = poolByte lastIdInPool i := by
  induction fuel generalizing m numOfWrites poolLengthToFill with
  | zero => exact written (by omega)
  | succ fuel ih =>
    rw [fillPool]
    by_cases done : poolLengthToFill = 0
    · rw [if_pos done]
      exact written (by omega)
    rw [if_neg done]
    have small := small done
    have next : (numOfWrites + 1) % 2 ^ 8 = numOfWrites + 1 := Nat.mod_eq_of_lt (by omega)
    have start : pool + numOfWrites <<< 6 = pool + numOfWrites * 64 := by rw [Nat.shiftLeft_eq]
    generalize chunk : (if poolLengthToFill < 64 then poolLengthToFill else 64) = fillIds
    have turn : 1 ≤ fillIds ∧ fillIds ≤ poolLengthToFill ∧ (fillIds = 64 ∨ fillIds = poolLengthToFill ∧ fillIds < 64) := by
      rw [← chunk]
      split <;> omega
    rw [next, start]
    refine ih (by omega) (by omega) (by omega) fun _ => ?_
    have length : (localPool lastIdInPool numOfWrites fillIds).length = fillIds := localPoolLength numOfWrites fillIds
    by_cases earlier : i < numOfWrites * 64
    · rw [storeOutside (Or.inl (by omega))]
      exact written earlier
    · obtain ⟨k, rfl⟩ := Nat.exists_eq_add_of_le (Nat.le_of_not_lt earlier)
      rw [← Nat.add_assoc, storeInside (by omega)]
      exact localPoolByte _

end filling

section words

variable {m : Memory} {pool : Nat}

theorem indexStored {m' : Memory} (word : BitVec 16) (high : m' pool = word.extractLsb' 8 8)
    (low : m' (pool + 1) = word.extractLsb' 0 8) : index m' pool = word := by
  rw [index, high, low]
  ext i inside
  rw [BitVec.getElem_append]
  split
  · rw [BitVec.getElem_extractLsb', Nat.zero_add, BitVec.getLsbD_eq_getElem inside]
  · rw [BitVec.getElem_extractLsb', Nat.add_sub_cancel' (by omega), BitVec.getLsbD_eq_getElem inside]

theorem indexWritten (word : BitVec 16) : index (store m pool (indexBytes word)) pool = word :=
  indexStored word (storeInside (i := 0) (by simp [indexBytes])) (storeInside (i := 1) (by simp [indexBytes]))

theorem indexApart {i : Nat} {word : BitVec 16} (behind : pool + 2 ≤ i) : store m pool (indexBytes word) i = m i :=
  storeOutside (Or.inr behind)

theorem indexLoadApart {a n : Nat} {word : BitVec 16} (behind : pool + 2 ≤ a) :
    load (store m pool (indexBytes word)) a n = load m a n :=
  loadApart (Or.inr behind)

theorem indexKept {m' : Memory} (same : ∀ i, pool ≤ i → i < pool + 2 → m' i = m i) : index m' pool = index m pool := by
  rw [index, index, same pool (by omega) (by omega), same (pool + 1) (by omega) (by omega)]

end words

def allIds (numOfIds : Nat) : List Byte := (List.range numOfIds).map (BitVec.ofNat 8)

theorem allIdsLength (numOfIds : Nat) : (allIds numOfIds).length = numOfIds := by simp [allIds]

theorem allIdsDistinct {numOfIds : Nat} (most : numOfIds ≤ 256) : (allIds numOfIds).Nodup := by
  refine List.Nodup.map_on (fun a low b other same => ?_) List.nodup_range
  have small := List.mem_range.mp low
  have small' := List.mem_range.mp other
  have values := congrArg BitVec.toNat same
  rw [BitVec.toNat_ofNat, BitVec.toNat_ofNat] at values
  omega

theorem allIdsBelow {numOfIds : Nat} {id : Byte} (member : id ∈ allIds numOfIds) : id.toNat < numOfIds := by
  obtain ⟨a, low, rfl⟩ := List.mem_map.mp member
  have small := List.mem_range.mp low
  rw [BitVec.toNat_ofNat]
  exact Nat.lt_of_le_of_lt (Nat.mod_le _ _) small

def rest (numOfIds pool : Nat) (s : State) : List Byte :=
  load s.memory (pool + s.held.length + 3) (numOfIds - s.held.length)

structure Sound (numOfIds pool : Nat) (s : State) : Prop where
  index : (index s.memory pool).toNat = s.held.length
  last : (s.memory (pool + 2)).toNat = numOfIds - 1
  whole : (s.held ++ rest numOfIds pool s).Perm (allIds numOfIds)

namespace Sound

variable {numOfIds pool : Nat} {s : State} {m : Memory} {id : Byte}

theorem most (sound : Sound numOfIds pool s) : s.held.length ≤ numOfIds := by
  have same := sound.whole.length_eq
  rw [List.length_append, allIdsLength] at same
  omega

end Sound

theorem loadCons {m : Memory} {a n : Nat} : load m a (n + 1) = m a :: load m (a + 1) n := by
  simp only [load, List.range_succ_eq_map, List.map_cons, List.map_map, Nat.add_zero]
  congr 1
  refine List.map_congr_left fun i _ => ?_
  simp only [Function.comp_apply]
  congr 1
  omega

theorem initSound {numOfIds : BitVec 16} (least : 1 ≤ numOfIds.toNat) (most : numOfIds.toNat ≤ 256) (pool : Nat) (m : Memory) :
    Sound numOfIds.toNat pool ⟨idPoolInit numOfIds pool m, []⟩ := by
  have length : (numOfIds + 3).toNat = numOfIds.toNat + 3 := by
    rw [BitVec.toNat_add]
    exact Nat.mod_eq_of_lt (by simp; omega)
  have last : ((numOfIds - 1).setWidth 8).toNat = numOfIds.toNat - 1 := by
    rw [BitVec.toNat_setWidth, BitVec.toNat_sub]
    simp
    omega
  have byte {i : Nat} (inside : i < numOfIds.toNat + 3) :
      idPoolInit numOfIds pool m (pool + i) = poolByte ((numOfIds - 1).setWidth 8) i := by
    rw [idPoolInit]
    refine fillPoolByte (Nat.le_refl _) (by omega) (by omega) fun none => absurd none (by omega)
  refine ⟨?_, ?_, ?_⟩
  · have zero : index (idPoolInit numOfIds pool m) pool = 0 := indexStored 0 (byte (i := 0) (by omega)) (byte (i := 1) (by omega))
    exact congrArg BitVec.toNat zero
  · rw [← last]
    exact congrArg BitVec.toNat (byte (i := 2) (by omega))
  · refine List.Perm.of_eq ?_
    refine List.map_congr_left fun i low => ?_
    have inside := List.mem_range.mp low
    change idPoolInit numOfIds pool m (pool + 0 + 3 + i) = _
    rw [Nat.add_zero, Nat.add_assoc, byte (by omega), poolByte, if_neg (by omega), if_neg (by omega), Nat.add_sub_cancel_left]

section calls

variable {numOfIds pool : Nat} {s : State} {m : Memory} {id : Byte} {refusal : Refusal}

theorem getIdCases (sound : Sound numOfIds pool s) (least : 1 ≤ numOfIds) :
    (s.held.length < numOfIds ∧ getId pool s.memory = (store s.memory pool (indexBytes (index s.memory pool + 1)),
      .ok (s.memory (pool + s.held.length + 3)))) ∨
    (s.held.length = numOfIds ∧ getId pool s.memory = (s.memory, .error .enospc)) := by
  have most := sound.most
  rw [getId, sound.index, sound.last]
  by_cases left : s.held.length < numOfIds
  · exact Or.inl ⟨left, if_pos (by omega)⟩
  · exact Or.inr ⟨by omega, if_neg (by omega)⟩

theorem releaseIdOk (sound : Sound numOfIds pool s) (member : id ∈ s.held) :
    releaseId id pool s.memory = (store (store s.memory (pool + (s.held.length - 1) + 3) [id]) pool
      (indexBytes (index s.memory pool - 1)), .ok ()) := by
  have some : 0 < s.held.length := List.length_pos_of_mem member
  have positive : index s.memory pool ≠ 0 := fun zero => by
    have none := sound.index
    rw [zero] at none
    have zero : s.held.length = 0 := none.symm
    omega
  have before : (index s.memory pool - 1).toNat = s.held.length - 1 := by
    have small : s.held.length < 2 ^ 16 := sound.index ▸ (index s.memory pool).isLt
    rw [BitVec.toNat_sub, sound.index]
    simp
    omega
  rw [releaseId, if_neg positive]
  dsimp only
  rw [before]

theorem gotKeeps (sound : Sound numOfIds pool s) (least : 1 ≤ numOfIds) (most : numOfIds ≤ 256)
    (given : getId pool s.memory = (m, .ok id)) : Sound numOfIds pool ⟨m, id :: s.held⟩ := by
  obtain ⟨left, result⟩ | ⟨-, result⟩ := getIdCases sound least
  · rw [result] at given
    cases given
    have top : s.held.length + 1 < 2 ^ 16 := by omega
    refine ⟨?_, ?_, ?_⟩
    · rw [indexWritten, BitVec.toNat_add, sound.index]
      exact Nat.mod_eq_of_lt top
    · change (store _ _ _ _).toNat = _
      rw [indexApart (Nat.le_refl _)]
      exact sound.last
    · have stack : rest numOfIds pool s = s.memory (pool + s.held.length + 3) ::
          load s.memory (pool + s.held.length + 3 + 1) (numOfIds - (s.held.length + 1)) := by
        rw [rest, show numOfIds - s.held.length = numOfIds - (s.held.length + 1) + 1 by omega, loadCons]
      have kept : rest numOfIds pool ⟨store s.memory pool (indexBytes (index s.memory pool + 1)),
          s.memory (pool + s.held.length + 3) :: s.held⟩ =
          load s.memory (pool + s.held.length + 3 + 1) (numOfIds - (s.held.length + 1)) := by
        rw [rest, List.length_cons, indexLoadApart (by omega)]
        congr 1
      rw [kept]
      exact List.perm_middle.symm.trans (stack ▸ sound.whole)
  · rw [result] at given
    cases given

theorem releasedKeeps (sound : Sound numOfIds pool s) (member : id ∈ s.held)
    (taken : releaseId id pool s.memory = (m, .ok ())) : Sound numOfIds pool ⟨m, s.held.erase id⟩ := by
  have some : 0 < s.held.length := List.length_pos_of_mem member
  have most := sound.most
  have erased : (s.held.erase id).length = s.held.length - 1 := List.length_erase_of_mem member
  rw [releaseIdOk sound member] at taken
  cases taken
  refine ⟨?_, ?_, ?_⟩
  · have small : s.held.length < 2 ^ 16 := sound.index ▸ (index s.memory pool).isLt
    rw [indexWritten, BitVec.toNat_sub, sound.index, erased]
    simp
    omega
  · change (store _ _ _ _).toNat = _
    rw [indexApart (Nat.le_refl _), storeOutside (Or.inl (by omega))]
    exact sound.last
  · have stack : rest numOfIds pool ⟨store (store s.memory (pool + (s.held.length - 1) + 3) [id]) pool
        (indexBytes (index s.memory pool - 1)), s.held.erase id⟩ = id :: rest numOfIds pool s := by
      rw [rest, erased, show numOfIds - (s.held.length - 1) = numOfIds - s.held.length + 1 by omega, loadCons]
      dsimp only
      have top : store s.memory (pool + (s.held.length - 1) + 3) [id] (pool + (s.held.length - 1) + 3) = id :=
        storeInside (i := 0) (by simp)
      have below : load (store s.memory (pool + (s.held.length - 1) + 3) [id]) (pool + s.held.length + 3)
          (numOfIds - s.held.length) = rest numOfIds pool s := loadApart (Or.inr (by simp; omega))
      rw [indexApart (by omega), indexLoadApart (by omega), top,
        show pool + (s.held.length - 1) + 3 + 1 = pool + s.held.length + 3 by omega, below]
    rw [stack]
    refine List.perm_middle.trans ?_
    exact (List.perm_cons_erase member).symm.append_right _ |>.trans sound.whole

theorem elsewhereKeeps (sound : Sound numOfIds pool s)
    (outside : ∀ i, pool ≤ i → i < pool + numOfIds + 3 → m i = s.memory i) : Sound numOfIds pool ⟨m, s.held⟩ := by
  have most := sound.most
  refine ⟨?_, ?_, ?_⟩
  · rw [indexKept fun i low high => outside i low (by omega)]
    exact sound.index
  · change (m (pool + 2)).toNat = _
    rw [outside (pool + 2) (by omega) (by omega)]
    exact sound.last
  · have same : rest numOfIds pool ⟨m, s.held⟩ = rest numOfIds pool s :=
      loadCongr fun i low high => outside i (by omega) (by omega)
    rw [same]
    exact sound.whole

theorem stepKeeps {s' : State} (sound : Sound numOfIds pool s) (least : 1 ≤ numOfIds) (most : numOfIds ≤ 256)
    (step : Step numOfIds pool s s') : Sound numOfIds pool s' := by
  cases step with
  | got given => exact gotKeeps sound least most given
  | refused none =>
    obtain ⟨-, result⟩ | ⟨-, result⟩ := getIdCases sound least
    · rw [result] at none
      cases none
    · rw [result] at none
      cases none
      exact sound
  | released member taken => exact releasedKeeps sound member taken
  | kept member failed =>
    rw [releaseIdOk sound member] at failed
    cases failed
  | elsewhere outside => exact elsewhereKeeps sound outside

end calls

theorem reachableSound {numOfIds : BitVec 16} {pool : Nat} {s : State} (least : 1 ≤ numOfIds.toNat) (most : numOfIds.toNat ≤ 256)
    (run : Reachable numOfIds pool s) : Sound numOfIds.toNat pool s := by
  induction run with
  | init m => exact initSound least most pool m
  | step _ next sound => exact stepKeeps sound least most next

theorem idsUnique {numOfIds : BitVec 16} {pool : Nat} {s : State} (least : 1 ≤ numOfIds.toNat) (most : numOfIds.toNat ≤ 256)
    (run : Reachable numOfIds pool s) :
    s.held.Nodup ∧ (∀ id ∈ s.held, id.toNat < numOfIds.toNat) ∧
    ((∃ refusal, (getId pool s.memory).2 = .error refusal) ↔ s.held.length = numOfIds.toNat) ∧
    ∀ id ∈ s.held, (releaseId id pool s.memory).2 = .ok () := by
  have sound := reachableSound least most run
  refine ⟨?_, ?_, ?_, ?_⟩
  · exact (List.nodup_append.mp (sound.whole.nodup_iff.mpr (allIdsDistinct most))).1
  · exact fun id member => allIdsBelow (sound.whole.subset (List.mem_append_left _ member))
  · obtain ⟨left, result⟩ | ⟨all, result⟩ := getIdCases sound least
    · rw [result]
      exact ⟨fun ⟨_, refused⟩ => (nomatch refused), fun all => absurd all (by omega)⟩
    · rw [result]
      exact ⟨fun _ => all, fun _ => ⟨_, rfl⟩⟩
  · intro id member
    rw [releaseIdOk sound member]

theorem idsUniqueExample : ∃ s, Reachable 2 0x100 s ∧ s.held = [0] ∧ s.held.Nodup ∧ (releaseId 0 0x100 s.memory).2 = .ok () := by
  have run : Reachable 2 0x100 ⟨(getId 0x100 (idPoolInit 2 0x100 fun _ => 0)).1, [0]⟩ :=
    .step (.init fun _ => 0) (.got (Prod.ext rfl (by decide)))
  have right := idsUnique (by decide) (by decide) run
  exact ⟨_, run, rfl, right.1, right.2.2.2 0 List.mem_cons_self⟩

end Flexbuild.IdPool
