import Flexbuild.TwoLaps
import Flexbuild.Words

/-! The circular fifo of the DCE sessions, for any number of buffers. All of it is done in 32-bit
arithmetic. The indices stay below two laps and two laps fit the word, but the sum that
`circ_fifo_head_seek` takes may reach a third lap, and that one does not always fit. -/
namespace Flexbuild.CircFifo
open Words TwoLaps

def null : Nat := 0

-- `struct circ_fifo` without its locks.
structure Fifo where
  allocer : Nat
  freer : Nat
  numBufs : Nat
  mem : Nat
  bufSize : Nat
  deriving DecidableEq, Repr

def Fifo.setup (mem objectSize numberObjects : Nat) : Fifo :=
  { allocer := 0, freer := 0, numBufs := wrap 32 numberObjects, mem, bufSize := objectSize }

def Fifo.isEmpty (f : Fifo) : Bool := decide (f.allocer = f.freer)

def Fifo.isFull (f : Fifo) : Bool :=
  decide (f.allocer % f.numBufs = f.freer % f.numBufs ∧ f.allocer ≠ f.freer)

def Fifo.twice (f : Fifo) : Nat := wrap 32 (2 * f.numBufs)

def Fifo.pointer (f : Fifo) (slot : Nat) : Nat := wrap 64 (f.mem + wrap 64 (slot * f.bufSize))

def Fifo.alloc (f : Fifo) : Nat × Fifo :=
  if f.isFull then (null, f)
  else
    let temp := f.allocer % f.numBufs
    (f.pointer temp, { f with allocer := wrap 32 (f.allocer + 1) % f.twice })

-- `none`: the assertion fails.
def Fifo.allocUndo (f : Fifo) : Option Fifo :=
  if f.isEmpty then none
  else some { f with allocer := if f.allocer ≠ 0 then f.allocer - 1 else minus 32 f.twice 1 }

def Fifo.free (f : Fifo) : Option Fifo :=
  if f.isEmpty then none else some { f with freer := wrap 32 (f.freer + 1) % f.twice }

def Fifo.head (f : Fifo) : Nat := f.pointer (f.freer % f.numBufs)

def Fifo.headSeek (f : Fifo) (seek : Nat) : Nat := f.pointer (wrap 32 (f.freer + seek) % f.numBufs)

def Fifo.numAlloc (f : Fifo) : Nat :=
  if f.freer ≤ f.allocer then minus 32 f.allocer f.freer
  else minus 32 (wrap 32 (f.allocer + f.twice)) f.freer

structure Block where
  mem : Nat
  objectSize : Nat
  numberObjects : Nat
  placed : 0 < mem
  sized : 0 < objectSize
  some_ : 0 < numberObjects
  few : numberObjects < 2 ^ 31
  within : mem + numberObjects * objectSize ≤ 2 ^ 64

def Block.object (b : Block) (slot : Nat) : Nat := b.mem + slot * b.objectSize

def Block.setup (b : Block) : Fifo := Fifo.setup b.mem b.objectSize b.numberObjects

structure Book where
  fifo : Fifo
  outstanding : List Nat
  allocs : Nat
  undos : Nat
  frees : Nat
  deriving DecidableEq, Repr

def Block.start (b : Block) : Book := { fifo := b.setup, outstanding := [], allocs := 0, undos := 0, frees := 0 }

inductive Op where
  | alloc | undo | free
  deriving DecidableEq, Repr

def Book.call (s : Book) : Op → Option Book
  | .alloc =>
      let (p, fifo) := s.fifo.alloc
      if p = null then some { s with fifo }
      else some { s with fifo, outstanding := s.outstanding ++ [p], allocs := s.allocs + 1 }
  | .undo => s.fifo.allocUndo.map fun fifo =>
      { s with fifo, outstanding := s.outstanding.dropLast, undos := s.undos + 1 }
  | .free => s.fifo.free.map fun fifo =>
      { s with fifo, outstanding := s.outstanding.tail, frees := s.frees + 1 }

def Book.run (s : Book) : List Op → Option Book
  | [] => some s
  | op :: ops => (s.call op).bind fun s => s.run ops

theorem runAppend (s : Book) (ops more : List Op) : s.run (ops ++ more) = (s.run ops).bind fun t => t.run more := by
  induction ops generalizing s with
  | nil => rfl
  | cons op ops later =>
    rw [List.cons_append, Book.run, Book.run, Option.bind_assoc]
    congr 1
    funext t
    exact later t

variable {b : Block} {c k : Nat}

theorem objectNotNull (b : Block) (slot : Nat) : b.object slot ≠ null := by
  have := b.placed
  unfold Block.object null
  omega

theorem objectInjective {i j : Nat} (same : b.object i = b.object j) : i = j := by
  unfold Block.object at same
  exact Nat.eq_of_mul_eq_mul_right b.sized (by omega)

def Block.fifoAt (b : Block) (c k : Nat) : Fifo :=
  { allocer := position b.numberObjects (c + k)
    freer := position b.numberObjects c
    numBufs := b.numberObjects
    mem := b.mem
    bufSize := b.objectSize }

def Block.objects (b : Block) (c k : Nat) : List Nat := (slots b.numberObjects c k).map b.object

theorem setupAt (b : Block) : b.setup = b.fifoAt 0 0 := by
  have small : b.numberObjects < 2 ^ 32 := b.few.trans (by decide)
  simp [Block.setup, Fifo.setup, Block.fifoAt, position, wrapSmall small]

theorem twiceAt (b : Block) (c k : Nat) : (b.fifoAt c k).twice = 2 * b.numberObjects := by
  have := b.few
  exact wrapSmall (show 2 * b.numberObjects < 2 ^ 32 by omega)

theorem positionSmall (b : Block) (c : Nat) : position b.numberObjects c + 1 < 2 ^ 32 := by
  have := b.few
  have := positionLt b.some_ c
  omega

theorem pointerOf {f : Fifo} {slot : Nat} (mem : f.mem = b.mem) (size : f.bufSize = b.objectSize)
    (lt : slot < b.numberObjects) : f.pointer slot = b.object slot := by
  have inside : (slot + 1) * b.objectSize ≤ b.numberObjects * b.objectSize := Nat.mul_le_mul_right _ lt
  have := b.within
  have := b.sized
  rw [Nat.succ_mul] at inside
  unfold Fifo.pointer Block.object
  rw [mem, size, wrapSmall (n := slot * b.objectSize) (by omega), wrapSmall (by omega)]

theorem pointerAt {slot : Nat} (lt : slot < b.numberObjects) : (b.fifoAt c k).pointer slot = b.object slot :=
  pointerOf rfl rfl lt

theorem emptyAt (fits : k ≤ b.numberObjects) : (b.fifoAt c k).isEmpty = decide (k = 0) := by
  unfold Fifo.isEmpty
  exact decide_eq_decide.mpr (positionsEqual b.some_ fits c)

theorem fullAt (fits : k ≤ b.numberObjects) : (b.fifoAt c k).isFull = decide (k = b.numberObjects) := by
  unfold Fifo.isFull
  exact decide_eq_decide.mpr (fullPositions b.some_ fits c)

theorem stepAt (b : Block) (c j k : Nat) : wrap 32 (position b.numberObjects c + 1) % (b.fifoAt j k).twice =
    position b.numberObjects (c + 1) := by
  rw [wrapSmall (positionSmall b c), twiceAt, positionNext]

theorem allocFull : (b.fifoAt c b.numberObjects).alloc = (null, b.fifoAt c b.numberObjects) := by
  unfold Fifo.alloc
  simp [fullAt]

theorem allocAt (room : k < b.numberObjects) : (b.fifoAt c k).alloc =
    (b.object ((c + k) % b.numberObjects), b.fifoAt c (k + 1)) := by
  have open_ : (b.fifoAt c k).isFull = false := by
    rw [fullAt room.le]
    exact decide_eq_false room.ne
  have slot : (b.fifoAt c k).allocer % (b.fifoAt c k).numBufs = (c + k) % b.numberObjects := slotPosition ..
  have next := stepAt b (c + k) c k
  unfold Fifo.alloc
  rw [if_neg (by simp [open_])]
  simp only [slot]
  rw [pointerAt (Nat.mod_lt _ b.some_)]
  congr 1
  unfold Block.fifoAt at next ⊢
  rw [next]
  rfl

theorem undoAt (fits : k + 1 ≤ b.numberObjects) : (b.fifoAt c (k + 1)).allocUndo = some (b.fifoAt c k) := by
  have back := positionBack b.some_ (c + k)
  have twice := twiceAt b c (k + 1)
  have last : minus 32 (b.fifoAt c (k + 1)).twice 1 = 2 * b.numberObjects - 1 := by
    have := b.some_
    have := b.few
    rw [twice]
    exact minusExact (by omega) (by omega)
  unfold Fifo.allocUndo
  rw [emptyAt fits, if_neg (by simp), last]
  unfold Block.fifoAt
  simp only
  rw [← back]
  rfl

theorem freeAt (fits : k + 1 ≤ b.numberObjects) : (b.fifoAt c (k + 1)).free = some (b.fifoAt (c + 1) k) := by
  have next := stepAt b c c (k + 1)
  unfold Fifo.free
  rw [emptyAt fits, if_neg (by simp)]
  unfold Block.fifoAt at next ⊢
  simp only
  rw [next, Nat.add_right_comm c 1 k, Nat.add_assoc c k 1]

theorem numAllocAt (fits : k ≤ b.numberObjects) : (b.fifoAt c k).numAlloc = k := by
  have few := b.few
  have back := positionLt b.some_ c
  have front := positionLt b.some_ (c + k)
  have distance := positionDistance b.some_ fits c
  have twice := twiceAt b c k
  unfold Fifo.numAlloc
  rw [twice]
  show (if position b.numberObjects c ≤ position b.numberObjects (c + k)
    then minus 32 (position b.numberObjects (c + k)) (position b.numberObjects c)
    else minus 32 (wrap 32 (position b.numberObjects (c + k) + 2 * b.numberObjects))
      (position b.numberObjects c)) = k
  split
  · rename_i le
    rw [if_pos le] at distance
    rw [minusExact le (by omega), distance]
  · rename_i lt
    rw [if_neg lt] at distance
    rcases Nat.lt_or_ge (position b.numberObjects (c + k) + 2 * b.numberObjects) (2 ^ 32) with small | large
    · rw [wrapSmall small, minusExact (by omega) small, distance]
    · have reduced : wrap 32 (position b.numberObjects (c + k) + 2 * b.numberObjects) =
          position b.numberObjects (c + k) + 2 * b.numberObjects - 2 ^ 32 := by
        unfold wrap
        rw [Nat.mod_eq_sub_mod large, Nat.mod_eq_of_lt (by omega)]
      rw [reduced, minusBorrow (by omega) (by omega)]
      omega

theorem headAt : (b.fifoAt c k).head = b.object (c % b.numberObjects) := by
  show (b.fifoAt c k).pointer (position b.numberObjects c % b.numberObjects) = _
  rw [slotPosition, pointerAt (Nat.mod_lt _ b.some_)]

theorem headSeekAt {j : Nat} (lt : j < b.numberObjects) :
    (b.fifoAt c k).headSeek j = b.object ((c + j) % b.numberObjects) ↔ (b.fifoAt c k).freer + j < 2 ^ 32 := by
  have few := b.few
  have front := positionLt b.some_ c
  have right : (c + j) % b.numberObjects = (position b.numberObjects c + j) % b.numberObjects := by
    rw [← Nat.mod_add_mod (position b.numberObjects c), slotPosition, Nat.mod_add_mod]
  show (b.fifoAt c k).pointer (wrap 32 (position b.numberObjects c + j) % b.numberObjects) = _ ↔
    position b.numberObjects c + j < 2 ^ 32
  rw [pointerAt (Nat.mod_lt _ b.some_), right]
  constructor
  · intro same
    by_contra outside
    have sum : wrap 32 (position b.numberObjects c + j) = position b.numberObjects c + j - 2 ^ 32 := by
      unfold wrap
      rw [Nat.mod_eq_sub_mod (by omega), Nat.mod_eq_of_lt (by omega)]
    have reduced : (position b.numberObjects c + j) % b.numberObjects =
        position b.numberObjects c + j - 2 * b.numberObjects := by
      rw [Nat.mod_eq_sub_mod (by omega), Nat.mod_eq_sub_mod (by omega), Nat.mod_eq_of_lt (by omega)]
      omega
    have slots := objectInjective same
    rw [sum, reduced, Nat.mod_eq_of_lt (by omega)] at slots
    omega
  · intro inside
    rw [wrapSmall inside]

structure Kept (b : Block) (s : Book) : Prop where
  fits : s.outstanding.length ≤ b.numberObjects
  fifo : s.fifo = b.fifoAt s.frees s.outstanding.length
  slots : s.outstanding = b.objects s.frees s.outstanding.length
  counts : s.outstanding.length + s.undos + s.frees = s.allocs

theorem startKept (b : Block) : Kept b b.start := ⟨Nat.zero_le _, setupAt b, rfl, rfl⟩

@[simp] theorem objectsLength (b : Block) (c k : Nat) : (b.objects c k).length = k := by simp [Block.objects]

theorem objectsSnoc (b : Block) (c k : Nat) :
    b.objects c (k + 1) = b.objects c k ++ [b.object ((c + k) % b.numberObjects)] := by
  simp [Block.objects, slotsSnoc]

theorem objectsCons (b : Block) (c k : Nat) :
    b.objects c (k + 1) = b.object (c % b.numberObjects) :: b.objects (c + 1) k := by
  simp [Block.objects, slotsCons]

theorem objectsFresh (room : k < b.numberObjects) (c : Nat) :
    b.object ((c + k) % b.numberObjects) ∉ b.objects c k := by
  unfold Block.objects
  rw [List.mem_map]
  rintro ⟨i, member, same⟩
  rw [objectInjective same] at member
  exact slotsFresh room c member

theorem objectsNodup (fits : k ≤ b.numberObjects) (c : Nat) : (b.objects c k).Nodup := by
  induction k with
  | zero => exact List.nodup_nil
  | succ k fewer =>
    rw [objectsSnoc]
    exact List.Nodup.append (fewer (Nat.le_of_succ_le fits)) (List.nodup_singleton _)
      (List.disjoint_singleton.mpr (objectsFresh fits c))

variable {s t : Book}

theorem allocKept (kept : Kept b s) (called : s.call .alloc = some t) : Kept b t := by
  obtain ⟨fits, fifo, slots, counts⟩ := kept
  unfold Book.call at called
  rcases fits.lt_or_eq with room | full
  · rw [fifo, allocAt room] at called
    simp only [if_neg (objectNotNull b _)] at called
    cases called
    refine ⟨by simp; omega, by simp, ?_, by simp; omega⟩
    simp only [List.length_append, List.length_singleton]
    rw [objectsSnoc, ← slots]
  · rw [fifo, full, allocFull] at called
    simp only [↓reduceIte] at called
    cases called
    exact ⟨fits, by simp [full], slots, counts⟩

theorem undoKept (kept : Kept b s) (called : s.call .undo = some t) : Kept b t := by
  obtain ⟨fits, fifo, slots, counts⟩ := kept
  unfold Book.call at called
  obtain ⟨g, undone, rfl⟩ := Option.map_eq_some_iff.mp called
  cases count : s.outstanding.length with
  | zero =>
    rw [fifo, count, Fifo.allocUndo, emptyAt (Nat.zero_le _)] at undone
    cases undone
  | succ k =>
    rw [count] at fits fifo slots counts
    rw [fifo, undoAt fits] at undone
    cases undone
    rw [objectsSnoc] at slots
    have shorter : s.outstanding.dropLast = b.objects s.frees k := by
      rw [slots, List.dropLast_concat]
    exact ⟨by simp [shorter]; omega, by simp [shorter], by simp [shorter], by simp [shorter]; omega⟩

theorem freeKept (kept : Kept b s) (called : s.call .free = some t) : Kept b t := by
  obtain ⟨fits, fifo, slots, counts⟩ := kept
  unfold Book.call at called
  obtain ⟨g, freed, rfl⟩ := Option.map_eq_some_iff.mp called
  cases count : s.outstanding.length with
  | zero =>
    rw [fifo, count, Fifo.free, emptyAt (Nat.zero_le _)] at freed
    cases freed
  | succ k =>
    rw [count] at fits fifo slots counts
    rw [fifo, freeAt fits] at freed
    cases freed
    rw [objectsCons] at slots
    have shorter : s.outstanding.tail = b.objects (s.frees + 1) k := by
      rw [slots, List.tail_cons]
    exact ⟨by simp [shorter]; omega, by simp [shorter], by simp [shorter], by simp [shorter]; omega⟩

theorem runKept {ops : List Op} (kept : Kept b s) (ran : s.run ops = some t) : Kept b t := by
  induction ops generalizing s with
  | nil =>
    cases ran
    exact kept
  | cons op ops later =>
    rw [Book.run] at ran
    obtain ⟨m, called, rest⟩ := Option.bind_eq_some_iff.mp ran
    cases op with
    | alloc => exact later (allocKept kept called) rest
    | undo => exact later (undoKept kept called) rest
    | free => exact later (freeKept kept called) rest

structure BoundedQueue (b : Block) (s : Book) : Prop where
  allocer : s.fifo.allocer < 2 * b.numberObjects
  freer : s.fifo.freer < 2 * b.numberObjects
  counted : s.fifo.numAlloc + s.undos + s.frees = s.allocs
  fits : s.fifo.numAlloc ≤ b.numberObjects
  length : s.outstanding.length = s.fifo.numAlloc
  refused : s.fifo.alloc.1 = null ↔ s.outstanding.length = b.numberObjects
  fresh : s.fifo.alloc.1 ≠ null →
    s.fifo.alloc.1 ∉ s.outstanding ∧ ∃ slot < b.numberObjects, s.fifo.alloc.1 = b.object slot
  distinct : s.outstanding.Nodup
  head : ∀ p ∈ s.outstanding.head?, s.fifo.head = p
  empty : s.fifo.isEmpty = true ↔ s.fifo.numAlloc = 0
  full : s.fifo.isFull = true ↔ s.fifo.numAlloc = b.numberObjects

def Book.SeeksKth (s : Book) : Prop := ∀ k p, s.outstanding[k]? = some p → s.fifo.headSeek k = p

theorem keptHead (kept : Kept b s) : ∀ p ∈ s.outstanding.head?, s.fifo.head = p := by
  intro p first
  rw [kept.slots] at first
  cases count : s.outstanding.length with
  | zero =>
    rw [count] at first
    cases first
  | succ k =>
    rw [count, objectsCons] at first
    rw [kept.fifo, headAt]
    exact Option.some.inj first

theorem keptBounded (kept : Kept b s) : BoundedQueue b s := by
  have fits := kept.fits
  have fifo := kept.fifo
  have count : s.fifo.numAlloc = s.outstanding.length := by rw [fifo, numAllocAt fits]
  have offered : s.outstanding.length < b.numberObjects →
      s.fifo.alloc.1 = b.object ((s.frees + s.outstanding.length) % b.numberObjects) := by
    intro room
    rw [fifo, allocAt room]
  have refused : s.outstanding.length = b.numberObjects → s.fifo.alloc.1 = null := by
    intro full
    rw [fifo, full, allocFull]
  refine ⟨?_, ?_, ?_, ?_, count.symm, ⟨?_, refused⟩, ?_, ?_, keptHead kept, ?_, ?_⟩
  · rw [fifo]
    exact positionLt b.some_ _
  · rw [fifo]
    exact positionLt b.some_ _
  · rw [count]
    exact kept.counts
  · rw [count]
    exact fits
  · intro nothing
    by_contra open_
    rw [offered (by omega)] at nothing
    exact objectNotNull b _ nothing
  · intro something
    have room : s.outstanding.length < b.numberObjects := by
      by_contra full
      exact something (refused (by omega))
    rw [offered room]
    refine ⟨?_, _, Nat.mod_lt _ b.some_, rfl⟩
    have fresh := objectsFresh room s.frees
    rwa [← kept.slots] at fresh
  · rw [kept.slots]
    exact objectsNodup fits _
  · rw [count, fifo, emptyAt fits, decide_eq_true_iff]
  · rw [count, fifo, fullAt fits, decide_eq_true_iff]

theorem keptSeeks (kept : Kept b s) :
    s.SeeksKth ↔ s.fifo.freer + s.outstanding.length ≤ 2 ^ 32 := by
  have entry : ∀ k, k < s.outstanding.length →
      s.outstanding[k]? = some (b.object ((s.frees + k) % b.numberObjects)) := by
    intro k lt
    rw [kept.slots, Block.objects, List.getElem?_map, slotsGet lt, Option.map_some]
  have exact_ : ∀ k, k < s.outstanding.length →
      (s.fifo.headSeek k = b.object ((s.frees + k) % b.numberObjects) ↔ s.fifo.freer + k < 2 ^ 32) := by
    intro k lt
    rw [kept.fifo]
    exact headSeekAt (lt.trans_le kept.fits)
  have small : s.fifo.freer < 2 ^ 32 := by
    rw [kept.fifo]
    exact Nat.lt_of_succ_lt (positionSmall b s.frees)
  constructor
  · intro seeks
    rcases Nat.eq_zero_or_pos s.outstanding.length with none_ | some_
    · omega
    · have last : s.outstanding.length - 1 < s.outstanding.length := by omega
      have := (exact_ _ last).mp (seeks _ _ (entry _ last))
      omega
  · intro inside k p found
    have lt : k < s.outstanding.length := (List.getElem?_eq_some_iff.mp found).1
    rw [entry k lt] at found
    cases found
    exact (exact_ k lt).mpr (by omega)

theorem boundedQueue (b : Block) (ops : List Op) (s : Book) (ran : b.start.run ops = some s) :
    BoundedQueue b s ∧ (s.SeeksKth ↔ s.fifo.freer + s.outstanding.length ≤ 2 ^ 32) := by
  have kept := runKept (startKept b) ran
  exact ⟨keptBounded kept, keptSeeks kept⟩

def threeBytes : Block := ⟨4096, 1, 3, by decide, by decide, by decide, by decide, by decide⟩

def aroundZero : List Op := [.alloc, .undo, .alloc, .free, .alloc, .undo, .alloc, .alloc, .alloc, .alloc]

theorem boundedQueueExample :
    threeBytes.start.run aroundZero = some ⟨⟨4, 1, 3, 4096, 1⟩, [4097, 4098, 4096], 6, 2, 1⟩ ∧
      Book.SeeksKth ⟨⟨4, 1, 3, 4096, 1⟩, [4097, 4098, 4096], 6, 2, 1⟩ := by
  have ran : threeBytes.start.run aroundZero = some ⟨⟨4, 1, 3, 4096, 1⟩, [4097, 4098, 4096], 6, 2, 1⟩ := by decide
  have kept := boundedQueue threeBytes aroundZero _ ran
  exact ⟨ran, kept.2.mpr (by decide)⟩

def mostBytes : Block := ⟨1, 1, 2 ^ 31 - 1, by decide, by decide, by decide, by decide, by decide⟩

def almostTwoLaps : List Op := (List.replicate (2 ^ 32 - 3) [Op.alloc, Op.free]).flatten ++ List.replicate 4 .alloc

theorem passThrough (b : Block) (m : Nat) : b.start.run (List.replicate m [Op.alloc, Op.free]).flatten =
    some ⟨b.fifoAt m 0, [], m, 0, m⟩ := by
  induction m with
  | zero => simp [Book.run, Block.start, setupAt]
  | succ m before =>
    rw [List.replicate_succ', List.flatten_append, runAppend, before]
    have taken := allocAt (b := b) (c := m) b.some_
    have given := freeAt (b := b) (c := m) (k := 0) b.some_
    simp [Book.run, Book.call, taken, given, objectNotNull]

theorem thirdLapLost : ∃ s, mostBytes.start.run almostTwoLaps = some s ∧ s.outstanding.length = 4 ∧
    s.outstanding[3]? = some (mostBytes.object 2) ∧ s.fifo.headSeek 3 = mostBytes.object 0 := by
  unfold almostTwoLaps
  rw [runAppend, passThrough]
  exact ⟨⟨⟨3, 4294967293, 2 ^ 31 - 1, 1, 1⟩, [2147483647, 1, 2, 3], 4294967297, 0, 4294967293⟩,
    by decide, rfl, by decide, by decide⟩

end Flexbuild.CircFifo
