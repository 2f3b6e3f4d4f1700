import Flexbuild.Fields
import Flexbuild.SlobConservation

/-! `slob_free` on the bytes of external memory. A read changes as many bytes of a local
structure as its count says; a pointer has four bytes here, so of the manager's record only
half of the first word arrives, and the heads that are walked are the words at address zero. -/
namespace Flexbuild.Slob
open Words BootMemory Fields Chains
open ByteMemory (Byte)

def sizeofPointer : Nat := 4
def sizeofAddress : Nat := 8
def sizeofSlobBlock : Nat := 24

def cdmaRead (wsDst : List Byte) (ext : Nat → Byte) (extAddress size : Nat) : List Byte :=
  overwrite wsDst 0 ((List.range size).map fun i => ext (wrap 64 (extAddress + i)))

def field (struct : List Byte) (offset : Nat) : Nat := (fullAt struct offset ++ fullAt struct (offset + 4)).toNat

def zeroed (size : Nat) : List Byte := List.replicate size 0

def putBuffer (pool : BufferPool) (addr : Nat) : BufferPool := (buffPoolPut pool addr).toOption.getD pool

def releaseList (ext : Nat → Byte) (size : Nat) : Nat → Nat → List Byte → BufferPool → Option (List Byte × BufferPool)
  | 0, _, _, _ => none
  | fuel + 1, blockAddr, block, pool =>
    if blockAddr = 0 then some (block, pool)
    else
      let blockAdr := blockAddr
      let blockAddr := field block 16
      let block := if blockAddr ≠ 0 then cdmaRead block ext blockAddr size else block
      releaseList ext size fuel blockAddr block (putBuffer pool blockAdr)

def releaseFree (ext : Nat → Byte) (fuel headFreeBlocksAddr : Nat) :
    List Index → List Byte → BufferPool → Option BufferPool
  | [], _, pool => some pool
  | i :: rest, freeBlock, pool =>
    let freeBlockAddr := field (cdmaRead (zeroed sizeofAddress) ext (headFreeBlocksAddr + i.val * 8) sizeofAddress) 0
    let freeBlock := if freeBlockAddr ≠ 0 then cdmaRead freeBlock ext freeBlockAddr sizeofSlobBlock else freeBlock
    match releaseList ext sizeofSlobBlock fuel freeBlockAddr freeBlock pool with
    | none => none
    | some (freeBlock, pool) => releaseFree ext fuel headFreeBlocksAddr rest freeBlock pool

def slobFree (fuel : Nat) (ext : Nat → Byte) (slob : Nat) (pool : BufferPool) : Option BufferPool :=
  let mm := cdmaRead (zeroed sizeofMm) ext slob sizeofPointer
  let busyBlockAddr := field mm 8
  let busyBlock := zeroed sizeofSlobBlock
  let busyBlock := if busyBlockAddr ≠ 0 then cdmaRead busyBlock ext busyBlockAddr sizeofAddress else busyBlock
  match releaseList ext sizeofAddress fuel busyBlockAddr busyBlock pool with
  | none => none
  | some (_, pool) => releaseFree ext fuel (field mm 16) (List.finRange (mmMaxAlignment + 1)) (zeroed sizeofSlobBlock) pool

def wordOf (ext : Nat → Byte) (a : Nat) : Nat := field (cdmaRead (zeroed sizeofAddress) ext a sizeofAddress) 0

def blockOf (ext : Nat → Byte) (a : Nat) : SlobBlock := ⟨wordOf ext a, wordOf ext (a + 8), wordOf ext (a + 16)⟩

structure Stored (ext : Nat → Byte) (slob : Nat) (s : Mm) : Prop where
  busyHead : wordOf ext (slob + 8) = s.head .busy
  freeHead : ∀ i : Index, wordOf ext (wordOf ext (slob + 16) + i.val * 8) = s.head (.free i)
  block : ∀ a ∈ s.linked, blockOf ext a = s.memory a

def Releases (ext : Nat → Byte) (slob : Nat) (s : Mm) : Prop :=
  ∃ fuel pool, slobFree fuel ext slob s.pool = some pool ∧ pool.remaining.Perm (s.linked ++ s.pool.remaining) ∧
    pool.current + s.linked.length = s.pool.current

variable {ext : Nat → Byte} {dst : List Byte} {a n i fuel slob : Nat} {pool pool' : BufferPool}

theorem readInside (below : i < n) (room : i < dst.length) : byteAt (cdmaRead dst ext a n) i = ext (wrap 64 (a + i)) := by
  have bytes : ((List.range n).map fun i => ext (wrap 64 (a + i))).length = n := by simp
  have inner := @byteInside dst ((List.range n).map fun i => ext (wrap 64 (a + i))) 0 i (by omega) (by omega)
  rw [Nat.zero_add] at inner
  rw [cdmaRead, inner, byteAt, List.getD_eq_getElem?_getD, List.getElem?_map, List.getElem?_range below]
  rfl

theorem readOutside (above : n ≤ i) : byteAt (cdmaRead dst ext a n) i = byteAt dst i :=
  byteOutside (Or.inr (by simpa using above))

@[simp] theorem readLength (dst : List Byte) (a n : Nat) : (cdmaRead dst ext a n).length = dst.length := overwriteLength _ _ _

theorem fieldCongr {l r : List Byte} {b c : Nat} (same : ∀ i < 8, byteAt l (b + i) = byteAt r (c + i)) : field l b = field r c := by
  simp only [field, fullAt, halfAt, Nat.add_assoc]
  rw [show byteAt l b = byteAt r c from same 0 (by omega)]
  simp only [same 1 (by omega), same 2 (by omega), same 3 (by omega), Nat.reduceAdd, same 4 (by omega), same 5 (by omega),
    same 6 (by omega), same 7 (by omega)]

theorem fieldRead {b : Nat} (inside : b + 8 ≤ n) (room : n ≤ dst.length) : field (cdmaRead dst ext a n) b = wordOf ext (a + b) := by
  refine fieldCongr fun i below => ?_
  rw [readInside (by omega) (by omega), readInside (by rw [sizeofAddress]; omega) (by rw [zeroed, List.length_replicate, sizeofAddress]; omega),
    Nat.zero_add, Nat.add_assoc]

theorem fieldKept {b : Nat} (above : n ≤ b) : field (cdmaRead dst ext a n) b = field dst b :=
  fieldCongr fun i _ => readOutside (by omega)

theorem firstLoaded {block : List Byte} (long : block.length = 24) (head : Nat) :
    (if head ≠ 0 then cdmaRead block ext head sizeofSlobBlock else block).length = 24 ∧
      (head ≠ 0 → field (if head ≠ 0 then cdmaRead block ext head sizeofSlobBlock else block) 16 = wordOf ext (head + 16)) := by
  constructor
  · split <;> simp [long]
  · intro nonzero
    rw [if_pos nonzero]
    exact fieldRead (by rw [sizeofSlobBlock]) (by rw [sizeofSlobBlock]; omega)

theorem releaseRuns {xs : List Node} (seg : Seg layout (blockOf ext) a xs 0) {block : List Byte} (enough : xs.length < fuel)
    (long : block.length = 24) (loaded : a ≠ 0 → field block 16 = wordOf ext (a + 16)) (pool : BufferPool) :
    ∃ block', block'.length = 24 ∧
      releaseList ext sizeofSlobBlock fuel a block pool = some (block', (addrs xs).foldl putBuffer pool) := by
  induction xs generalizing a fuel block pool with
  | nil =>
    obtain ⟨fuel, rfl⟩ := Nat.exists_eq_succ_of_ne_zero (Nat.ne_of_gt enough)
    exact ⟨block, long, if_pos seg⟩
  | cons x xs later =>
    obtain ⟨fuel, rfl⟩ := Nat.exists_eq_succ_of_ne_zero (Nat.ne_of_gt (Nat.zero_lt_of_lt enough))
    obtain ⟨rfl, nonzero, _, tail⟩ := seg
    have next : field block 16 = wordOf ext (x.addr + 16) := loaded nonzero
    obtain ⟨read, loaded'⟩ := firstLoaded long (wordOf ext (x.addr + 16))
    obtain ⟨block', long', done⟩ := later tail (Nat.lt_of_succ_lt_succ enough) read loaded' (putBuffer pool x.addr)
    refine ⟨block', long', ?_⟩
    simp only [releaseList, if_neg nonzero, next]
    exact done

theorem releaseEnds {block block' : List Byte} (done : releaseList ext sizeofSlobBlock fuel a block pool = some (block', pool'))
    (long : block.length = 24) (loaded : a ≠ 0 → field block 16 = wordOf ext (a + 16)) :
    block'.length = 24 ∧ ∃ xs, Seg layout (blockOf ext) a xs 0 ∧ pool' = (addrs xs).foldl putBuffer pool := by
  induction fuel generalizing a block pool with
  | zero => cases done
  | succ fuel later =>
    by_cases zero : a = 0
    · simp only [releaseList, if_pos zero, Option.some.injEq, Prod.mk.injEq] at done
      obtain ⟨rfl, rfl⟩ := done
      exact ⟨long, [], zero, rfl⟩
    · simp only [releaseList, if_neg zero, loaded zero] at done
      obtain ⟨read, loaded'⟩ := firstLoaded long (wordOf ext (a + 16))
      obtain ⟨long', xs, tail, put⟩ := later done read loaded'
      exact ⟨long', ⟨a, layout.payload (blockOf ext a)⟩ :: xs, ⟨rfl, zero, rfl, tail⟩, put⟩

theorem releaseFreeCons (h : Nat) (i : Index) (rest : List Index) (block : List Byte) :
    releaseFree ext fuel h (i :: rest) block pool =
      match releaseList ext sizeofSlobBlock fuel (wordOf ext (h + i.val * 8))
          (if wordOf ext (h + i.val * 8) ≠ 0 then cdmaRead block ext (wordOf ext (h + i.val * 8)) sizeofSlobBlock else block) pool with
      | none => none
      | some (freeBlock, pool) => releaseFree ext fuel h rest freeBlock pool := rfl

theorem releaseFreeRuns {h : Nat} {lists : Index → List Node} {indices : List Index}
    (segs : ∀ i ∈ indices, Seg layout (blockOf ext) (wordOf ext (h + i.val * 8)) (lists i) 0)
    (enough : ∀ i ∈ indices, (lists i).length < fuel) {block : List Byte} (long : block.length = 24) (pool : BufferPool) :
    releaseFree ext fuel h indices block pool = some ((indices.flatMap fun i => addrs (lists i)).foldl putBuffer pool) := by
  induction indices generalizing block pool with
  | nil => rfl
  | cons i rest later =>
    obtain ⟨long', loaded⟩ := @firstLoaded ext block long (wordOf ext (h + i.val * 8))
    obtain ⟨block', kept, done⟩ := releaseRuns (segs i List.mem_cons_self) (enough i List.mem_cons_self) long' loaded pool
    rw [releaseFreeCons, done, List.flatMap_cons, List.foldl_append]
    exact later (fun j member => segs j (List.mem_cons_of_mem i member)) (fun j member => enough j (List.mem_cons_of_mem i member)) kept _

theorem releaseFreeEnds {h : Nat} {indices : List Index} (apart : indices.Nodup) {block : List Byte} (long : block.length = 24)
    (done : releaseFree ext fuel h indices block pool = some pool') :
    ∃ lists : Index → List Node, (∀ i ∈ indices, Seg layout (blockOf ext) (wordOf ext (h + i.val * 8)) (lists i) 0) ∧
      pool' = (indices.flatMap fun i => addrs (lists i)).foldl putBuffer pool := by
  induction indices generalizing block pool with
  | nil => exact ⟨fun _ => [], fun _ member => absurd member List.not_mem_nil, (Option.some.inj done).symm⟩
  | cons i rest later =>
    obtain ⟨fresh, apart⟩ := List.nodup_cons.mp apart
    obtain ⟨long', loaded⟩ := @firstLoaded ext block long (wordOf ext (h + i.val * 8))
    rw [releaseFreeCons] at done
    split at done
    · cases done
    · rename_i first
      obtain ⟨kept, xs, seg, put⟩ := releaseEnds first long' loaded
      obtain ⟨lists, segs, all⟩ := later apart kept done
      have other (j : Index) (member : j ∈ rest) : Function.update lists i xs j = lists j :=
        Function.update_of_ne (fun same : j = i => fresh (same ▸ member)) _ _
      refine ⟨Function.update lists i xs, fun j member => ?_, ?_⟩
      · rcases List.mem_cons.mp member with rfl | behind
        · rwa [Function.update_self]
        · rw [other j behind]
          exact segs j behind
      · have same : (rest.flatMap fun j => addrs (Function.update lists i xs j)) = rest.flatMap fun j => addrs (lists j) :=
          List.flatMap_congr fun j member => congrArg addrs (other j member)
        rw [List.flatMap_cons, same, Function.update_self, List.foldl_append, ← put]
        exact all

theorem freeFromZero (fuel slob : Nat) (pool : BufferPool) : slobFree (fuel + 1) ext slob pool =
    releaseFree ext (fuel + 1) 0 (List.finRange (mmMaxAlignment + 1)) (zeroed sizeofSlobBlock) pool := by
  have busy : field (cdmaRead (zeroed sizeofMm) ext slob sizeofPointer) 8 = 0 := (fieldKept (by decide)).trans (by decide)
  have free : field (cdmaRead (zeroed sizeofMm) ext slob sizeofPointer) 16 = 0 := (fieldKept (by decide)).trans (by decide)
  simp only [slobFree, busy, free]
  rfl

theorem putAll (as : List Nat) (inside : pool.current ≤ pool.numBuffs) :
    (as.foldl putBuffer pool).remaining = (as.take pool.current).reverse ++ pool.remaining ∧
      (as.foldl putBuffer pool).current = pool.current - as.length := by
  induction as generalizing pool with
  | nil => simp
  | cons a as later =>
    rw [List.foldl_cons]
    by_cases taken : 0 < pool.current
    · obtain ⟨next, put, remaining, size, current, inside'⟩ := buffPoolPutOk a taken inside
      have step : putBuffer pool a = next := by rw [putBuffer, put]; rfl
      obtain ⟨stack, count⟩ := later inside'
      rw [step, stack, count, remaining, current]
      constructor
      · obtain ⟨k, more⟩ := Nat.exists_eq_succ_of_ne_zero (Nat.ne_of_gt taken)
        simp [more]
      · rw [List.length_cons]
        omega
    · have zero : pool.current = 0 := by omega
      have step : putBuffer pool a = pool := by
        rw [putBuffer, buffPoolPut, if_neg taken]
        rfl
      obtain ⟨stack, count⟩ := later inside
      rw [step, stack, count, zero]
      simp

structure Sound (s : Mm) : Prop where
  chained : ∀ w, Seg layout s.memory (s.head w) (s.blocks w) 0
  taken : s.linked.length ≤ s.pool.current
  inside : s.pool.current ≤ s.pool.numBuffs

theorem reachedSound {memory : Nat → SlobBlock} {base size : Nat} {boot boot' : InitialMemMng} {start s : Mm} (fresh : Fresh pool)
    (small : base + size < 2 ^ 64) (init : slobInit memory base size boot pool = some (.ok start, boot'))
    (reached : Reached Served start s) : Sound s := by
  obtain ⟨_, count, _⟩ := descriptorsConserved fresh small init reached
  obtain ⟨v₀, _, rep₀⟩ := slobInitFollows fresh init
  obtain ⟨v, rep, _⟩ := reachedView (fun _ => True) rep₀ trivial (fun _ _ _ _ _ _ => trivial) reached
  exact ⟨fun w => rep.blocksEq w ▸ rep.chain w, count.le, rep.inside⟩

def LowLists (ext : Nat → Byte) (s : Mm) : Prop :=
  ∃ lists : Index → List Node, (∀ i : Index, Seg layout (blockOf ext) (wordOf ext (i.val * 8)) (lists i) 0) ∧
    (((List.finRange (mmMaxAlignment + 1)).flatMap fun i => addrs (lists i)).take s.pool.current).Perm s.linked

theorem releasesLow {s : Mm} (sound : Sound s) : Releases ext slob s ↔ LowLists ext s := by
  have base (i : Index) : wordOf ext (0 + i.val * 8) = wordOf ext (i.val * 8) := by rw [Nat.zero_add]
  have back (as : List Nat) : (as.reverse ++ s.pool.remaining).Perm (s.linked ++ s.pool.remaining) ↔ as.Perm s.linked := by
    rw [List.perm_append_right_iff]
    exact ⟨fun same => as.reverse_perm.symm.trans same, fun same => as.reverse_perm.trans same⟩
  constructor
  · rintro ⟨fuel, pool, done, perm, _⟩
    cases fuel with
    | zero => cases done
    | succ fuel =>
      rw [freeFromZero] at done
      obtain ⟨lists, segs, rfl⟩ := releaseFreeEnds (List.nodup_finRange _) rfl done
      refine ⟨lists, fun i => base i ▸ segs i (List.mem_finRange i), ?_⟩
      rw [(putAll _ sound.inside).1] at perm
      exact (back _).mp perm
  · rintro ⟨lists, segs, perm⟩
    obtain ⟨fuel, enough⟩ : ∃ fuel, ∀ i, (lists i).length < fuel :=
      ⟨∑ i, (lists i).length + 1, fun i =>
        Nat.lt_succ_of_le (Finset.single_le_sum (f := fun i => (lists i).length) (fun _ _ => Nat.zero_le _) (Finset.mem_univ i))⟩
    refine ⟨fuel + 1, ((List.finRange (mmMaxAlignment + 1)).flatMap fun i => addrs (lists i)).foldl putBuffer s.pool, ?_, ?_, ?_⟩
    · rw [freeFromZero]
      exact releaseFreeRuns (fun i _ => (base i).symm ▸ segs i) (fun i _ => Nat.lt_succ_of_lt (enough i)) rfl s.pool
    · rw [(putAll _ sound.inside).1]
      exact (back _).mpr perm
    · have count := perm.length_eq
      have taken := sound.taken
      rw [List.length_take] at count
      rw [(putAll _ sound.inside).2]
      omega

theorem linkedBusy (s : Mm) (empty : s.head .busy = 0) :
    s.linked = (List.finRange (mmMaxAlignment + 1)).flatMap fun i => addrs (s.blocks (.free i)) := by
  have none : s.blocks .busy = [] := by
    rw [Mm.blocks, empty]
    rfl
  rw [Mm.linked, none]
  rfl

theorem lowZero {s : Mm} (zero : ∀ i : Index, wordOf ext (i.val * 8) = 0) : LowLists ext s ↔ s.linked = [] := by
  constructor
  · rintro ⟨lists, segs, perm⟩
    have empty : ((List.finRange (mmMaxAlignment + 1)).flatMap fun i => addrs (lists i)) = [] := by
      rw [List.flatMap_eq_nil_iff]
      intro i _
      have seg := segs i
      rw [zero i] at seg
      rw [segHeadZero seg]
      rfl
    rw [empty, List.take_nil] at perm
    exact perm.symm.eq_nil
  · intro none
    refine ⟨fun _ => [], zero, ?_⟩
    rw [none]
    simp

theorem slobFreeReleases {s : Mm} (stored : Stored ext slob s) (sound : Sound s) : (Releases ext slob s ↔ LowLists ext s) ∧
    ((∀ i : Index, wordOf ext (i.val * 8) = 0) → (Releases ext slob s ↔ s.linked = [])) ∧
    (s.head .busy = 0 → wordOf ext (slob + 16) = 0 → Releases ext slob s) := by
  have exact := @releasesLow ext slob s sound
  refine ⟨exact, fun zero => exact.trans (lowZero zero), fun busy table => exact.mpr ⟨fun i => s.blocks (.free i), ?_, ?_⟩⟩
  · intro i
    have head := stored.freeHead i
    rw [table, Nat.zero_add] at head
    rw [head]
    refine segFrame (fun a member => stored.block a ?_) (sound.chained (.free i))
    rw [linkedBusy s busy]
    exact List.mem_flatMap.mpr ⟨i, List.mem_finRange i, member⟩
  · rw [← linkedBusy s busy, List.take_of_length_le sound.taken]

instance (ext : Nat → Byte) (slob : Nat) (s : Mm) : Decidable (Stored ext slob s) :=
  decidable_of_iff (wordOf ext (slob + 8) = s.head .busy ∧
      (∀ i : Index, wordOf ext (wordOf ext (slob + 16) + i.val * 8) = s.head (.free i)) ∧
      ∀ a ∈ s.linked, blockOf ext a = s.memory a)
    ⟨fun ⟨busy, free, block⟩ => ⟨busy, free, block⟩, fun stored => ⟨stored.busyHead, stored.freeHead, stored.block⟩⟩

theorem slobFreeReleasesExample : ∃ s, Mm.initial 4096 0 60 = some s ∧ Releases (fun _ => 0) 0x1000 s := by
  have check : (Mm.initial 4096 0 60).any (fun s => decide (Stored (fun _ => 0) 0x1000 s) && decide (s.head .busy = 0)) = true := by
    decide +kernel
  obtain ⟨s, init, holds⟩ := (Option.any_eq_true _ _).mp check
  rw [Bool.and_eq_true, decide_eq_true_iff, decide_eq_true_iff] at holds
  obtain ⟨boot, done⟩ := initialDone init
  have sound := reachedSound (by decide) (by decide) done .start
  exact ⟨s, init, (slobFreeReleases holds.1 sound).2.2 holds.2 (by decide)⟩

def storeSlob (s : Mm) : Nat → Byte := fun a =>
  let w := a / 8
  let word :=
    if w = 0x201 then s.head .busy
    else if w = 0x202 then 0x1028
    else if 0x205 ≤ w ∧ w < 0x205 + 21 then s.head (.free (Fin.ofNat 21 (w - 0x205)))
    else if 8192 ≤ w then
      let b := s.memory (65536 + 24 * ((w - 8192) / 3))
      if (w - 8192) % 3 = 0 then b.base else if (w - 8192) % 3 = 1 then b.endAddr else b.nextAddr
    else 0
  BitVec.ofNat 8 (word >>> (8 * (7 - a % 8)))

theorem descriptorsLeft : ∃ s, Mm.initial 4096 1000 60 = some s ∧ s.linked.length = 21 ∧ Stored (storeSlob s) 0x1000 s ∧
    ¬Releases (storeSlob s) 0x1000 s := by
  have check : (Mm.initial 4096 1000 60).any (fun s => decide (s.linked.length = 21) && decide (Stored (storeSlob s) 0x1000 s) &&
      decide (∀ i : Index, wordOf (storeSlob s) (i.val * 8) = 0)) = true := by
    decide +kernel
  obtain ⟨s, init, holds⟩ := (Option.any_eq_true _ _).mp check
  rw [Bool.and_eq_true, Bool.and_eq_true, decide_eq_true_iff, decide_eq_true_iff, decide_eq_true_iff] at holds
  obtain ⟨boot, done⟩ := initialDone init
  have sound := reachedSound (by decide) (by decide) done .start
  refine ⟨s, init, holds.1.1, holds.1.2, fun releases => ?_⟩
  have none := (lowZero holds.2).mp ((releasesLow sound).mp releases)
  have some := holds.1.1
  rw [none] at some
  cases some

end Flexbuild.Slob
