import Flexbuild.BootMemory
import Flexbuild.Intervals

/-! What the boot memory manager hands out over a run of calls. As long as every
request fits, the regions follow each other and the spinlock is free after each call.
A pool keeps inside its reservation when the rounding of its first buffer is not more
than the slack of a block. -/
namespace Flexbuild.BootMemory
open Words Intervals

inductive BootCall where
  | mem (size : Nat)
  | memVirt (size : Nat)
  | pool (id num buffSize k : Nat)
  deriving DecidableEq, Repr

def BufferPool.regions (p : BufferPool) : List Extent :=
  ⟨p.buffersStackAddr, p.buffersStackAddr + p.numBuffs * stackEntryByteSize⟩ ::
    (List.range p.numBuffs).map (fun k => ⟨p.stack k, p.stack k + p.buffSize⟩)

def BootCall.run (m : InitialMemMng) : BootCall → Option (Except Errno (List Extent) × InitialMemMng)
  | .mem size => (bootGetMem m size).map (fun r => (r.1.map (fun a => [⟨a, a + size⟩]), r.2))
  | .memVirt size => (bootGetMemVirt m size).map (fun r => (r.1.map (fun v =>
      [⟨m.basePaddress + minus 32 v m.baseVaddress, m.basePaddress + minus 32 v m.baseVaddress + size⟩]), r.2))
  | .pool id num buffSize k => (buffPoolCreate id num buffSize (2 ^ k) m).map (fun r =>
      (r.1.map BufferPool.regions, r.2))

inductive Booted (allowed : InitialMemMng → BootCall → Prop) (start : InitialMemMng) :
    InitialMemMng → List Extent → Prop where
  | start : Booted allowed start start []
  | step {m m' : InitialMemMng} {given : List Extent} {c : BootCall} {out : Except Errno (List Extent)}
      (prior : Booted allowed start m given) (ok : allowed m c) (done : c.run m = some (out, m')) :
      Booted allowed start m' (given ++ out.toOption.getD [])

def Fits (m : InitialMemMng) : BootCall → Prop
  | .mem size => m.currPtr + size < m.basePaddress + m.size
  | .memVirt size => m.currPtr + size < m.basePaddress + m.size ∧ m.currPtr < m.basePaddress + 2 ^ 32 ∧
      m.currPtr + size ≤ m.basePaddress + 2 ^ 32
  | .pool _ num buffSize k =>
    let stack := num * stackEntryByteSize
    let block := computeBlockSize buffSize (2 ^ k)
    (stack < 2 ^ 32 ∧ num * block < 2 ^ 32) ∧ m.currPtr + stack + num * block < m.basePaddress + m.size ∧
      (num = 0 ∨ roundUp (m.currPtr + stack) (2 ^ k) + buffSize ≤ m.currPtr + stack + block)

instance (m : InitialMemMng) (c : BootCall) : Decidable (Fits m c) :=
  match c with
  | .mem _ => inferInstanceAs (Decidable (_ < _))
  | .memVirt _ => inferInstanceAs (Decidable (_ ∧ _))
  | .pool _ _ _ _ => inferInstanceAs (Decidable (_ ∧ _))

section fits
variable {m : InitialMemMng}

theorem reserveFits {size : Nat} (free : m.lock = false) (range : m.basePaddress + m.size < 2 ^ 64)
    (fits : m.currPtr + size < m.basePaddress + m.size) :
    reserve m size = some (.ok m.currPtr, {m with currPtr := m.currPtr + size}) := by
  have below : ¬ m.basePaddress + m.size ≤ m.currPtr + size := Nat.not_le.mpr fits
  have small : m.currPtr + size < 2 ^ 64 := by omega
  simp [reserve, lockSpinlock, unlockSpinlock, free, wrapSmall range, wrapSmall small, below]

theorem blockSizeGeAlignment (buffSize : Nat) {buffAlignment : Nat} (pos : 0 < buffAlignment) :
    buffAlignment ≤ computeBlockSize buffSize buffAlignment :=
  Nat.le_of_dvd (blockSizePos buffSize pos) (blockSizeMultiple buffSize pos)

structure Created (m : InitialMemMng) (num buffSize k : Nat) (p : BufferPool) (m' : InitialMemMng) : Prop where
  stackAddr : p.buffersStackAddr = m.currPtr
  numBuffs : p.numBuffs = num
  sized : p.buffSize = buffSize
  current : p.current = 0
  buffer : ∀ j, j < num → p.stack j = roundUp (m.currPtr + num * stackEntryByteSize) (2 ^ k) +
    j * computeBlockSize buffSize (2 ^ k)
  mng : m' = {m with currPtr := m.currPtr + num * stackEntryByteSize + num * computeBlockSize buffSize (2 ^ k)}

theorem buffPoolCreateFits {id num buffSize k : Nat} (free : m.lock = false)
    (range : m.basePaddress + m.size < 2 ^ 64) (fits : Fits m (.pool id num buffSize k)) :
    ∃ p m', buffPoolCreate id num buffSize (2 ^ k) m = some (.ok p, m') ∧ Created m num buffSize k p m' := by
  obtain ⟨⟨stackSmall, blocksSmall⟩, room, _⟩ := fits
  have first := @reserveFits m (num * stackEntryByteSize) free range (by omega)
  have second := @reserveFits {m with currPtr := m.currPtr + num * stackEntryByteSize}
    (num * computeBlockSize buffSize (2 ^ k)) free range room
  simp only [buffPoolCreate, bootGetMem, wrapSmall stackSmall, first, Option.bind_eq_bind, Option.bind_some,
    wrapSmall blocksSmall, second]
  refine ⟨_, _, rfl, rfl, rfl, rfl, rfl, ?_, rfl⟩
  intro j lt
  have pos := Nat.two_pow_pos k
  have one : computeBlockSize buffSize (2 ^ k) ≤ num * computeBlockSize buffSize (2 ^ k) :=
    Nat.le_mul_of_pos_left _ (by omega)
  have aligned := blockSizeGeAlignment buffSize pos
  have shorter : j * computeBlockSize buffSize (2 ^ k) + computeBlockSize buffSize (2 ^ k) ≤
      num * computeBlockSize buffSize (2 ^ k) := by
    rw [← Nat.succ_mul]
    exact Nat.mul_le_mul_right _ lt
  have bound : k ≤ 64 := by
    by_contra large
    have := Nat.pow_lt_pow_right (by omega : 1 < 2) (Nat.lt_of_not_le large)
    omega
  have up := roundUpLt (m.currPtr + num * stackEntryByteSize) pos
  simp only []
  rw [alignUpExact bound (by omega), fillStackAt _ _ _ _ _ (by omega), if_pos (by omega), Nat.sub_zero,
    wrapSmall (by omega)]

end fits

section created
variable {m m' : InitialMemMng} {num buffSize k : Nat} {p : BufferPool}

theorem createdFresh (created : Created m num buffSize k p m') : Fresh p := by
  have pos := blockSizePos buffSize (Nat.two_pow_pos k)
  have all : p.remaining = (List.range num).map (fun j =>
      roundUp (m.currPtr + num * stackEntryByteSize) (2 ^ k) + j * computeBlockSize buffSize (2 ^ k)) := by
    rw [BufferPool.remaining, created.current, created.numBuffs, Nat.sub_zero, ← List.range_eq_range']
    exact List.map_congr_left (fun j mem => created.buffer j (List.mem_range.mp mem))
  refine ⟨created.current, ?_, ?_⟩
  · rw [all]
    apply List.nodup_range.map
    intro i j same
    exact Nat.eq_of_mul_eq_mul_right pos (Nat.add_left_cancel same)
  · rw [all, List.mem_map]
    rintro ⟨j, mem, zero⟩
    have lt := List.mem_range.mp mem
    have above := leRoundUp (m.currPtr + num * stackEntryByteSize) (Nat.two_pow_pos k)
    unfold stackEntryByteSize at above zero
    omega

theorem createdAligned (created : Created m num buffSize k p m') {j : Nat} (lt : j < num) : 2 ^ k ∣ p.stack j := by
  rw [created.buffer j lt]
  exact Nat.dvd_add (dvdRoundUp _ _) (Dvd.dvd.mul_left (blockSizeMultiple buffSize (Nat.two_pow_pos k)) j)

theorem createdInside (created : Created m num buffSize k p m')
    (slack : num = 0 ∨ roundUp (m.currPtr + num * stackEntryByteSize) (2 ^ k) + buffSize ≤
      m.currPtr + num * stackEntryByteSize + computeBlockSize buffSize (2 ^ k)) {j : Nat} (lt : j < num) :
    m.currPtr + num * stackEntryByteSize ≤ p.stack j ∧ p.stack j + buffSize ≤ m'.currPtr := by
  have above := leRoundUp (m.currPtr + num * stackEntryByteSize) (Nat.two_pow_pos k)
  have shorter : j * computeBlockSize buffSize (2 ^ k) + computeBlockSize buffSize (2 ^ k) ≤
      num * computeBlockSize buffSize (2 ^ k) := by
    rw [← Nat.succ_mul]
    exact Nat.mul_le_mul_right _ lt
  rw [created.buffer j lt, created.mng]
  simp only
  omega

theorem createdApart (created : Created m num buffSize k p m') {i j : Nat} (before : i < j) (lt : j < num) :
    p.stack i + buffSize ≤ p.stack j := by
  have size := blockSizeGeSize buffSize (2 ^ k)
  have next : i * computeBlockSize buffSize (2 ^ k) + computeBlockSize buffSize (2 ^ k) ≤
      j * computeBlockSize buffSize (2 ^ k) := by
    rw [← Nat.succ_mul]
    exact Nat.mul_le_mul_right _ before
  rw [created.buffer i (before.trans lt), created.buffer j lt]
  omega

end created

structure Laid (start m : InitialMemMng) (given : List Extent) : Prop where
  lock : m.lock = false
  frame : m.basePaddress = start.basePaddress ∧ m.baseVaddress = start.baseVaddress ∧ m.size = start.size
  low : start.basePaddress ≤ m.currPtr
  high : m.currPtr ≤ start.basePaddress + start.size
  inside : ∀ r ∈ given, start.basePaddress ≤ r.base ∧ r.endAddr ≤ m.currPtr
  ordered : given.Pairwise (fun a b => a.endAddr ≤ b.base)

theorem Laid.extend {start m m' : InitialMemMng} {given more : List Extent} (laid : Laid start m given)
    (lock : m'.lock = false)
    (frame : m'.basePaddress = m.basePaddress ∧ m'.baseVaddress = m.baseVaddress ∧ m'.size = m.size)
    (grows : m.currPtr ≤ m'.currPtr) (high : m'.currPtr ≤ m.basePaddress + m.size)
    (inside : ∀ r ∈ more, m.currPtr ≤ r.base ∧ r.endAddr ≤ m'.currPtr)
    (ordered : more.Pairwise (fun a b => a.endAddr ≤ b.base)) : Laid start m' (given ++ more) where
  lock := lock
  frame := ⟨frame.1.trans laid.frame.1, frame.2.1.trans laid.frame.2.1, frame.2.2.trans laid.frame.2.2⟩
  low := laid.low.trans grows
  high := by
    rw [laid.frame.1, laid.frame.2.2] at high
    exact high
  inside := by
    intro r mem
    rcases List.mem_append.mp mem with old | new
    · obtain ⟨low, high⟩ := laid.inside r old
      exact ⟨low, high.trans grows⟩
    · obtain ⟨low, high⟩ := inside r new
      exact ⟨laid.low.trans low, high⟩
  ordered := by
    refine List.pairwise_append.mpr ⟨laid.ordered, ordered, ?_⟩
    intro a old b new
    exact (laid.inside a old).2.trans (inside b new).1

theorem Created.regions {m m' : InitialMemMng} {num buffSize k : Nat} {p : BufferPool}
    (created : Created m num buffSize k p m')
    (slack : num = 0 ∨ roundUp (m.currPtr + num * stackEntryByteSize) (2 ^ k) + buffSize ≤
      m.currPtr + num * stackEntryByteSize + computeBlockSize buffSize (2 ^ k)) :
    (∀ r ∈ p.regions, m.currPtr ≤ r.base ∧ r.endAddr ≤ m'.currPtr) ∧
      p.regions.Pairwise (fun a b => a.endAddr ≤ b.base) := by
  have buffers : ∀ r ∈ (List.range p.numBuffs).map (fun k => (⟨p.stack k, p.stack k + p.buffSize⟩ : Extent)),
      m.currPtr + num * stackEntryByteSize ≤ r.base ∧ r.endAddr ≤ m'.currPtr := by
    intro r mem
    obtain ⟨j, below, rfl⟩ := List.mem_map.mp mem
    rw [List.mem_range, created.numBuffs] at below
    rw [created.sized]
    exact createdInside created slack below
  unfold BufferPool.regions
  rw [created.stackAddr]
  constructor
  · intro r mem
    rcases List.mem_cons.mp mem with rfl | mem
    · rw [created.numBuffs, created.mng]
      simp only
      omega
    · have := buffers r mem
      omega
  · refine List.pairwise_cons.mpr ⟨?_, ?_⟩
    · intro r mem
      rw [created.numBuffs]
      exact (buffers r mem).1
    · rw [List.pairwise_map, created.sized, created.numBuffs]
      apply List.pairwise_lt_range.imp_of_mem
      intro i j _ below before
      exact createdApart created before (List.mem_range.mp below)

theorem virtBack {offset vbase : Nat} (small : offset < 2 ^ 32) (base : vbase < 2 ^ 32) :
    minus 32 (wrap 32 (wrap 32 offset + vbase)) vbase = offset := by
  rw [wrapSmall small]
  rcases Nat.lt_or_ge (offset + vbase) (2 ^ 32) with lt | ge
  · rw [wrapSmall lt, minusExact (by omega) lt, Nat.add_sub_cancel]
  · have wrapped : wrap 32 (offset + vbase) = offset + vbase - 2 ^ 32 := by
      rw [wrap, Nat.mod_eq_sub_mod ge, Nat.mod_eq_of_lt (by omega)]
    rw [wrapped, minusBorrow (by omega) base]
    omega

theorem laidStep {start m : InitialMemMng} {given : List Extent} {c : BootCall} (laid : Laid start m given)
    (range : start.basePaddress + start.size < 2 ^ 64) (vbase : start.baseVaddress < 2 ^ 32) (fits : Fits m c) :
    ∃ regions m', c.run m = some (.ok regions, m') ∧ Laid start m' (given ++ regions) := by
  obtain ⟨lock, ⟨base, virt, size⟩, low, high, inside, ordered⟩ := id laid
  have range' : m.basePaddress + m.size < 2 ^ 64 := by omega
  cases c with
  | mem n =>
    have done := reserveFits lock range' fits
    refine ⟨[⟨m.currPtr, m.currPtr + n⟩], {m with currPtr := m.currPtr + n}, ?_, ?_⟩
    · rw [BootCall.run, bootGetMem, done]
      rfl
    · refine laid.extend lock ⟨rfl, rfl, rfl⟩ (Nat.le_add_right _ _) fits.le ?_ (List.pairwise_singleton _ _)
      simp
  | memVirt n =>
    obtain ⟨room, near, _⟩ := fits
    have done := reserveFits lock range' room
    have back : m.basePaddress + minus 32 (wrap 32 (wrap 32 (minus 64 m.currPtr m.basePaddress) + m.baseVaddress))
        m.baseVaddress = m.currPtr := by
      have offset : minus 64 m.currPtr m.basePaddress = m.currPtr - m.basePaddress :=
        minusExact (by omega) (by omega)
      rw [offset, virtBack (by omega) (by omega)]
      omega
    refine ⟨[⟨m.currPtr, m.currPtr + n⟩], {m with currPtr := m.currPtr + n}, ?_, ?_⟩
    · rw [BootCall.run, bootGetMemVirt, done]
      simp only [Option.bind_eq_bind, Option.bind_some, Option.map_some, Except.map, back]
    · refine laid.extend lock ⟨rfl, rfl, rfl⟩ (Nat.le_add_right _ _) room.le ?_ (List.pairwise_singleton _ _)
      simp
  | pool id num buffSize k =>
    obtain ⟨p, m', done, created⟩ := buffPoolCreateFits lock range' fits
    obtain ⟨_, room, slack⟩ := fits
    obtain ⟨regions, pairwise⟩ := created.regions slack
    refine ⟨p.regions, m', ?_, ?_⟩
    · rw [BootCall.run, done]
      rfl
    · have mng := created.mng
      subst mng
      exact laid.extend lock ⟨rfl, rfl, rfl⟩ (by simp only; omega) room.le regions pairwise

theorem bootedLaid {start m : InitialMemMng} {given : List Extent} (fresh : Laid start start [])
    (range : start.basePaddress + start.size < 2 ^ 64) (vbase : start.baseVaddress < 2 ^ 32)
    (booted : Booted Fits start m given) : Laid start m given := by
  induction booted with
  | start => exact fresh
  | step prior ok done ih =>
    obtain ⟨regions, m', run, laid⟩ := laidStep ih range vbase ok
    obtain ⟨rfl, rfl⟩ := Prod.mk.inj (Option.some.inj (run.symm.trans done))
    exact laid

theorem initLaid (basePaddress baseVaddress size : Nat) :
    Laid (bootMemMngInit basePaddress baseVaddress size) (bootMemMngInit basePaddress baseVaddress size) [] :=
  ⟨rfl, ⟨rfl, rfl, rfl⟩, le_rfl, Nat.le_add_right _ _, by simp, .nil⟩

theorem bootRegionsApart {base vbase size : Nat} {m : InitialMemMng} {given : List Extent}
    (range : base + size < 2 ^ 64) (virt : vbase < 2 ^ 32)
    (booted : Booted Fits (bootMemMngInit base vbase size) m given) :
    m.lock = false ∧ given.Pairwise Apart ∧ (∀ r ∈ given, base ≤ r.base ∧ r.endAddr ≤ base + size) ∧
      (∀ c, Fits m c → ∃ regions m', c.run m = some (.ok regions, m') ∧ m'.lock = false) ∧
      ∀ id num buffSize k, Fits m (.pool id num buffSize k) → ∃ p m',
        buffPoolCreate id num buffSize (2 ^ k) m = some (.ok p, m') ∧ Fresh p ∧
          ∀ j, j < num → 2 ^ k ∣ p.stack j ∧ m.currPtr + num * stackEntryByteSize ≤ p.stack j ∧
            p.stack j + buffSize ≤ m'.currPtr := by
  have laid := bootedLaid (initLaid base vbase size) range virt booted
  have range' : m.basePaddress + m.size < 2 ^ 64 := by
    rw [laid.frame.1, laid.frame.2.2]
    exact range
  refine ⟨laid.lock, laid.ordered.imp Or.inl, ?_, ?_, ?_⟩
  · intro r mem
    obtain ⟨low, high⟩ := laid.inside r mem
    exact ⟨low, high.trans laid.high⟩
  · intro c fits
    obtain ⟨regions, m', run, after⟩ := laidStep laid range virt fits
    exact ⟨regions, m', run, after.lock⟩
  · intro id num buffSize k fits
    obtain ⟨p, m', done, created⟩ := buffPoolCreateFits laid.lock range' fits
    refine ⟨p, m', done, createdFresh created, fun j lt => ?_⟩
    exact ⟨createdAligned created lt, createdInside created fits.2.2 lt⟩

theorem bootRegionsApartSmall : ∃ m given, Booted Fits (bootMemMngInit 4096 0 65536) m given ∧
    given = [⟨4096, 4120⟩, ⟨4120, 4128⟩, ⟨4128, 4152⟩] ∧ m.lock = false ∧ given.Pairwise Apart := by
  have one : Booted Fits (bootMemMngInit 4096 0 65536) _ _ :=
    .step .start (by decide : Fits _ (.mem 24)) (by rfl)
  have two : Booted Fits (bootMemMngInit 4096 0 65536) _ _ :=
    .step one (by decide : Fits _ (.pool 0 1 24 5)) (by rfl)
  obtain ⟨lock, apart, _⟩ := bootRegionsApart (by decide) (by decide) two
  exact ⟨_, _, two, by decide, lock, apart⟩

theorem poolBufferSpills : (∃ m given, Booted (fun _ _ => True) (bootMemMngInit 4096 0 65536) m given ∧
      ¬ given.Pairwise Apart) ∧
    (bootGetMem (bootMemMngInit 4096 0 65536) 65536).map (fun r => r.2.lock) = some true := by
  have one : Booted (fun _ _ => True) (bootMemMngInit 4096 0 65536) _ _ :=
    .step .start trivial (by rfl : BootCall.run _ (.mem 4) = some (_, _))
  have two : Booted (fun _ _ => True) (bootMemMngInit 4096 0 65536) _ _ :=
    .step one trivial (by rfl : BootCall.run _ (.pool 0 1 24 5) = some (_, _))
  have three : Booted (fun _ _ => True) (bootMemMngInit 4096 0 65536) _ _ :=
    .step two trivial (by rfl : BootCall.run _ (.mem 64) = some (_, _))
  exact ⟨⟨_, _, three, by decide⟩, by decide⟩

end Flexbuild.BootMemory
